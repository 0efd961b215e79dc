import Marshal.Proofs.Stream.Calls
import Marshal.Proofs.Text.Bytes

/-!
# A reader over bytes

The reader as a machine over the bytes of a text: a cursor that counts bytes, and a stack with a scope for the
document at its bottom.  An index past the end, a slice that does not begin and end between characters, and the top of
an empty stack are crashes here (`Crash`).  A call is run by `Request.runBytes`, and calls in a row by `runAll`, which
goes on behind a call that failed.
-/

namespace Marshal

/-- The number that digits denote in base sixteen, of a slice of four bytes. -/
def Text.hexDigits? : List Char → Option Nat
  | [a, b, c, d] => hexFour? a b c d
  | _ => none

/-! ### The machine -/

/-- What ends a program. -/
inductive Crash where
  | index
  | slice
  | underflow
deriving Repr, DecidableEq

/-- Why a call gives no result. -/
inductive Failure where
  | fault (e : Error)
  | crash (c : Crash)
deriving Repr, DecidableEq

/-- What has been seen of the document, or of an open container. -/
inductive ByteScope where
  | emptyDocument
  | nonEmptyDocument
  | emptyArray
  | nonEmptyArray
  | emptyObject
  /-- After a name, before its colon. -/
  | danglingName
  | nonEmptyObject
deriving Repr, DecidableEq

structure ByteReader where
  text : List Char
  /-- The byte at which reading goes on. -/
  pos : Nat
  /-- The scopes, innermost first; the last one is that of the document. -/
  stack : List ByteScope
  /-- The kind of the next token, once it is known. -/
  peeked : Option TokenKind
deriving Repr, DecidableEq

/-- A computation that reads bytes; its effect on the reader stays if it fails. -/
abbrev ByteM := EStateM Failure ByteReader

namespace ByteReader

open Text (bytes slice? splitAt? hexDigits? isHighSurrogate isLowSurrogate joinSurrogates)

def ofText (s : List Char) : ByteReader := ⟨s, 0, [.emptyDocument], none⟩

/-- The byte at the cursor, if there is one. -/
def byte? (b : ByteReader) : Option UInt8 := (bytes b.text)[b.pos]?

/-- The length of the run of such bytes at the cursor. -/
def run (p : UInt8 → Bool) (b : ByteReader) : Nat := (((bytes b.text).drop b.pos).takeWhile p).length

def advance (count : Nat) (b : ByteReader) : ByteReader := { b with pos := b.pos + count }

def crash {α : Type} (c : Crash) : ByteM α := throw (.crash c)

def fail {α : Type} (fault : SyntaxFault) : ByteM α := do
  throw (.fault (.malformed fault (← get).pos))

/-- The byte at the cursor, by its index. -/
def index : ByteM UInt8 := do
  match (← get).byte? with
  | some x => return x
  | none => crash .index

/-- The text from the cursor on. -/
def rest : ByteM (List Char) := do
  let b ← get
  match splitAt? b.pos b.text with
  | some (_, s) => return s
  | none => crash .slice

def top : ByteM ByteScope := do
  match (← get).stack with
  | scope :: _ => return scope
  | [] => crash .underflow

def setTop (scope : ByteScope) : ByteM Unit := do
  let b ← get
  match b.stack with
  | _ :: outer => set { b with stack := scope :: outer }
  | [] => crash .underflow

/-! ### The next token -/

def isBlankByte (x : UInt8) : Bool :=
  x = ' '.toUInt8 || x = '\t'.toUInt8 || x = '\n'.toUInt8 || x = '\x0c'.toUInt8 || x = '\r'.toUInt8

/-- Moves over blanks. -/
def skipBlanks (b : ByteReader) : ByteReader := b.advance (b.run isBlankByte)

def isDigitByte (x : UInt8) : Bool := '0'.toUInt8 ≤ x && x ≤ '9'.toUInt8

/-- The kind of a value that begins with a byte. -/
def kindOfByte? (x : UInt8) : Option TokenKind :=
  if x = '\x7b'.toUInt8 then some .beginObject
  else if x = '['.toUInt8 then some .beginArray
  else if x = '"'.toUInt8 then some .string
  else if x = 't'.toUInt8 || x = 'f'.toUInt8 then some .boolean
  else if x = 'n'.toUInt8 then some .null
  else if x = '-'.toUInt8 || isDigitByte x then some .number
  else none

def valueKind : ByteM TokenKind := do
  match (← get).byte? with
  | none => fail .unexpectedEnd
  | some x =>
    match kindOfByte? x with
    | some kind => return kind
    | none => fail .unexpectedCharacter

def nameKind : ByteM TokenKind := do
  if (← get).byte? = some '"'.toUInt8 then return .name else fail .expectedName

/-- Works out the kind of the next token from the scope on top, past the comma or the colon before it. -/
def scan : ByteM TokenKind := do
  modify skipBlanks
  let byte := (← get).byte?
  match ← top with
  | .emptyDocument =>
    setTop .nonEmptyDocument
    valueKind
  | .nonEmptyDocument =>
    match byte with
    | none => return .endDocument
    | some _ => fail .trailingCharacters
  | .emptyArray =>
    if byte = some ']'.toUInt8 then return .endArray
    else
      setTop .nonEmptyArray
      valueKind
  | .nonEmptyArray =>
    if byte = some ']'.toUInt8 then return .endArray
    else if byte = some ','.toUInt8 then
      modify (advance 1)
      modify skipBlanks
      valueKind
    else fail .expectedCommaOrBracket
  | .emptyObject => if byte = some '\x7d'.toUInt8 then return .endObject else nameKind
  | .nonEmptyObject =>
    if byte = some '\x7d'.toUInt8 then return .endObject
    else if byte = some ','.toUInt8 then
      modify (advance 1)
      modify skipBlanks
      nameKind
    else fail .expectedCommaOrBrace
  | .danglingName =>
    if byte = some ':'.toUInt8 then
      modify (advance 1)
      modify skipBlanks
      setTop .nonEmptyObject
      valueKind
    else fail .expectedColon

def peek : ByteM TokenKind := do
  match (← get).peeked with
  | some kind => return kind
  | none =>
    let kind ← scan
    modify fun b => { b with peeked := some kind }
    return kind

def unexpected {α : Type} (expected : String) (found : TokenKind) : ByteM α := do
  throw (.fault (.unexpectedToken expected found (← get).pos))

/-- Forgets the kind of the next token, as its text is about to be read. -/
def take : ByteM Unit := modify fun b => { b with peeked := none }

def expect (kind : TokenKind) : ByteM Unit := do
  let found ← peek
  if found = kind then take else unexpected kind.display found

def hasNext : ByteM Bool := do
  match ← peek with
  | .endObject | .endArray | .endDocument => return false
  | _ => return true

/-! ### Containers -/

def enter (scope : ByteScope) : ByteM Unit := do
  let b ← get
  if b.stack.length > Reader.maxDepth then fail .nestingTooDeep
  else set { b.advance 1 with stack := scope :: b.stack }

def leave : ByteM Unit := modify fun b => { b.advance 1 with stack := b.stack.tail }

def beginObject : ByteM Unit := do
  expect .beginObject
  enter .emptyObject

def endObject : ByteM Unit := do
  expect .endObject
  leave

def beginArray : ByteM Unit := do
  expect .beginArray
  enter .emptyArray

def endArray : ByteM Unit := do
  expect .endArray
  leave

/-! ### Leaves -/

/-- Reads four digits in base sixteen. -/
def hexFour : ByteM Nat := do
  let b ← get
  match slice? b.pos 4 b.text with
  | none => fail .truncatedUnicodeEscape
  | some digits =>
    match hexDigits? digits with
    | none => fail .invalidUnicodeEscape
    | some n =>
      set (b.advance 4)
      return n

/-- Reads the character of an escape, behind its `u`. -/
def unicodeEscape : ByteM Char := do
  let high ← hexFour
  if isHighSurrogate high then
    if ['\\', 'u'].isPrefixOf (← rest) then
      modify (advance 2)
      let low ← hexFour
      if isLowSurrogate low then return joinSurrogates high low else fail .unpairedSurrogate
    else fail .unpairedSurrogate
  else if isLowSurrogate high then fail .unpairedSurrogate
  else return Char.ofNat high

/-- The character that an escape of one letter stands for. -/
def unescapeByte? (x : UInt8) : Option Char :=
  if x = '"'.toUInt8 then some '"'
  else if x = '\\'.toUInt8 then some '\\'
  else if x = '/'.toUInt8 then some '/'
  else if x = 'b'.toUInt8 then some '\x08'
  else if x = 'f'.toUInt8 then some '\x0c'
  else if x = 'n'.toUInt8 then some '\n'
  else if x = 'r'.toUInt8 then some '\r'
  else if x = 't'.toUInt8 then some '\t'
  else none

/-- Reads an escape, whose backslash is at the cursor. -/
def escape : ByteM Char := do
  modify (advance 1)
  let byte := (← get).byte?
  modify (advance 1)
  match byte with
  | none => fail .invalidEscape
  | some x =>
    if x = 'u'.toUInt8 then unicodeEscape
    else
      match unescapeByte? x with
      | some c => return c
      | none => fail .invalidEscape

/-- Whether a character ends a run of characters that stand for themselves. -/
def stops (c : Char) : Bool := c = '"' || c = '\\'

/-- Reads a quoted text up to its closing quote, behind the characters read so far.  Each escape takes one unit of
fuel. -/
def quotedFrom : (fuel : Nat) → List Char → ByteM (List Char)
  | 0, _ => throw (.fault .outOfFuel)
  | fuel + 1, out => do
    let s ← rest
    if s.any stops then
      match splitAt? (Text.utf8Size (s.takeWhile fun c => !stops c)) s with
      | none => crash .slice
      | some (plain, _) =>
        modify (advance (Text.utf8Size plain))
        if (← index) = '"'.toUInt8 then
          modify (advance 1)
          return out ++ plain
        else
          let c ← escape
          quotedFrom fuel (out ++ plain ++ [c])
    else fail .unterminatedString

def readQuoted : ByteM String := do
  modify (advance 1)
  let b ← get
  return String.ofList (← quotedFrom ((bytes b.text).length - b.pos + 1) [])

def isNumberByte (x : UInt8) : Bool :=
  isDigitByte x || x = '-'.toUInt8 || x = '+'.toUInt8 || x = '.'.toUInt8 || x = 'e'.toUInt8 || x = 'E'.toUInt8

def readNumber : ByteM String := do
  let b ← get
  let count := b.run isNumberByte
  modify (advance count)
  match slice? b.pos count b.text with
  | none => crash .slice
  | some lexeme =>
    if isLexeme lexeme then return String.ofList lexeme
    else
      set b
      fail .malformedNumber

def readLiteral (literal : List Char) : ByteM Unit := do
  if literal.isPrefixOf (← rest) then modify (advance literal.length) else fail .invalidLiteral

def nextName : ByteM String := do
  expect .name
  let name ← readQuoted
  setTop .danglingName
  return name

def nextString : ByteM String := do
  match ← peek with
  | .string => take; readQuoted
  | .number => take; readNumber
  | found => unexpected "STRING" found

def nextNumber : ByteM String := do
  match ← peek with
  | .number => take; readNumber
  | .string => take; readQuoted
  | found => unexpected "NUMBER" found

def nextBool : ByteM Bool := do
  expect .boolean
  if (← index) = 't'.toUInt8 then
    readLiteral ['t', 'r', 'u', 'e']
    return true
  else
    readLiteral ['f', 'a', 'l', 's', 'e']
    return false

def nextNull : ByteM Unit := do
  expect .null
  readLiteral ['n', 'u', 'l', 'l']

def nextInt : ByteM Int64 := do
  let text ← nextNumber
  match integralText? text.toList with
  | some n => return n
  | none => throw (.fault (.invalidValue "integer" (String.ofList (Text.trim text.toList))))

def nextFloat : ByteM Binary64 := do
  let text ← nextNumber
  match floatText? (Text.trim text.toList) with
  | some x => return x
  | none => throw (.fault (.invalidValue "number" text))

/-! ### Skipping -/

/-- The number of bytes that are left. -/
def left (b : ByteReader) : Nat := (bytes b.text).length - b.pos

/-- Repeats a step while the open container has more to read.  Each step takes one unit of fuel. -/
def whileNext : (fuel : Nat) → ByteM Unit → ByteM Unit
  | 0, _ => throw (.fault .outOfFuel)
  | fuel + 1, step => do
    if ← hasNext then
      step
      whileNext fuel step

/-- Skips a value, or a name.  Each level of nesting takes one unit of fuel. -/
def skipWith : (fuel : Nat) → ByteM Unit
  | 0 => throw (.fault .outOfFuel)
  | fuel + 1 => do
    match ← peek with
    | .beginObject =>
      beginObject
      whileNext ((← get).left + 1) do
        let _ ← nextName
        skipWith fuel
      endObject
    | .beginArray =>
      beginArray
      whileNext ((← get).left + 1) (skipWith fuel)
      endArray
    | .string | .number => let _ ← nextString
    | .boolean => let _ ← nextBool
    | .null => nextNull
    | .name => let _ ← nextName
    | found => unexpected "a value" found

def skipValue : ByteM Unit := skipWith (Reader.maxDepth + 2)

end ByteReader

/-! ### Calls in a row -/

namespace Reader

/-- A call of the machine. -/
def Request.runBytes : Request → ByteM Answer
  | peek => do return .kind (← ByteReader.peek)
  | hasNext => do return .flag (← ByteReader.hasNext)
  | beginObject => do ByteReader.beginObject; return .done
  | endObject => do ByteReader.endObject; return .done
  | beginArray => do ByteReader.beginArray; return .done
  | endArray => do ByteReader.endArray; return .done
  | name => do return .text (← ByteReader.nextName)
  | string => do return .text (← ByteReader.nextString)
  | number => do return .text (← ByteReader.nextNumber)
  | bool => do return .flag (← ByteReader.nextBool)
  | null => do ByteReader.nextNull; return .done
  | int => do return .int (← ByteReader.nextInt)
  | float => do return .float (← ByteReader.nextFloat)
  | skip => do ByteReader.skipValue; return .done

/-- Runs calls one after the other, also behind a call that failed: what each of them gives, and the state at the
end. -/
def runAll {ε σ : Type} (run : Request → EStateM ε σ Answer) : List Request → σ → List (Except ε Answer) × σ
  | [], s => ([], s)
  | q :: qs, s =>
    match run q s with
    | .ok a s' => let (results, s'') := runAll run qs s'; (.ok a :: results, s'')
    | .error e s' => let (results, s'') := runAll run qs s'; (.error e :: results, s'')

section Runs

variable {ε σ : Type} {run : Request → EStateM ε σ Answer} {q : Request} {s s' : σ}

theorem runAll_of_ok {a : Answer} (h : run q s = .ok a s') (qs : List Request) :
    runAll run (q :: qs) s = (.ok a :: (runAll run qs s').1, (runAll run qs s').2) := by
  rw [runAll, h]

theorem runAll_of_error {e : ε} (h : run q s = .error e s') (qs : List Request) :
    runAll run (q :: qs) s = (.error e :: (runAll run qs s').1, (runAll run qs s').2) := by
  rw [runAll, h]

/-- Where every call does the same in two states, calls in a row give the same results. -/
theorem runAll_congr (h : ∀ q, run q s' = run q s) (qs : List Request) :
    (runAll run qs s').1 = (runAll run qs s).1 := by
  cases qs with
  | nil => rfl
  | cons q qs => rw [runAll, runAll, h q]

end Runs

end Reader

/-! ### Safety -/

namespace ByteScope

def isDocument : ByteScope → Bool
  | emptyDocument | nonEmptyDocument => true
  | _ => false

/-- Whether a token may come next where the scope is on top, once the token has been looked at. -/
def allows : ByteScope → TokenKind → Bool
  | nonEmptyDocument, k => k.startsValue || k = .endDocument
  | emptyArray, k => k = .endArray
  | nonEmptyArray, k => k.startsValue || k = .endArray
  | emptyObject, k => k = .name || k = .endObject
  | nonEmptyObject, k => k.startsValue || k = .name || k = .endObject
  | emptyDocument, _ | danglingName, _ => false

end ByteScope

namespace ByteReader

/-- Whether a byte begins a token of a kind. -/
def starts (k : TokenKind) (x : UInt8) : Bool :=
  match k with
  | .name => x = '"'.toUInt8
  | .endArray => x = ']'.toUInt8
  | .endObject => x = '\x7d'.toUInt8
  | k => kindOfByte? x = some k

/-- The scopes are in order: only the last one is that of the document, and not too many containers are open.  A token
that has been looked at stands at the cursor, between characters, and is allowed; the end of the document has no byte
left. -/
structure Safe (b : ByteReader) : Prop where
  stack_eq : ∃ inner document, b.stack = inner ++ [document] ∧ document.isDocument = true ∧
    (∀ scope ∈ inner, scope.isDocument = false) ∧ inner.length ≤ Reader.maxDepth
  peeked : ∀ k, b.peeked = some k → (∃ scope ∈ b.stack.head?, scope.allows k = true) ∧
    if k = .endDocument then b.byte? = none
    else Text.isBoundary b.pos b.text = true ∧ ∃ x ∈ b.byte?, starts k x = true

end ByteReader

end Marshal
