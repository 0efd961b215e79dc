import Marshal.Number.Numeral
import Marshal.Text.Quoted

/-!
# Reading tokens

A reader pulls the tokens of a document one by one.  Every call looks at the kind of the next token first and refuses
a kind that it is not meant for.  A call that fails leaves the reader where it stopped, and later calls go on from
there: what was already settled about commas, colons and the next token stays settled.
-/

namespace Marshal

open Text (Cursor quote unquote)

/-- What a reader has seen of an open container. -/
inductive ReadScope where
  | emptyArray
  | nonEmptyArray
  | emptyObject
  /-- After a name, before its colon. -/
  | danglingName
  | nonEmptyObject
deriving Repr, DecidableEq, Inhabited

structure Reader where
  cursor : Cursor
  /-- Whether the value of the document has begun. -/
  started : Bool
  /-- The open containers, innermost first. -/
  scopes : List ReadScope
  /-- The kind of the next token, once it is known. -/
  peeked : Option TokenKind
deriving Repr, DecidableEq, Inhabited

/-- A computation that reads; its effect on the reader stays if it fails. -/
abbrev ReadM := EStateM Error Reader

namespace Reader

/-- The deepest nesting of containers. -/
def maxDepth : Nat := 128

def ofText (s : List Char) : Reader := ⟨⟨s, 0⟩, false, [], none⟩

def offset (r : Reader) : Nat := r.cursor.offset

/-- Changes what has been seen of the innermost container. -/
def setScope (scope : ReadScope) (r : Reader) : Reader :=
  match r.scopes with
  | [] => r
  | _ :: outer => { r with scopes := scope :: outer }

def advance (n : Nat) (r : Reader) : Reader := { r with cursor := r.cursor.advance n }

/-- Moves over blanks. -/
def skipBlanks (r : Reader) : Reader :=
  r.advance (r.cursor.rest.takeWhile Text.isAsciiBlank).length

def fail {α : Type} (fault : SyntaxFault) : ReadM α := do
  throw (.malformed fault (← get).offset)

/-! ### The next token -/

/-- The kind of a value, by its first character. -/
def valueKind : ReadM TokenKind := do
  match (← get).cursor.rest with
  | [] => fail .unexpectedEnd
  | c :: _ =>
    if c = '\x7b' then return .beginObject
    else if c = '[' then return .beginArray
    else if c = '"' then return .string
    else if c = 't' || c = 'f' then return .boolean
    else if c = 'n' then return .null
    else if c = '-' || c.isDigit then return .number
    else fail .unexpectedCharacter

def nameKind : ReadM TokenKind := do
  match (← get).cursor.rest with
  | '"' :: _ => return .name
  | _ => fail .expectedName

/-- Works out the kind of the next token from the scope, past the comma or the colon before it. -/
def scan : ReadM TokenKind := do
  modify skipBlanks
  let r ← get
  match r.scopes with
  | [] =>
    if r.started then
      if r.cursor.rest.isEmpty then return .endDocument else fail .trailingCharacters
    else
      set { r with started := true }
      valueKind
  | .emptyArray :: _ =>
    if r.cursor.rest.head? = some ']' then return .endArray
    else
      set (r.setScope .nonEmptyArray)
      valueKind
  | .nonEmptyArray :: _ =>
    if r.cursor.rest.head? = some ']' then return .endArray
    else if r.cursor.rest.head? = some ',' then
      set (r.advance 1).skipBlanks
      valueKind
    else fail .expectedCommaOrBracket
  | .emptyObject :: _ =>
    if r.cursor.rest.head? = some '\x7d' then return .endObject else nameKind
  | .nonEmptyObject :: _ =>
    if r.cursor.rest.head? = some '\x7d' then return .endObject
    else if r.cursor.rest.head? = some ',' then
      set (r.advance 1).skipBlanks
      nameKind
    else fail .expectedCommaOrBrace
  | .danglingName :: _ =>
    if r.cursor.rest.head? = some ':' then
      set ((r.advance 1).skipBlanks.setScope .nonEmptyObject)
      valueKind
    else fail .expectedColon

/-- The kind of the next token, which is not consumed. -/
def peek : ReadM TokenKind := do
  match (← get).peeked with
  | some kind => return kind
  | none =>
    let kind ← scan
    modify fun r => { r with peeked := some kind }
    return kind

def unexpected {α : Type} (expected : String) (found : TokenKind) : ReadM α := do
  throw (.unexpectedToken expected found (← get).offset)

/-- Forgets the kind of the next token, as its text is about to be read. -/
def take : ReadM Unit := modify fun r => { r with peeked := none }

def expect (kind : TokenKind) : ReadM Unit := do
  let found ← peek
  if found = kind then take else unexpected kind.display found

/-- Whether the open container, or the document, has more to read. -/
def hasNext : ReadM Bool := do
  match ← peek with
  | .endObject | .endArray | .endDocument => return false
  | _ => return true

/-! ### Containers -/

def enter (scope : ReadScope) : ReadM Unit := do
  let r ← get
  if r.scopes.length < maxDepth then set { r.advance 1 with scopes := scope :: r.scopes }
  else fail .nestingTooDeep

def leave : ReadM Unit := modify fun r => { r.advance 1 with scopes := r.scopes.tail }

def beginObject : ReadM Unit := do
  expect .beginObject
  enter .emptyObject

def endObject : ReadM Unit := do
  expect .endObject
  leave

def beginArray : ReadM Unit := do
  expect .beginArray
  enter .emptyArray

def endArray : ReadM Unit := do
  expect .endArray
  leave

/-! ### Leaves -/

/-- Reads a quoted text; the cursor is at its opening quote. -/
def readQuoted : ReadM String := do
  let r ← get
  let start := r.cursor.advance 1
  let (result, cursor) := unquote start start.rest start.offset
  set { r with cursor }
  match result with
  | .ok s => return String.ofList s
  | .error fault => throw (.malformed fault cursor.offset)

def isNumberChar (c : Char) : Bool :=
  c.isDigit || c = '-' || c = '+' || c = '.' || c = 'e' || c = 'E'

/-- Reads a number, which is handed on as it is written. -/
def readNumber : ReadM String := do
  let r ← get
  let lexeme := r.cursor.rest.takeWhile isNumberChar
  if isLexeme lexeme then
    set (r.advance lexeme.length)
    return String.ofList lexeme
  else fail .malformedNumber

def readLiteral (literal : List Char) : ReadM Unit := do
  let r ← get
  if literal.isPrefixOf r.cursor.rest then set (r.advance literal.length) else fail .invalidLiteral

def nextName : ReadM String := do
  expect .name
  let name ← readQuoted
  modify (setScope .danglingName)
  return name

/-- Reads a string; a number is taken as the text it is written in. -/
def nextString : ReadM String := do
  match ← peek with
  | .string => take; readQuoted
  | .number => take; readNumber
  | found => unexpected "STRING" found

/-- Reads a number as it is written; a string is taken as it is. -/
def nextNumber : ReadM String := do
  match ← peek with
  | .number => take; readNumber
  | .string => take; readQuoted
  | found => unexpected "NUMBER" found

def nextBool : ReadM Bool := do
  expect .boolean
  if (← get).cursor.rest.head? = some 't' then
    readLiteral ['t', 'r', 'u', 'e']
    return true
  else
    readLiteral ['f', 'a', 'l', 's', 'e']
    return false

def nextNull : ReadM Unit := do
  expect .null
  readLiteral ['n', 'u', 'l', 'l']

/-- The integer that a number text denotes. -/
def integerOf (text : String) : ReadM Int64 :=
  match integralText? text.toList with
  | some n => return n
  | none => throw (.invalidValue "integer" (String.ofList (Text.trim text.toList)))

def nextInt : ReadM Int64 := do
  integerOf (← nextNumber)

def nextFloat : ReadM Binary64 := do
  let text ← nextNumber
  match floatText? (Text.trim text.toList) with
  | some x => return x
  | none => throw (.invalidValue "number" text)

/-! ### Skipping -/

/-- Repeats a step while the open container has more to read.  Each step takes one unit of fuel. -/
def whileNext : (fuel : Nat) → ReadM Unit → ReadM Unit
  | 0, _ => throw .outOfFuel
  | fuel + 1, step => do
    if ← hasNext then
      step
      whileNext fuel step

/-- Skips a value, or a name.  Each level of nesting takes one unit of fuel. -/
def skipWith : (fuel : Nat) → ReadM Unit
  | 0 => throw .outOfFuel
  | fuel + 1 => do
    match ← peek with
    | .beginObject =>
      beginObject
      whileNext ((← get).cursor.rest.length + 1) do
        let _ ← nextName
        skipWith fuel
      endObject
    | .beginArray =>
      beginArray
      whileNext ((← get).cursor.rest.length + 1) (skipWith fuel)
      endArray
    | .string | .number => let _ ← nextString
    | .boolean => let _ ← nextBool
    | .null => nextNull
    | .name => let _ ← nextName
    | found => unexpected "a value" found

/-- Skips the next value with all that is in it.  No value nests deeper than `maxDepth`, so the fuel lasts. -/
def skipValue : ReadM Unit := skipWith (maxDepth + 2)

end Reader

end Marshal
