import Marshal.Converter.Basic

/-!
# Native and dynamic reading

How native values and values of any shape are read from a document.
-/

namespace Marshal

namespace Reader

/-- Repeats a step, which carries a state along, while the open container has more to read.  Each step reads at least
one character, so the length of what is left bounds their number. -/
def foldNext {σ : Type} (fuel : Nat) (step : σ → ReadM σ) (s : σ) : ReadM σ :=
  match fuel with
  | 0 => throw .outOfFuel
  | fuel + 1 => do
    if ← hasNext then
      let s ← step s
      foldNext fuel step s
    else return s

/-- Repeats a step until the open container ends. -/
def overEntries {σ : Type} (step : σ → ReadM σ) (s : σ) : ReadM σ := do
  foldNext ((← get).cursor.rest.length + 1) step s

/-- The elements of an array, each read by `item`. -/
def readItems (item : ReadM (Option Value)) : ReadM (List Value) := do
  beginArray
  let items ← overEntries (fun (items : Array Value) => return items.push (.orNull (← item))) #[]
  endArray
  return items.toList

/-- The entries of a map read so far, and the texts of their keys. -/
structure MapState where
  seen : List String
  entries : Array (Value × Value)

namespace MapState

def empty : MapState := ⟨[], #[]⟩

def push (s : MapState) (identity : String) (k v : Value) : MapState :=
  ⟨identity :: s.seen, s.entries.push (k, v)⟩

end MapState

/-- The entries of an object.  `key` gives the identity and the key that a name stands for; a key that was met before
is refused before its value is read. -/
def readNamed (key : String → ReadM (String × Value)) (value : ReadM (Option Value)) :
    ReadM (List (Value × Value)) := do
  beginObject
  let s ← overEntries (fun (s : MapState) => do
    let name ← nextName
    let (identity, k) ← key name
    if s.seen.contains identity then throw (.duplicateKey name)
    else return s.push identity k (.orNull (← value))) .empty
  endObject
  return s.entries.toList

/-- The entries of an array of pairs.  A key that was met before is refused after its pair was read. -/
def readPairs (key value : ReadM (Option Value)) : ReadM (List (Value × Value)) := do
  beginArray
  let s ← overEntries (fun (s : MapState) => do
    beginArray
    let k := .orNull (← key)
    let v := .orNull (← value)
    endArray
    let identity := Value.display k
    if s.seen.contains identity then throw (.duplicateKey identity)
    else return s.push identity k v) .empty
  endArray
  return s.entries.toList

/-- Reads a text of its own, apart from the document. -/
def onText {α : Type} (s : List Char) (m : ReadM α) : ReadM α :=
  match m.run (ofText s) with
  | .ok a _ => return a
  | .error e _ => throw e

/-- Null reads as absent, and a value of another kind than expected is skipped. -/
def skipMismatched (found : TokenKind) : ReadM (Option Value) := do
  if found = .null then nextNull else skipValue
  return none

end Reader

open Reader

namespace Value

/-- The value of a number of unknown type: an integer where it is one, else a float. -/
def ofLexeme (lexeme : String) : ReadM Value :=
  match int64Text? lexeme.toList with
  | some n => return .int n
  | none =>
    if isIntegerLexeme lexeme.toList then return .bigInt lexeme
    else
      match floatText? lexeme.toList with
      | some x => return .float x
      | none => throw (.invalidValue "number" lexeme)

/-- Reads a value by its own shape.  Each level of nesting takes one unit of fuel. -/
def readWith : (fuel : Nat) → ReadM (Option Value)
  | 0 => throw .outOfFuel
  | fuel + 1 => do
    match ← peek with
    | .null =>
      nextNull
      return none
    | .boolean => return some (.bool (← nextBool))
    | .string => return some (.str (← nextString))
    | .number => return some (← ofLexeme (← nextNumber))
    | .beginArray => return some (.list (← readItems (readWith fuel)))
    | .beginObject => return some (.map (← readNamed (fun name => return (name, .str name)) (readWith fuel)))
    | found => unexpected "a value" found

/-- Reads whatever comes next.  No value nests deeper than `Reader.maxDepth`, so the fuel lasts. -/
def readAny : ReadM (Option Value) := readWith (maxDepth + 2)

end Value

namespace NativeKind

/-- Whether an integer is in the range of an integer kind. -/
def fits : NativeKind → Int64 → Bool
  | i8, n => Int8.minValue.toInt ≤ n.toInt && n.toInt ≤ Int8.maxValue.toInt
  | i16, n => Int16.minValue.toInt ≤ n.toInt && n.toInt ≤ Int16.maxValue.toInt
  | i32, n => Int32.minValue.toInt ≤ n.toInt && n.toInt ≤ Int32.maxValue.toInt
  | _, _ => true

/-- The fault of an integer out of range. -/
def outOfRange (kind : NativeKind) (n : Int64) : Error := .invalidValue kind.typePath (toString n.toInt)

/-- A truth value that is not written as a literal, in any case. -/
def boolOf (text : String) : ReadM Bool :=
  let lower := text.toList.map Char.toLower
  if lower = ['t', 'r', 'u', 'e'] then return true
  else if lower = ['f', 'a', 'l', 's', 'e'] then return false
  else throw (.invalidValue "bool" text)

def charOf (text : String) : ReadM Char :=
  match text.toList with
  | [c] => return c
  | _ => throw (.invalidValue "char" text)

def readInt (kind : NativeKind) : ReadM Value := do
  let n ← integerOf (← nextNumber)
  if kind.fits n then return .int n else throw (kind.outOfRange n)

/-- A number text that denotes a float is kept as it is. -/
def readLexeme : ReadM String := do
  let text ← nextNumber
  if (floatText? text.toList).isSome then return text else throw (.invalidValue "number" text)

def readBigInt : ReadM String := do
  let text ← nextNumber
  if isIntegerLexeme text.toList then return text else throw (.invalidValue "big int" text)

def readAddress : ReadM Address := do
  let text ← nextString
  match Address.ofText? text.toList with
  | some a => return a
  | none => throw (.invalidValue "ip address" text)

/-- Reads a value of a native kind that is not null. -/
def readValue (kind : NativeKind) : ReadM (Option Value) := do
  match kind with
  | bool =>
    if (← peek) = .boolean then return some (.bool (← nextBool))
    else return some (.bool (← boolOf (← nextString)))
  | i8 | i16 | i32 | i64 => return some (← kind.readInt)
  | f32 | f64 => return some (.float (← nextFloat))
  | char => return some (.char (← charOf (← nextString)))
  | string => return some (.str (← nextString))
  | bigInt => return some (.bigInt (← readBigInt))
  | bigDecimal => return some (.decimal (← readLexeme))
  | number => return some (.number (← readLexeme))
  | path => return some (.path (.ofText (← nextString)))
  | ipAddr => return some (.ip (← readAddress))
  | json => Value.readAny

def read (kind : NativeKind) : ReadM (Option Value) := do
  if (← peek) = .null then
    nextNull
    return none
  else kind.readValue

/-- The key that a name stands for in a map with keys of a native kind. -/
def readKey (kind : NativeKind) (name : String) : ReadM (String × Value) := do
  let k := .orNull (← onText (Text.quote name.toList) kind.read)
  return (k.display, k)

end NativeKind

end Marshal
