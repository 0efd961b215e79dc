import Marshal.Converter.Native

/-!
# Reading with converters

What a converter makes of the next value of a document.  Reading is lenient: a value of the wrong kind is skipped and
reads as absent, and so are unknown fields and unknown constants.
-/

namespace Marshal

open Reader

namespace Codec

/-- Reads a value; `call` reads with the binding at a position. -/
def readWith (call : Nat → ReadM (Option Value)) : Codec → ReadM (Option Value)
  | native kind => kind.read
  | binding index => call index
  | dynamic => Value.readAny
  | attached index nullSafe => do
    if nullSafe then
      if (← peek) = .null then
        nextNull
        return none
      else call index
    else call index
  | split _ read => read.readWith call
  | runtimeType declared => declared.readWith call
  | sequence element _ => do
    match ← peek with
    | .beginArray => return some (.list (← readItems (element.readWith call)))
    | found => skipMismatched found
  | objectMap key value _ => do
    match ← peek with
    | .beginObject => return some (.map (← readNamed key.readKey (value.readWith call)))
    | .beginArray => return some (.map (← readPairs key.read (value.readWith call)))
    | found => skipMismatched found
  | pairMap key value _ => do
    match ← peek with
    | .beginArray => return some (.map (← readPairs (key.readWith call) (value.readWith call)))
    | .beginObject =>
      let keyOf (name : String) : ReadM (String × Value) := do
        let k := .orNull (← onText (Text.quote name.toList) (key.readWith call))
        return (k.display, k)
      return some (.map (← readNamed keyOf (value.readWith call)))
    | found => skipMismatched found

end Codec

namespace EnumAdapter

def read (a : EnumAdapter) : ReadM (Option Value) := do
  match ← peek with
  | .string | .number => return (a.constant? (← nextString)).map (.enum a.target)
  | found => skipMismatched found

end EnumAdapter

namespace ReadProcedure

/-- Reads one entry of an object into its fields.  An entry that decides nothing leaves them as they are. -/
def readEntry (p : ReadProcedure) (call : Nat → ReadM (Option Value)) (fields : Fields) : ReadM Fields := do
  match p.field? (← nextName) with
  | none =>
    skipValue
    return fields
  | some f =>
    let token ← peek
    if token = .null && !f.codec.readsNull then
      nextNull
      return fields.remove f.name
    else if !f.accepts.isEmpty && !f.accepts.contains token then
      skipValue
      return fields
    else
      match ← f.codec.readWith call with
      | some v => return fields.set f.name v
      | none => return fields.remove f.name

/-- The first field that must be present and is not. -/
def missing? (p : ReadProcedure) (fields : Fields) : Option String :=
  p.nonNull.find? fun name => (fields.get? name).isNone

/-- Reads an object of the type `target`. -/
def read (p : ReadProcedure) (target : TypeRef) (call : Nat → ReadM (Option Value)) : ReadM (Option Value) := do
  match ← peek with
  | .beginObject =>
    beginObject
    let fields ← overEntries (p.readEntry call) []
    endObject
    match p.missing? fields with
    | some name => throw (.nonNull target.plain name)
    | none => return some (.object target fields)
  | found => skipMismatched found

end ReadProcedure

namespace Converter

/-- Runs a reader with the binding at a position. -/
def callBinding (read : Converter → ReadM (Option Value)) (bindings : List Converter) (index : Nat) :
    ReadM (Option Value) :=
  match bindings[index]? with
  | some c => read c
  | none => throw (.violation (.missingBinding index bindings.length))

/-- Reads the next value.  Each call of one converter by another takes one unit of fuel. -/
def read (delegates : Delegates) : (fuel : Nat) → Converter → ReadM (Option Value)
  | 0, _ => throw .outOfFuel
  | fuel + 1, c =>
    match c with
    | native _ kind => kind.read
    | dynamic .. => Value.readAny
    | codec _ c bindings => c.readWith (callBinding (read delegates fuel) bindings)
    | enum _ adapter => adapter.read
    | struct _ adapter target bindings _ =>
      adapter.read.read target (callBinding (read delegates fuel) bindings)
    | placeholder id ty =>
      match delegates.find? id with
      | some c => read delegates fuel c
      | none => throw (.violation (.unsetDelegate ty))
    | custom _ c => c.read

/-- Reads a whole document, which holds one value. -/
def readDocument (delegates : Delegates) (fuel : Nat) (c : Converter) : ReadM (Option Value) := do
  let v ← c.read delegates fuel
  match ← peek with
  | .endDocument => return v
  | found => unexpected "END_DOCUMENT" found

/-- The value that a text holds. -/
def fromJson (delegates : Delegates) (fuel : Nat) (c : Converter) (text : String) : Except Error (Option Value) :=
  match (c.readDocument delegates fuel).run (ofText text.toList) with
  | .ok v _ => .ok v
  | .error e _ => .error e

end Converter

end Marshal
