import Marshal.Converter.Native
import Marshal.Registry.Basic

/-!
# Writing with converters

How converters write values.  A value that knows its own type may be written with the converter that the registry has
for that type, so writing may resolve further types.
-/

namespace Marshal

/-- A document being written, and the state of the registry. -/
structure Writing where
  writer : Writer
  store : Store
deriving Inhabited

abbrev WriteM := EStateM Error Writing

namespace WriteM

/-- Writes tokens. -/
def token {α : Type} (m : TokenM α) : WriteM α := fun w =>
  match m w.writer with
  | .ok a writer => .ok a { w with writer }
  | .error e writer => .error e { w with writer }

/-- Uses the registry. -/
def registry {α : Type} (m : EStateM Error Store α) : WriteM α := fun w =>
  match m w.store with
  | .ok a store => .ok a { w with store }
  | .error e store => .error e { w with store }

end WriteM

open WriteM (token)

/-- How a value of a type of its own is written, where a registry is at hand. -/
abbrev TypedWriter := Option (TypeRef → Value → WriteM Unit)

namespace Value

def mismatch {α : Type} (expected : String) (found : Value) : WriteM α :=
  throw (.valueMismatch expected found.kindName)

/-- Writes an object or a constant with the converter of its type, if it has one and a registry is at hand. -/
def writeTyped (typed : TypedWriter) (v : Value) (otherwise : WriteM Unit) : WriteM Unit :=
  match typed with
  | some write => if v.runtimeType.isAny then otherwise else write v.runtimeType v
  | none => otherwise

/-- Whether every key of a map has a text. -/
def haveTexts (entries : List (Value × Value)) : Bool := entries.all fun e => e.1.keyText?.isSome

mutual

/-- Writes a value by its own shape.  A map is an object if all its keys have a text, else an array of pairs. -/
def writeAny (typed : TypedWriter) : Value → WriteM Unit
  | null => token Writer.null
  | bool b => token (Writer.bool b)
  | int n => token (Writer.int n)
  | float x => token (Writer.float x)
  | bigInt lexeme | decimal lexeme | number lexeme => token (Writer.number lexeme)
  | char c => token (Writer.string (String.singleton c))
  | str s => token (Writer.string s)
  | path p => token (Writer.string p.text)
  | ip a => token (Writer.string a.text)
  | enum ty constant => writeTyped typed (enum ty constant) (token (Writer.string constant))
  | list items => do
    token Writer.beginArray
    writeItems typed items
    token Writer.endArray
  | map entries =>
    if haveTexts entries then do
      token Writer.beginObject
      writeNamed typed entries
      token Writer.endObject
    else do
      token Writer.beginArray
      writePairs typed entries
      token Writer.endArray
  | object ty fields =>
    writeTyped typed (object ty fields) do
      token Writer.beginObject
      writeFields typed fields
      token Writer.endObject

def writeItems (typed : TypedWriter) : List Value → WriteM Unit
  | [] => return
  | v :: vs => do
    writeAny typed v
    writeItems typed vs

/-- Writes entries under the texts of their keys. -/
def writeNamed (typed : TypedWriter) : List (Value × Value) → WriteM Unit
  | [] => return
  | (k, v) :: es => do
    token (Writer.name (k.keyText?.getD ""))
    writeAny typed v
    writeNamed typed es

def writePairs (typed : TypedWriter) : List (Value × Value) → WriteM Unit
  | [] => return
  | (k, v) :: es => do
    token Writer.beginArray
    writeAny typed k
    writeAny typed v
    token Writer.endArray
    writePairs typed es

/-- Writes the fields that are present. -/
def writeFields (typed : TypedWriter) : List (String × Value) → WriteM Unit
  | [] => return
  | (name, v) :: fs => do
    if !v.isNull then
      token (Writer.name name)
      writeAny typed v
    writeFields typed fs

end

end Value

namespace NativeKind

/-- Writes a value of a native kind that is present. -/
def writeValue (kind : NativeKind) (v : Value) : WriteM Unit :=
  match kind, v with
  | .bool, .bool b => token (Writer.bool b)
  | .i8, .int n | .i16, .int n | .i32, .int n | .i64, .int n =>
    if kind.fits n then token (Writer.int n) else throw (kind.outOfRange n)
  | .f32, .float x | .f64, .float x | .number, .float x => token (Writer.float x)
  | .f32, .int n | .f64, .int n | .number, .int n | .bigInt, .int n => token (Writer.int n)
  | .char, .char c | .string, .char c => token (Writer.string (String.singleton c))
  | .string, .str s => token (Writer.string s)
  | .bigInt, .bigInt lexeme | .bigDecimal, .decimal lexeme | .bigDecimal, .bigInt lexeme
  | .number, .number lexeme | .number, .bigInt lexeme | .number, .decimal lexeme => token (Writer.number lexeme)
  | .path, .path p => token (Writer.string p.text)
  | .ipAddr, .ip a => token (Writer.string a.text)
  | .json, v => v.writeAny none
  | kind, v => v.mismatch kind.typePath

def write (kind : NativeKind) (v : Option Value) : WriteM Unit :=
  match Value.present? v with
  | some v => kind.writeValue v
  | none => token Writer.null

end NativeKind

namespace Codec

/-- Writes the elements of a container one by one. -/
def writeEach {α : Type} (write : α → WriteM Unit) : List α → WriteM Unit
  | [] => return
  | a :: rest => do
    write a
    writeEach write rest

/-- Writes a value; `call` writes with the binding at a position. -/
def writeWith (call : Nat → Option Value → WriteM Unit) (typed : TypedWriter) : Codec → Option Value → WriteM Unit
  | native kind, v => kind.write (Value.present? v)
  | binding index, v => call index (Value.present? v)
  | dynamic, v =>
    match Value.present? v with
    | some v => v.writeAny typed
    | none => token Writer.null
  | attached index nullSafe, v =>
    match Value.present? v with
    | some v => call index (some v)
    | none => if nullSafe then token Writer.null else call index none
  | split write _, v => write.writeWith call typed (Value.present? v)
  | runtimeType declared, v =>
    match Value.present? v, typed with
    | some v, some write => if v.runtimeType.isAny then v.writeAny typed else write v.runtimeType v
    | v, _ => declared.writeWith call typed v
  | sequence element _, v =>
    match Value.present? v with
    | none => token Writer.null
    | some (.list items) => do
      token Writer.beginArray
      writeEach (fun item => element.writeWith call typed (some item)) items
      token Writer.endArray
    | some v => v.mismatch "list"
  | objectMap key value _, v =>
    match Value.present? v with
    | none => token Writer.null
    | some (.map entries) => do
      token Writer.beginObject
      writeEach (fun (k, v) =>
        match k.keyText? with
        | some name => do
          token (Writer.name name)
          value.writeWith call typed (some v)
        | none => k.mismatch key.typePath) entries
      token Writer.endObject
    | some v => v.mismatch "map"
  | pairMap key value _, v =>
    match Value.present? v with
    | none => token Writer.null
    | some (.map entries) => do
      token Writer.beginArray
      writeEach (fun (k, v) => do
        token Writer.beginArray
        key.writeWith call typed (some k)
        value.writeWith call typed (some v)
        token Writer.endArray) entries
      token Writer.endArray
    | some v => v.mismatch "map"

end Codec

namespace EnumAdapter

def write (a : EnumAdapter) (v : Option Value) : WriteM Unit :=
  match Value.present? v with
  | none => token Writer.null
  | some (.enum ty constant) =>
    if ty != a.target then throw (.valueMismatch "matching enum" "enum of another type")
    else
      match a.serializedName? constant with
      | some name => token (Writer.string name)
      | none => throw (.invalidValue "enum constant" constant)
  | some v => v.mismatch "enum"

end EnumAdapter

namespace StructAdapter

/-- Writes one field of an object: its value if it is present, and otherwise what its absence calls for. -/
def writeField (write : Codec → Option Value → WriteM Unit) (target : TypeRef) (fields : Fields) (f : FieldWrite) :
    WriteM Unit :=
  match fields.get? f.name with
  | some v => do
    token (Writer.name f.serializedName)
    write f.codec (some v)
  | none =>
    if f.nonNull then throw (.nonNull target.plain f.name)
    else if f.codec.writesNull then do
      token (Writer.name f.serializedName)
      write f.codec none
    else return

/-- Runs a write procedure for an instance, which may be absent. -/
def runOps (write : Codec → Option Value → WriteM Unit) (target : TypeRef) (instance? : Option Fields) :
    List WriteOp → WriteM Unit
  | [] => return
  | .beginObject :: ops => do
    token Writer.beginObject
    runOps write target instance? ops
  | .endIfAbsent :: ops =>
    if instance?.isNone then token Writer.endObject else runOps write target instance? ops
  | .field f :: ops => do
    match instance? with
    | some fields => writeField write target fields f
    | none => pure ()
    runOps write target instance? ops
  | .endObject :: ops => do
    token Writer.endObject
    runOps write target instance? ops

def writeInstance (a : StructAdapter) (write : Codec → Option Value → WriteM Unit) (target : TypeRef)
    (v : Option Value) : WriteM Unit :=
  match Value.present? v with
  | none => runOps write target none a.write
  | some (.object _ fields) => runOps write target (some fields) a.write
  | some v => v.mismatch "object"

end StructAdapter

namespace Converter

/-- Runs a writer with the binding at a position. -/
def writeBinding (write : Converter → Option Value → WriteM Unit) (bindings : List Converter) (index : Nat)
    (v : Option Value) : WriteM Unit :=
  match bindings[index]? with
  | some c => write c v
  | none => throw (.violation (.missingBinding index bindings.length))

/-- Writes a value with the converter of its type. -/
def writeResolved (reg : Registry) (fuel : Nat) (write : Converter → Option Value → WriteM Unit) (ty : TypeRef)
    (v : Value) : WriteM Unit := do
  let c ← WriteM.registry (reg.resolveIfAlive fuel ty)
  write c (some v)

/-- Writes a value that may be absent.  Each call of one converter by another takes one unit of fuel. -/
def write (reg : Registry) : (fuel : Nat) → Converter → Option Value → WriteM Unit
  | 0, _, _ => throw .outOfFuel
  | fuel + 1, c, v =>
    let typed (linked : Bool) : TypedWriter :=
      if linked then some (writeResolved reg fuel (write reg fuel)) else none
    match c with
    | native _ kind => kind.write v
    | dynamic _ linked =>
      match Value.present? v with
      | some v => v.writeAny (typed linked)
      | none => token Writer.null
    | codec _ c bindings => c.writeWith (writeBinding (write reg fuel) bindings) none v
    | enum _ adapter => adapter.write v
    | struct _ adapter target bindings linked =>
      adapter.writeInstance (fun c => c.writeWith (writeBinding (write reg fuel) bindings) (typed linked)) target v
    | placeholder id ty => do
      match (← get).store.delegates.find? id with
      | some c => write reg fuel c v
      | none => throw (.violation (.unsetDelegate ty))
    | custom _ c => token (c.write v)

/-- The text of a whole document with one value. -/
def toJson (reg : Registry) (fuel : Nat) (c : Converter) (v : Option Value) : EStateM Error Store String :=
  fun store =>
    match c.write reg fuel v ⟨.empty, store⟩ with
    | .ok _ w =>
      match w.writer.finish with
      | .ok text => .ok text w.store
      | .error e => .error e w.store
    | .error e w => .error e w.store

end Converter

end Marshal
