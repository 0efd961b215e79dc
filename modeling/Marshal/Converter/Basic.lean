import Marshal.Adapter.Basic
import Marshal.Stream.Reader
import Marshal.Stream.Writer
import Marshal.Value.Text

/-!
# Converters

A converter is built from natives, codecs over bound converters, and adapters.  A placeholder stands for a converter
that was still under construction when it was asked for; what it stands for is looked up when it is used, so
converters of recursive types are finite trees.  Every converter carries the number it was built under, which tells
instances apart.
-/

namespace Marshal

/-- A converter of the caller's own. -/
structure Custom where
  write : Option Value → TokenM Unit
  read : ReadM (Option Value)

inductive Converter where
  | native (id : Nat) (kind : NativeKind)
  /-- Any value by its own shape.  A linked converter writes typed values with the registry's converters. -/
  | dynamic (id : Nat) (linked : Bool)
  /-- One codec over bound converters, without a registry. -/
  | codec (id : Nat) (codec : Codec) (bindings : List Converter)
  | enum (id : Nat) (adapter : EnumAdapter)
  /-- An adapter for one instance of its target. -/
  | struct (id : Nat) (adapter : StructAdapter) (target : TypeRef) (bindings : List Converter) (linked : Bool)
  | placeholder (id : Nat) (ty : TypeRef)
  | custom (id : Nat) (converter : Custom)

namespace Converter

instance : Inhabited Converter := ⟨native 0 .bool⟩

def id : Converter → Nat
  | native id _ | dynamic id _ | codec id _ _ | enum id _ | struct id _ _ _ _ | placeholder id _ | custom id _ => id

end Converter

/-- What the placeholders that are bound stand for. -/
abbrev Delegates := List (Nat × Converter)

namespace Delegates

/-- The converter that a placeholder stands for. -/
def find? (ds : Delegates) (id : Nat) : Option Converter := ds.lookup id

/-- Binds a placeholder, which is done only once. -/
def bind (ds : Delegates) (id : Nat) (ty : TypeRef) (c : Converter) : Except Error Delegates :=
  match ds.find? id with
  | some _ => .error (.violation (.doubleBind ty))
  | none => .ok ((id, c) :: ds)

end Delegates

/-! ### Enumerations -/

namespace EnumAdapter

/-- The constant with a name on the wire; of entries with one name the last counts. -/
def constant? (a : EnumAdapter) (serializedName : String) : Option String :=
  (a.entries.reverse.find? (·.serializedName == serializedName)).map (·.constant)

/-- The name of a constant on the wire; of entries for one constant the last counts. -/
def serializedName? (a : EnumAdapter) (constant : String) : Option String :=
  (a.entries.reverse.find? (·.constant == constant)).map (·.serializedName)

end EnumAdapter

end Marshal
