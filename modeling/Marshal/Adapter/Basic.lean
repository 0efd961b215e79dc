import Marshal.Model.Access
import Marshal.Plan.Codec

/-!
# Adapters

The description of the converters generated for one model: for a structure the bindings it is constructed with and the
procedures that write and read it, for an enumeration its table of names, and for the module the table that finds the
adapter of a type.
-/

namespace Marshal

/-! ### Structures -/

/-- A field as it is written. -/
structure FieldWrite where
  name : String
  serializedName : String
  access : FieldAccess
  codec : Codec
  /-- Absence fails the write instead of leaving the entry out. -/
  nonNull : Bool
deriving Repr, DecidableEq, Inhabited

inductive WriteOp where
  | beginObject
  /-- Closes the object and stops if the instance is absent. -/
  | endIfAbsent
  | field (field : FieldWrite)
  | endObject
deriving Repr, DecidableEq, Inhabited

/-- A field as it is recognized in an object. -/
structure FieldRead where
  name : String
  serializedName : String
  access : FieldAccess
  /-- The tokens accepted for the value, all if none is listed; a value of another kind is skipped. -/
  accepts : List TokenKind
  codec : Codec
deriving Repr, DecidableEq, Inhabited

structure ReadProcedure where
  fields : List FieldRead
  /-- The names of the fields that must be present once the object is closed. -/
  nonNull : List String
deriving Repr, DecidableEq, Inhabited

def ReadProcedure.field? (p : ReadProcedure) (serializedName : String) : Option FieldRead :=
  p.fields.find? (·.serializedName == serializedName)

/-- What constructing a converter takes. -/
structure Requirements where
  /-- One converter for each parameter. -/
  typeParams : List String
  needsRegistry : Bool
  needsDiscovery : Bool
deriving Repr, DecidableEq, Inhabited

structure StructAdapter where
  /-- The declared type applied to its own parameters. -/
  target : TypeRef
  requirements : Requirements
  bindings : List Binding
  write : List WriteOp
  read : ReadProcedure
deriving Repr, DecidableEq, Inhabited

/-! ### Enumerations -/

structure EnumEntry where
  constant : String
  serializedName : String
deriving Repr, DecidableEq, Inhabited

structure EnumAdapter where
  target : TypeRef
  entries : List EnumEntry
deriving Repr, DecidableEq, Inhabited

/-! ### Modules -/

inductive Adapter where
  | struct (adapter : StructAdapter)
  | enum (adapter : EnumAdapter)
deriving Repr, DecidableEq, Inhabited

def Adapter.target : Adapter → TypeRef
  | .struct a => a.target
  | .enum a => a.target

/-- The adapter that handles the types of a path. -/
structure DispatchEntry where
  path : String
  /-- The number of parameters. -/
  arity : Nat
  /-- The position of the adapter in the module. -/
  adapter : Nat
deriving Repr, DecidableEq, Inhabited

structure AdapterModule where
  name : String
  adapters : List Adapter
  dispatch : List DispatchEntry
  /-- The concrete types that the adapters take from the registry and the module does not declare. -/
  required : List TypeRef
deriving Repr, DecidableEq, Inhabited

def AdapterModule.adapter? (m : AdapterModule) (path : String) : Option Adapter :=
  match m.dispatch.find? (·.path == path) with
  | some entry => m.adapters[entry.adapter]?
  | none => none

end Marshal
