import Marshal.Known.Native

/-!
# Shapes

How a declared type is encoded: as a native value, as a list, as a map, or in a way that only a generated, registered
or discovered converter knows.  A container type also says which collection is built when it is read.
-/

namespace Marshal

/-- The collection built when a container is read. -/
inductive Instantiator where
  | array
  | vec
  | vecDeque
  | linkedList
  | hashMap
  | bTreeMap
  | indexMap
deriving Repr, DecidableEq, Inhabited

namespace Instantiator

def all : List Instantiator := [array, vec, vecDeque, linkedList, hashMap, bTreeMap, indexMap]

def label : Instantiator → String
  | array => "Array"
  | vec => "Vec"
  | vecDeque => "VecDeque"
  | linkedList => "LinkedList"
  | hashMap => "HashMap"
  | bTreeMap => "BTreeMap"
  | indexMap => "IndexMap"

def ofLabel? (s : String) : Option Instantiator := all.find? (·.label == s)

def isMap : Instantiator → Bool
  | hashMap | bTreeMap | indexMap => true
  | _ => false

/-- The collection for a container path.  An abstract container has a default: a list becomes a vector, and a map
keeps insertion order. -/
def ofPath? : String → Option Instantiator
  | "Vec" | "List" | "Collection" => some vec
  | "VecDeque" => some vecDeque
  | "LinkedList" => some linkedList
  | "HashMap" => some hashMap
  | "BTreeMap" => some bTreeMap
  | "IndexMap" | "Map" => some indexMap
  | _ => none

end Instantiator

/-- The collection for a container type, whatever its arguments. -/
def TypeRef.container? : TypeRef → Option Instantiator
  | .array _ => some .array
  | .named path _ => Instantiator.ofPath? path
  | .var _ => none

inductive Shape where
  | native (kind : NativeKind)
  | list (element : TypeRef) (instantiator : Instantiator)
  | map (key value : TypeRef) (instantiator : Instantiator)
  | other
deriving Repr, DecidableEq

/-- The shape of a type.  A container's missing arguments are the dynamic type. -/
def TypeRef.shape (t : TypeRef) : Shape :=
  match t.native? with
  | some kind => .native kind
  | none =>
    match t with
    | .array element => .list element .array
    | .named path args =>
      match Instantiator.ofPath? path with
      | none => .other
      | some i => if i.isMap then .map (TypeRef.argOrAny args 0) (TypeRef.argOrAny args 1) i
        else .list (TypeRef.argOrAny args 0) i
    | .var _ => .other

end Marshal
