import Marshal.Known.Native
import Marshal.Net.Address
import Marshal.Number.Binary64
import Marshal.Value.Path

/-!
# Values

The values that converters read and write.  A value that is absent is no value at all; `null` occurs only inside lists
and maps.  Numbers of unbounded size are kept as they are written, the entries of a map in the order in which they
were met, and the fields of an object in the order in which they were first set.
-/

namespace Marshal

inductive Value where
  | null
  | bool (b : Bool)
  | int (n : Int64)
  | float (x : Binary64)
  | char (c : Char)
  | str (s : String)
  | bigInt (lexeme : String)
  | decimal (lexeme : String)
  | number (lexeme : String)
  | path (p : Path)
  | ip (a : Address)
  | list (items : List Value)
  | map (entries : List (Value × Value))
  /-- An instance of a structure: its type, and its fields by their names in memory. -/
  | object (ty : TypeRef) (fields : List (String × Value))
  | enum (ty : TypeRef) (constant : String)
deriving Repr, Inhabited

namespace Value

/-- The name of the kind of a value, for messages. -/
def kindName : Value → String
  | null => "null"
  | bool _ => "bool"
  | int _ => "int"
  | float _ => "float"
  | char _ => "char"
  | str _ => "string"
  | bigInt _ => "big int"
  | decimal _ => "decimal"
  | number _ => "number"
  | path _ => "path"
  | ip _ => "ip address"
  | list _ => "list"
  | map _ => "map"
  | object .. => "object"
  | enum .. => "enum"

/-- The type whose converter writes the value as it is.  Lists and maps have the dynamic type: they are written by
their own shape. -/
def runtimeType : Value → TypeRef
  | bool _ => NativeKind.bool.typeRef
  | int _ => NativeKind.i64.typeRef
  | float _ => NativeKind.f64.typeRef
  | char _ => NativeKind.char.typeRef
  | str _ => NativeKind.string.typeRef
  | bigInt _ => NativeKind.bigInt.typeRef
  | decimal _ => NativeKind.bigDecimal.typeRef
  | number _ => NativeKind.number.typeRef
  | path _ => NativeKind.path.typeRef
  | ip _ => NativeKind.ipAddr.typeRef
  | object ty _ => ty
  | enum ty _ => ty
  | null | list _ | map _ => .any

def isNull : Value → Bool
  | null => true
  | _ => false

/-- The value unless it is null. -/
def nonNull? : Value → Option Value
  | null => none
  | v => some v

/-- The element of a container that stands for a value that may be absent. -/
def orNull : Option Value → Value
  | some v => v
  | none => null

/-- A value that is neither absent nor null. -/
def present? (v : Option Value) : Option Value := v.bind nonNull?

end Value

/-! ### Fields of an object -/

/-- The fields of an object by name, in the order in which they were first set. -/
abbrev Fields := List (String × Value)

namespace Fields

/-- The value of a field; null counts as absent. -/
def get? (fs : Fields) (name : String) : Option Value := (fs.lookup name).bind Value.nonNull?

/-- Sets a field, in place if it was set before. -/
def set (fs : Fields) (name : String) (v : Value) : Fields :=
  match fs with
  | [] => [(name, v)]
  | (n, w) :: fs => if n = name then (n, v) :: fs else (n, w) :: set fs name v

/-- Makes a field absent. -/
def remove (fs : Fields) (name : String) : Fields := fs.eraseP (·.1 == name)

end Fields

end Marshal
