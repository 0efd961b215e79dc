import Marshal.Text.Blank
import Marshal.TypeRef.Basic

/-!
# Fields

A serialized field of a structure, with its flags and the converter that may be attached to it.  Flags have a text
form: the names of the set flags joined by a bar, and a hexadecimal number for bits without a name.
-/

namespace Marshal

/-! ### Flags -/

/-- The flags of a field.  Bits without a name are kept. -/
structure FieldFlags where
  bits : UInt8
deriving Repr, DecidableEq, Inhabited

namespace FieldFlags

def none : FieldFlags := ⟨0⟩

/-- Absence is an error, when the field is written and after its object was read. -/
def nonNull : FieldFlags := ⟨1⟩

/-- The field is written with the converter of its value's runtime type. -/
def writeRuntimeType : FieldFlags := ⟨2⟩

def union (a b : FieldFlags) : FieldFlags := ⟨a.bits ||| b.bits⟩

def contains (a b : FieldFlags) : Bool := a.bits &&& b.bits == b.bits

def named : List (String × FieldFlags) :=
  [("NON_NULL", nonNull), ("WRITE_RUNTIME_TYPE", writeRuntimeType)]

def ofName? (name : String) : Option FieldFlags := (named.find? (·.1 == name)).map (·.2)

/-- The value of a hexadecimal digit of either case. -/
def hexDigit? (c : Char) : Option Nat :=
  if c.isDigit then some (c.toNat - '0'.toNat)
  else if 'a' ≤ c ∧ c ≤ 'f' then some (c.toNat - 'a'.toNat + 10)
  else if 'A' ≤ c ∧ c ≤ 'F' then some (c.toNat - 'A'.toNat + 10)
  else Option.none

/-- The value of one or more hexadecimal digits. -/
def hexValue? : List Char → Option Nat
  | [] => Option.none
  | s => s.foldlM (fun n c => (hexDigit? c).map (16 * n + ·)) 0

/-- Bits written as a hexadecimal number that fits a byte; a plus sign may stand before it. -/
def ofHex? (s : List Char) : Option FieldFlags := do
  let digits := match s with
    | '+' :: s => s
    | s => s
  let n ← hexValue? digits
  if n < 256 then some ⟨UInt8.ofNat n⟩ else Option.none

/-- One part of a flag text: a name, or bits in hexadecimal. -/
def ofPart? (s : List Char) : Option FieldFlags :=
  match s with
  | '0' :: 'x' :: s => ofHex? s
  | s => ofName? (String.ofList s)

/-- The parts of a text between bars. -/
def splitBars : List Char → List (List Char)
  | [] => [[]]
  | c :: s =>
    if c = '|' then [] :: splitBars s
    else match splitBars s with
      | [] => [[c]]
      | part :: parts => (c :: part) :: parts

/-- The flags a text names; a blank text names none. -/
def ofText? (text : String) : Option FieldFlags :=
  let s := text.toList
  if (Text.trim s).isEmpty then some none
  else (splitBars s).foldlM (fun flags part => (ofPart? (Text.trim part)).map flags.union) none

/-- The hexadecimal digits of a byte, without leading zeros. -/
def hexText (n : UInt8) : String := String.ofList (Nat.toDigits 16 n.toNat)

/-- The text of flags: the names of those set, then the bits without a name. -/
def text (flags : FieldFlags) : String :=
  let names := (named.filter fun p => flags.contains p.2).map (·.1)
  let rest := flags.bits &&& 0xfc
  " | ".intercalate (if rest = 0 then names else names ++ ["0x" ++ hexText rest])

end FieldFlags

/-! ### Attached converters -/

/-- The directions in which an attached converter replaces the planned one. -/
inductive ConverterUse where
  | both
  | write
  | read
deriving Repr, DecidableEq, Inhabited

/-- A converter attached to a field by the name it is registered under.  A null-safe one never sees nulls: they are
handled as for any other field. -/
structure FieldConverter where
  path : String
  nullSafe : Bool
  usage : ConverterUse
deriving Repr, DecidableEq, Inhabited

/-! ### Fields and constants -/

structure Field where
  name : String
  /-- The name on the wire, if it is not the field's own. -/
  rename : Option String
  ty : TypeRef
  flags : FieldFlags
  converter : Option FieldConverter
deriving Repr, DecidableEq, Inhabited

namespace Field

def serializedName (f : Field) : String := f.rename.getD f.name

def isNonNull (f : Field) : Bool := f.flags.contains .nonNull

def writesRuntimeType (f : Field) : Bool := f.flags.contains .writeRuntimeType

end Field

/-- A constant of an enumeration. -/
structure Constant where
  name : String
  /-- The name on the wire, if it is not the constant's own. -/
  rename : Option String
deriving Repr, DecidableEq, Inhabited

def Constant.serializedName (c : Constant) : String := c.rename.getD c.name

end Marshal
