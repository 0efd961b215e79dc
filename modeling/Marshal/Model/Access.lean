import Marshal.Known.Native
import Marshal.Model.Field

/-!
# Field access

How generated code reads and assigns a field.  The expressions are carried through unchanged; in them the slot `{obj}`
stands for the instance and the slot `{value}` for the assigned value.
-/

namespace Marshal

structure FieldAccess where
  read : String
  write : String
deriving Repr, DecidableEq, Inhabited

/-- A strategy gives the access expressions of every field. -/
abbrev Accessor := Field → FieldAccess

namespace Accessor

def objectSlot : String := "\x7bobj\x7d"

def valueSlot : String := "\x7bvalue\x7d"

/-- Reads and assigns the field itself. -/
def direct : Accessor := fun f => {
  read := objectSlot ++ "." ++ f.name
  write := objectSlot ++ "." ++ f.name ++ " = " ++ valueSlot }

/-- Takes every leading `r#`, which marks a name as raw, off a name. -/
def dropRawMarks : List Char → List Char
  | 'r' :: '#' :: s => dropRawMarks s
  | s => s

/-- Goes through getters and setters; the getter of a truth value asks a question. -/
def methods : Accessor := fun f =>
  let name := String.ofList (dropRawMarks f.name.toList)
  let getter := if f.ty.native? == some .bool then "is_" ++ name else "get_" ++ name
  { read := objectSlot ++ "." ++ getter ++ "()"
    write := objectSlot ++ ".set_" ++ name ++ "(" ++ valueSlot ++ ")" }

end Accessor

/-- The strategies that options can name. -/
inductive AccessStrategy where
  | direct
  | methods
deriving Repr, DecidableEq, Inhabited

def AccessStrategy.accessor : AccessStrategy → Accessor
  | .direct => Accessor.direct
  | .methods => Accessor.methods

end Marshal
