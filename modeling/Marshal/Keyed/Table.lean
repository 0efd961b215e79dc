/-!
# Tables

A table holds one value for each of its keys, in the order in which the keys were entered.  A key that is entered
again keeps its value.
-/

namespace Marshal

abbrev Table (κ α : Type) := List (κ × α)

namespace Table

variable {κ α : Type} [BEq κ]

def get? (t : Table κ α) (k : κ) : Option α := t.lookup k

/-- Enters a value for a key that has none. -/
def enter (t : Table κ α) (k : κ) (v : α) : Table κ α :=
  match t.get? k with
  | some _ => t
  | none => t ++ [(k, v)]

/-- Changes the value of a key. -/
def adjust (t : Table κ α) (k : κ) (f : α → α) : Table κ α :=
  t.map fun (k', v) => if k' == k then (k', f v) else (k', v)

end Table

end Marshal
