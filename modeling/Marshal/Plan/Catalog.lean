import Marshal.Model.Basic
import Marshal.TypeRef.Text

/-!
# Catalogs

The getters through which the adapters of one module reach converters outside of it.  Every type has one getter, made
from the words of its text, and different types have different getters.  The types that no declaration of the model
covers are required from elsewhere.
-/

namespace Marshal

structure Catalog where
  /-- The bound types with their getters, in the order in which they were first bound. -/
  getters : List (TypeRef × String)
deriving Repr, DecidableEq, Inhabited

namespace Catalog

def empty : Catalog := ⟨[]⟩

/-- Whether a type's path is one that the model declares. -/
def isScanned (m : Model) (t : TypeRef) : Bool :=
  match t.path? with
  | some path => m.contains path
  | none => false

def getter? (c : Catalog) (t : TypeRef) : Option String := (c.getters.find? (·.1 == t)).map (·.2)

/-- Whether a type has, or will have, a converter. -/
def willHave (m : Model) (c : Catalog) (t : TypeRef) : Bool := (c.getter? t).isSome || isScanned m t

/-- The maximal runs of ASCII letters and digits. -/
def words : List Char → List (List Char)
  | [] => []
  | c :: s =>
    if c.isAlphanum then
      match s with
      | d :: _ => if d.isAlphanum then
          match words s with
          | w :: ws => (c :: w) :: ws
          | [] => [[c]]
        else [c] :: words s
      | [] => [[c]]
    else words s

/-- The getter of a type unless another type has taken it: the words of the type's text, in lower case. -/
def baseName (t : TypeRef) : String :=
  let parts := (words t.plain.toList).map fun w => String.ofList (w.map Char.toLower) ++ "_"
  "get_" ++ String.join parts ++ "adapter"

/-- The first of `base`, `base2`, `base3`, … that is not taken.  One more candidate than there are names taken is
enough. -/
def freshName (taken : List String) (base : String) : String :=
  let candidates := base :: (List.range taken.length).map fun i => base ++ toString (i + 2)
  (candidates.find? fun name => !taken.contains name).getD base

/-- The getter of a type, which is added if the type has none. -/
def bind (c : Catalog) (t : TypeRef) : String × Catalog :=
  match c.getter? t with
  | some name => (name, c)
  | none =>
    let name := freshName (c.getters.map (·.2)) (baseName t)
    (name, ⟨c.getters ++ [(t, name)]⟩)

/-- The bound types that the model does not declare, in the order in which they were first bound. -/
def required (m : Model) (c : Catalog) : List TypeRef :=
  (c.getters.map (·.1)).filter fun t => !isScanned m t

end Catalog

end Marshal
