import Marshal.Model.Declaration

/-!
# Models

A model holds all declarations that were scanned, in scan order and with distinct paths, and the paths of the abstract
types for which an adapter of a concrete subtype exists elsewhere.
-/

namespace Marshal

/-- Inserts a text into an ascending list that does not hold it yet; a text it holds changes nothing. -/
def insertText (x : String) : List String → List String
  | [] => [x]
  | y :: ys => if x < y then x :: y :: ys else if x = y then y :: ys else y :: insertText x ys

structure Model where
  types : List Declaration
  /-- In ascending order, each path once. -/
  subtypeAdapters : List String
  paths_nodup : (types.map (·.path)).Nodup
deriving Repr, DecidableEq

namespace Model

def empty : Model := ⟨[], [], List.nodup_nil⟩

instance : Inhabited Model := ⟨empty⟩

def paths (m : Model) : List String := m.types.map (·.path)

def size (m : Model) : Nat := m.types.length

def isEmpty (m : Model) : Bool := m.types.isEmpty

def get? (m : Model) (path : String) : Option Declaration := m.types.find? (·.path == path)

def contains (m : Model) (path : String) : Bool := m.paths.contains path

theorem nodup_append_singleton {l : List String} {x : String} (h : l.Nodup) (hx : x ∉ l) : (l ++ [x]).Nodup :=
  List.nodup_append.2 ⟨h, by simp, by
    intro a ha b hb
    simp only [List.mem_singleton] at hb
    subst hb
    exact fun e => hx (e ▸ ha)⟩

/-- Adds a declaration at the end; a path is scanned only once. -/
def insert (m : Model) (d : Declaration) : Except ModelError Model :=
  if h : d.path ∈ m.types.map (·.path) then .error (.duplicateType d.path)
  else .ok { m with
    types := m.types ++ [d]
    paths_nodup := by simpa using nodup_append_singleton m.paths_nodup h }

/-- Notes that an adapter of a concrete subtype of `path` exists elsewhere. -/
def markSubtypeAdapter (m : Model) (path : String) : Model :=
  { m with subtypeAdapters := insertText path m.subtypeAdapters }

def hasSubtypeAdapter (m : Model) (path : String) : Bool := m.subtypeAdapters.contains path

/-- The model of declarations in the order given. -/
def ofScan (types : List Declaration) (subtypeAdapters : List String) : Except ModelError Model := do
  let m ← types.foldlM insert empty
  .ok (subtypeAdapters.foldl markSubtypeAdapter m)

end Model

end Marshal
