import Marshal.Model.Error
import Marshal.Model.Field

/-!
# Declarations

A scanned type: its path, its generic parameters and what it is.  `Declaration.ofParts` is the way to build one: it
refuses a repeated parameter and makes every bare name of a parameter in a field's type a variable.
-/

namespace Marshal

inductive DeclarationKind where
  /-- Named fields, in declaration order. -/
  | structure (fields : List Field)
  /-- Constants without fields, in declaration order. -/
  | enumeration (constants : List Constant)
  /-- A base type without fields of its own. -/
  | abstract
deriving Repr, DecidableEq, Inhabited

structure Declaration where
  path : String
  params : List String
  kind : DeclarationKind
  params_nodup : params.Nodup
deriving Repr, DecidableEq

namespace Declaration

/-- The first parameter that occurred before. -/
def repeated? (seen : List String) : List String → Option String
  | [] => none
  | p :: ps => if seen.contains p then some p else repeated? (seen ++ [p]) ps

private theorem nodup_append_of_repeated?_eq_none (ps : List String) :
    ∀ seen : List String, seen.Nodup → repeated? seen ps = none → (seen ++ ps).Nodup := by
  induction ps with
  | nil => simpa using fun _ hs _ => hs
  | cons p ps ih =>
    intro seen hs h
    unfold repeated? at h
    split at h
    · simp at h
    · next hp =>
      have hp : p ∉ seen := by simpa using hp
      have hsp : (seen ++ [p]).Nodup := List.nodup_append.2 ⟨hs, by simp, by
        intro a ha b hb
        simp only [List.mem_singleton] at hb
        subst hb
        exact fun e => hp (e ▸ ha)⟩
      simpa using ih (seen ++ [p]) hsp h

theorem nodup_of_repeated?_eq_none {ps : List String} (h : repeated? [] ps = none) : ps.Nodup := by
  simpa using nodup_append_of_repeated?_eq_none ps [] List.nodup_nil h

/-- Makes the parameters in the types of the fields variables. -/
def bindKind (params : List String) : DeclarationKind → DeclarationKind
  | .structure fields => .structure (fields.map fun f => { f with ty := f.ty.bindParams params })
  | kind => kind

def ofParts (path : String) (params : List String) (kind : DeclarationKind) : Except ModelError Declaration :=
  match h : repeated? [] params with
  | some param => .error (.duplicateParam path param)
  | none => .ok ⟨path, params, bindKind params kind, nodup_of_repeated?_eq_none h⟩

/-- A declaration without parameters. -/
def plain (path : String) (kind : DeclarationKind) : Declaration :=
  ⟨path, [], bindKind [] kind, List.nodup_nil⟩

def isGeneric (d : Declaration) : Bool := !d.params.isEmpty

def isAbstract (d : Declaration) : Bool :=
  match d.kind with
  | .abstract => true
  | _ => false

/-- The fields of a structure; other declarations have none. -/
def fields (d : Declaration) : List Field :=
  match d.kind with
  | .structure fields => fields
  | _ => []

/-- The constants of an enumeration; other declarations have none. -/
def constants (d : Declaration) : List Constant :=
  match d.kind with
  | .enumeration constants => constants
  | _ => []

/-- The declared type applied to its own parameters. -/
def selfType (d : Declaration) : TypeRef := .named d.path (d.params.map .var)

end Declaration

end Marshal
