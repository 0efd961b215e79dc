import Marshal.Proofs.Outcome
import Marshal.Proofs.TypeRef.Substitution

/-!
# Tokens and substitution

A type has a token exactly if all its variables are parameters, and the token then denotes what substitution makes of
the type; otherwise the first variable that is no parameter is reported (`ofType_denotes`).  A token is built by
recursion on the type, with a shortcut at concrete parts, which have no variables to report.
-/

namespace Marshal

namespace TypeRef

variable {params : List String} {args : List TypeRef}

/-! ### Variables -/

mutual

private theorem isConcrete_iff : ∀ t : TypeRef, t.isConcrete = true ↔ t.vars = []
  | .named _ inner => by rw [isConcrete, vars, areConcrete_iff inner]
  | .array element => by rw [isConcrete, vars, isConcrete_iff element]
  | .var name => by simp [isConcrete, vars]

private theorem areConcrete_iff : ∀ ts : List TypeRef, areConcrete ts = true ↔ varsList ts = []
  | [] => by simp [areConcrete, varsList]
  | t :: ts => by
    rw [areConcrete, varsList, Bool.and_eq_true, List.append_eq_nil_iff, isConcrete_iff t, areConcrete_iff ts]

end

private theorem isConcrete_argOrAny (hargs : ∀ a ∈ args, a.isConcrete = true) (i : Nat) :
    (argOrAny args i).isConcrete = true := by
  rw [argOrAny, List.getD_eq_getElem?_getD]
  cases ha : args[i]? with
  | none => rfl
  | some a => exact hargs a (List.mem_of_getElem? ha)

mutual

/-- Concrete arguments for all the variables of a type make it concrete. -/
private theorem isConcrete_substitute (hargs : ∀ a ∈ args, a.isConcrete = true) :
    ∀ t : TypeRef, (∀ name ∈ t.vars, name ∈ params) → (t.substitute params args).isConcrete = true
  | .named _ inner, h => areConcrete_substituteList hargs inner h
  | .array element, h => isConcrete_substitute hargs element h
  | .var name, h => by
    rw [substitute]
    cases hi : paramIndex? params name with
    | none => exact absurd (h name (List.mem_singleton_self name)) (List.idxOf?_eq_none_iff.1 hi)
    | some i => exact isConcrete_argOrAny hargs i

private theorem areConcrete_substituteList (hargs : ∀ a ∈ args, a.isConcrete = true) : ∀ ts : List TypeRef,
    (∀ name ∈ varsList ts, name ∈ params) → areConcrete (substituteList params args ts) = true
  | [], _ => rfl
  | t :: ts, h => by
    rw [substituteList, areConcrete, Bool.and_eq_true]
    exact ⟨isConcrete_substitute hargs t fun name hname => h name (List.mem_append_left _ hname),
      areConcrete_substituteList hargs ts fun name hname => h name (List.mem_append_right _ hname)⟩

end

end TypeRef

namespace TypeToken

open Outcome

variable {params : List String}

/-! ### Faults -/

mutual

/-- The fault of a type is its first variable that is no parameter. -/
private theorem fault?_ofType :
    ∀ t : TypeRef, fault? (ofType params t) = t.vars.find? fun name => !params.contains name
  | .var name => by
    rw [ofType, TypeRef.vars]
    by_cases hname : name ∈ params
    · cases hi : TypeRef.paramIndex? params name with
      | none => exact absurd hname (List.idxOf?_eq_none_iff.1 hi)
      | some i => simp [fault?, hname]
    · have hi : TypeRef.paramIndex? params name = none := List.idxOf?_eq_none_iff.2 hname
      simp [fault?, hi, hname]
  | .array element => by
    rw [ofType, TypeRef.vars]
    by_cases hc : element.isConcrete = true
    · rw [if_pos hc, (TypeRef.isConcrete_iff element).1 hc]
      rfl
    · rw [if_neg hc, fault?_map, fault?_ofType element]
  | .named path inner => by
    rw [ofType, TypeRef.vars]
    by_cases hc : TypeRef.areConcrete inner = true
    · rw [if_pos hc, (TypeRef.areConcrete_iff inner).1 hc]
      rfl
    · rw [if_neg hc, fault?_map, fault?_ofTypes inner]

private theorem fault?_ofTypes : ∀ ts : List TypeRef,
    fault? (ofTypes params ts) = (TypeRef.varsList ts).find? fun name => !params.contains name
  | [] => rfl
  | t :: ts => by
    rw [ofTypes, TypeRef.varsList, List.find?_append, ← fault?_ofType t, ← fault?_ofTypes ts]
    cases ofType params t with
    | error name => rfl
    | ok token => cases ofTypes params ts <;> rfl

end

/-! ### Meaning -/

/-- Whether a type has a token, what the token denotes, and which variable is reported if there is none. -/
theorem ofType_denotes (params : List String) (t : TypeRef) :
    ((∃ token, ofType params t = .ok token) ↔ ∀ name ∈ t.vars, name ∈ params) ∧
    (∀ token, ofType params t = .ok token → ∀ args, token.resolve args = t.substitute params args ∧
      ((∀ a ∈ args, a.isConcrete = true) → (token.resolve args).isConcrete = true)) ∧
    (∀ name, ofType params t = .error name ↔ t.vars.find? (fun name => !params.contains name) = some name) := by
  have hfault : fault? (ofType params t) = t.vars.find? fun name => !params.contains name := fault?_ofType t
  have hok : (∃ token, ofType params t = .ok token) ↔ ∀ name ∈ t.vars, name ∈ params := by
    rw [← fault?_eq_none, hfault]
    simp
  refine ⟨hok, fun token htoken args => ?_, fun name => by rw [← fault?_eq_some, hfault]⟩
  have hresolve : token.resolve args = t.substitute params args := resolve_of_ofType t token htoken
  refine ⟨hresolve, fun hargs => ?_⟩
  rw [hresolve]
  exact TypeRef.isConcrete_substitute hargs t (hok.1 ⟨token, htoken⟩)

/-- The type `demo::Pair<String, [V]>`. -/
private def pairType : TypeRef := .named "demo::Pair" [.named "String" [], .array (.var "V")]

/-- Of the parameters `K` and `V` only the first one has an argument. -/
theorem ofType_denotes_pair :
    let token := parameterized "demo::Pair" [.class (.named "String" []), .array (.param 1)]
    let args := [TypeRef.named "i32" []]
    ofType ["K", "V"] pairType = .ok token ∧ (∀ a ∈ args, a.isConcrete = true) ∧
      token.resolve args = pairType.substitute ["K", "V"] args ∧ (token.resolve args).isConcrete = true := by
  intro token args
  have htoken : ofType ["K", "V"] pairType = .ok token := rfl
  have hargs : ∀ a ∈ args, a.isConcrete = true := List.forall_mem_singleton.2 rfl
  obtain ⟨-, hdenotes, -⟩ := ofType_denotes ["K", "V"] pairType
  obtain ⟨hresolve, hconcrete⟩ := hdenotes token htoken args
  exact ⟨htoken, hargs, hresolve, hconcrete hargs⟩

end TypeToken

end Marshal
