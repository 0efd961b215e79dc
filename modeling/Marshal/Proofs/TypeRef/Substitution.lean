import Marshal.Known.Shape
import Marshal.Plan.Token

/-!
# Substitution

Substitution leaves concrete types alone and goes into the parts of a container.  A token denotes the type that it was
made of, with the arguments in place of the parameters.
-/

namespace Marshal

namespace TypeRef

variable {params : List String} {args : List TypeRef}

mutual

theorem substitute_of_isConcrete : ∀ t : TypeRef, t.isConcrete = true → t.substitute params args = t
  | .named path inner, h => by
    rw [substitute, substituteList_of_areConcrete inner h]
  | .array element, h => by
    rw [substitute, substitute_of_isConcrete element h]
  | .var name, h => by cases h

private theorem substituteList_of_areConcrete :
    ∀ ts : List TypeRef, areConcrete ts = true → substituteList params args ts = ts
  | [], _ => rfl
  | t :: ts, h => by
    rw [areConcrete, Bool.and_eq_true] at h
    rw [substituteList, substitute_of_isConcrete t h.1, substituteList_of_areConcrete ts h.2]

end

theorem substituteList_eq_map (ts : List TypeRef) :
    substituteList params args ts = ts.map (·.substitute params args) := by
  induction ts with
  | nil => rfl
  | cons t ts ih => rw [substituteList, ih, List.map_cons]

private theorem substitute_argOrAny (ts : List TypeRef) (i : Nat) :
    (argOrAny ts i).substitute params args = argOrAny (substituteList params args ts) i := by
  rw [argOrAny, argOrAny, substituteList_eq_map, List.getD_eq_getElem?_getD, List.getD_eq_getElem?_getD,
    List.getElem?_map]
  cases ts[i]? <;> rfl

private theorem native?_eq_some {t : TypeRef} {kind : NativeKind} (h : t.native? = some kind) :
    ∃ path, t = .named path [] ∧ NativeKind.ofPath? path = some kind := by
  unfold native? at h
  split at h
  · next path => exact ⟨path, rfl, h⟩
  · cases h

theorem native?_substitute {t : TypeRef} {kind : NativeKind} (h : t.native? = some kind) :
    (t.substitute params args).native? = some kind := by
  obtain ⟨path, rfl, hpath⟩ := native?_eq_some h
  exact hpath

theorem isAny_substitute {t : TypeRef} (h : t.isAny = true) : (t.substitute params args).isAny = true := by
  cases t with
  | named path inner => exact h
  | array element => cases h
  | var name => cases h

/-! ### Shapes -/

theorem shape_eq_list {t element : TypeRef} {i : Instantiator} (h : t.shape = .list element i) :
    (t = .array element ∧ i = .array) ∨ ∃ path inner, t = .named path inner ∧ t.native? = none ∧
      Instantiator.ofPath? path = some i ∧ i.isMap = false ∧ element = argOrAny inner 0 := by
  unfold shape at h
  cases hn : t.native? with
  | some kind => simp [hn] at h
  | none =>
    simp only [hn] at h
    cases t with
    | array e =>
      simp only [Shape.list.injEq] at h
      obtain ⟨rfl, rfl⟩ := h
      exact .inl ⟨rfl, rfl⟩
    | var name => cases h
    | named path inner =>
      cases hi : Instantiator.ofPath? path with
      | none => simp [hi] at h
      | some i' =>
        simp only [hi] at h
        by_cases hmap : i'.isMap = true
        · simp [hmap] at h
        · simp only [hmap, Bool.false_eq_true, if_false, Shape.list.injEq] at h
          obtain ⟨rfl, rfl⟩ := h
          exact .inr ⟨path, inner, rfl, rfl, hi, by simpa using hmap, rfl⟩

theorem shape_eq_map {t key value : TypeRef} {i : Instantiator} (h : t.shape = .map key value i) :
    ∃ path inner, t = .named path inner ∧ t.native? = none ∧ Instantiator.ofPath? path = some i ∧ i.isMap = true ∧
      key = argOrAny inner 0 ∧ value = argOrAny inner 1 := by
  unfold shape at h
  cases hn : t.native? with
  | some kind => simp [hn] at h
  | none =>
    simp only [hn] at h
    cases t with
    | array e => cases h
    | var name => cases h
    | named path inner =>
      cases hi : Instantiator.ofPath? path with
      | none => simp [hi] at h
      | some i' =>
        simp only [hi] at h
        by_cases hmap : i'.isMap = true
        · simp only [hmap, if_true, Shape.map.injEq] at h
          obtain ⟨rfl, rfl, rfl⟩ := h
          exact ⟨path, inner, rfl, rfl, hi, hmap, rfl, rfl⟩
        · simp [hmap] at h

theorem shape_of_native? {t : TypeRef} {kind : NativeKind} (h : t.native? = some kind) : t.shape = .native kind := by
  unfold shape
  rw [h]

/-- Whether a named type is native does not depend on what its arguments are. -/
private theorem native?_named_substitute {path : String} {inner : List TypeRef}
    (h : native? (.named path inner) = none) : native? (.named path (substituteList params args inner)) = none := by
  cases inner with
  | nil => exact h
  | cons t ts => rfl

theorem shape_substitute_list {t element : TypeRef} {i : Instantiator} (h : t.shape = .list element i) :
    (t.substitute params args).shape = .list (element.substitute params args) i := by
  rcases shape_eq_list h with ⟨rfl, rfl⟩ | ⟨path, inner, rfl, hn, hi, hmap, rfl⟩
  · rfl
  · rw [substitute, shape, native?_named_substitute hn, substitute_argOrAny]
    simp [hi, hmap]

theorem shape_substitute_map {t key value : TypeRef} {i : Instantiator} (h : t.shape = .map key value i) :
    (t.substitute params args).shape = .map (key.substitute params args) (value.substitute params args) i := by
  obtain ⟨path, inner, rfl, hn, hi, hmap, rfl, rfl⟩ := shape_eq_map h
  rw [substitute, shape, native?_named_substitute hn, substitute_argOrAny, substitute_argOrAny]
  simp [hi, hmap]

/-! ### Missing arguments -/

/-- A type that is used without arguments has the dynamic type for each of them. -/
private theorem argOrAny_replicate (n i : Nat) : argOrAny (List.replicate n any) i = argOrAny [] i := by
  rw [argOrAny, argOrAny, List.getD_eq_getElem?_getD, List.getElem?_replicate]
  split <;> rfl

mutual

theorem substitute_replicate (n : Nat) :
    ∀ t : TypeRef, t.substitute params (List.replicate n any) = t.substitute params []
  | .named path inner => by rw [substitute, substitute, substituteList_replicate n inner]
  | .array element => by rw [substitute, substitute, substitute_replicate n element]
  | .var name => by
    rw [substitute, substitute]
    cases paramIndex? params name with
    | none => rfl
    | some i => exact argOrAny_replicate n i

private theorem substituteList_replicate (n : Nat) : ∀ ts : List TypeRef,
    substituteList params (List.replicate n any) ts = substituteList params [] ts
  | [] => rfl
  | t :: ts => by rw [substituteList, substituteList, substitute_replicate n t, substituteList_replicate n ts]

end

/-! ### Keys of maps -/

theorem native?_filter_substitute {t : TypeRef} {kind : NativeKind} (h : t.native?.filter (·.isKey) = some kind) :
    (t.substitute params args).native?.filter (·.isKey) = some kind := by
  obtain ⟨hnative, hkey⟩ := Option.filter_eq_some_iff.1 h
  exact Option.filter_eq_some_iff.2 ⟨native?_substitute hnative, hkey⟩

/-- Unwrapping containers leads from a type to another one. -/
inductive Unwraps : TypeRef → TypeRef → Prop
  | refl (t : TypeRef) : Unwraps t t
  | element {t element u : TypeRef} {i : Instantiator} (h : t.shape = .list element i) (hu : Unwraps element u) :
      Unwraps t u
  | key {t key value u : TypeRef} {i : Instantiator} (h : t.shape = .map key value i) (hu : Unwraps key u) :
      Unwraps t u
  | value {t key value u : TypeRef} {i : Instantiator} (h : t.shape = .map key value i) (hu : Unwraps value u) :
      Unwraps t u

/-- No map in the type has a variable for its key that the arguments turn into a native type whose values have
texts. -/
def KeepsKeys (params : List String) (args : List TypeRef) (t : TypeRef) : Prop :=
  ∀ u x value i, t.Unwraps u → u.shape = .map (.var x) value i →
    ((var x).substitute params args).native?.filter (·.isKey) = none

namespace KeepsKeys

variable {t u v : TypeRef} {i : Instantiator}

theorem element (h : t.KeepsKeys params args) (ht : t.shape = .list u i) : u.KeepsKeys params args :=
  fun u x v i hu => h u x v i (.element ht hu)

theorem key (h : t.KeepsKeys params args) (ht : t.shape = .map u v i) : u.KeepsKeys params args :=
  fun u x v i hu => h u x v i (.key ht hu)

theorem value (h : t.KeepsKeys params args) (ht : t.shape = .map u v i) : v.KeepsKeys params args :=
  fun u x v i hu => h u x v i (.value ht hu)

/-- The keys of a map that is planned as pairs have no texts for the arguments either. -/
theorem native?_substitute_key (h : t.KeepsKeys params args) (ht : t.shape = .map u v i)
    (hu : u.native?.filter (·.isKey) = none) : (u.substitute params args).native?.filter (·.isKey) = none := by
  cases u with
  | var x => exact h t x v i (.refl t) ht
  | array element => rfl
  | named path inner =>
    cases inner with
    | nil => exact hu
    | cons t ts => rfl

end KeepsKeys

end TypeRef

/-! ### Tokens -/

namespace TypeToken

variable {params : List String} {args : List TypeRef}

mutual

/-- A token denotes its type for the given arguments. -/
theorem resolve_of_ofType : ∀ (t : TypeRef) (token : TypeToken), ofType params t = .ok token →
    token.resolve args = t.substitute params args
  | .var name, token, h => by
    rw [ofType] at h
    cases hi : TypeRef.paramIndex? params name with
    | none => simp [hi] at h
    | some i =>
      simp only [hi, Except.ok.injEq] at h
      subst h
      simp only [resolve, TypeRef.substitute, hi]
  | .array element, token, h => by
    rw [ofType] at h
    by_cases hc : element.isConcrete = true
    · rw [if_pos hc, Except.ok.injEq] at h
      subst h
      rw [resolve, TypeRef.substitute_of_isConcrete (.array element) hc]
    · rw [if_neg hc] at h
      cases ht : ofType params element with
      | error e => simp [ht, Except.map] at h
      | ok inner =>
        simp only [ht, Except.map, Except.ok.injEq] at h
        subst h
        rw [resolve, TypeRef.substitute, resolve_of_ofType element inner ht]
  | .named path inner, token, h => by
    rw [ofType] at h
    by_cases hc : TypeRef.areConcrete inner = true
    · rw [if_pos hc, Except.ok.injEq] at h
      subst h
      rw [resolve, TypeRef.substitute_of_isConcrete (.named path inner) hc]
    · rw [if_neg hc] at h
      cases ht : ofTypes params inner with
      | error e => simp [ht, Except.map] at h
      | ok tokens =>
        simp only [ht, Except.map, Except.ok.injEq] at h
        subst h
        rw [resolve, TypeRef.substitute, resolveList_of_ofTypes inner tokens ht]

private theorem resolveList_of_ofTypes :
    ∀ (ts : List TypeRef) (tokens : List TypeToken), ofTypes params ts = .ok tokens →
    resolveList args tokens = TypeRef.substituteList params args ts
  | [], tokens, h => by
    rw [ofTypes, Except.ok.injEq] at h
    subst h
    rfl
  | t :: ts, tokens, h => by
    rw [ofTypes] at h
    cases ht : ofType params t with
    | error e => simp [ht, bind, Except.bind] at h
    | ok token =>
      cases hts : ofTypes params ts with
      | error e => simp [ht, hts, bind, Except.bind] at h
      | ok rest =>
        simp only [ht, hts, bind, Except.bind, Except.ok.injEq] at h
        subst h
        rw [resolveList, TypeRef.substituteList, resolve_of_ofType t token ht, resolveList_of_ofTypes ts rest hts]

end

end TypeToken

end Marshal
