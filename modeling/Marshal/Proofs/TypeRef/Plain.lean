import Marshal.Proofs.TypeRef.Text

/-!
# Reading back a plain text

A plain text does not tell variables from names: it is the marked text of the reference whose variables were made
names (`plain_eq_marked_unbind`).  So it is read as that reference, and binding turns names back into variables.  What
was printed comes back exactly if each of its variables is a parameter and none of its bare names is one.
-/

namespace Marshal.TypeRef

mutual

/-- Each variable made a name. -/
def unbind : TypeRef → TypeRef
  | named path args => named path (unbindList args)
  | array element => array element.unbind
  | var name => named name []

def unbindList : List TypeRef → List TypeRef
  | [] => []
  | t :: ts => t.unbind :: unbindList ts

end

mutual

/-- The paths of the named types without arguments. -/
def bareNames : TypeRef → List String
  | named path [] => [path]
  | named _ (t :: ts) => t.bareNames ++ bareNamesList ts
  | array element => element.bareNames
  | var _ => []

def bareNamesList : List TypeRef → List String
  | [] => []
  | t :: ts => t.bareNames ++ bareNamesList ts

end

/-- The parameters in scope tell variables from bare names. -/
structure Scoped (params vars bareNames : List String) : Prop where
  vars : ∀ x ∈ vars, x ∈ params
  bare : ∀ p ∈ bareNames, p ∉ params

private theorem scoped_append {params xs ys ps qs : List String} :
    Scoped params (xs ++ ys) (ps ++ qs) ↔ Scoped params xs ps ∧ Scoped params ys qs := by
  constructor
  · rintro ⟨hvars, hbare⟩
    rw [List.forall_mem_append] at hvars hbare
    exact ⟨⟨hvars.1, hbare.1⟩, ⟨hvars.2, hbare.2⟩⟩
  · rintro ⟨h, h'⟩
    exact ⟨List.forall_mem_append.2 ⟨h.vars, h'.vars⟩, List.forall_mem_append.2 ⟨h.bare, h'.bare⟩⟩

/-! ### Printing -/

mutual

theorem plain_eq_marked_unbind : ∀ t : TypeRef, t.plain = t.unbind.marked
  | .named path [] => rfl
  | .named path (t :: ts) => by
    have ht : t.text false = t.unbind.text true := plain_eq_marked_unbind t
    rw [plain, text, ht, textTail_unbindList ts]
    rfl
  | .array element => by
    have helement : element.text false = element.unbind.text true := plain_eq_marked_unbind element
    rw [plain, text, helement]
    rfl
  | .var x => rfl

private theorem textTail_unbindList : ∀ ts : List TypeRef, textTail false ts = textTail true (unbindList ts)
  | [] => rfl
  | t :: ts => by
    have ht : t.text false = t.unbind.text true := plain_eq_marked_unbind t
    rw [textTail, ht, textTail_unbindList ts]
    rfl

end

mutual

private theorem wellFormed_unbind : ∀ t : TypeRef, t.WellFormed → t.unbind.WellFormed
  | .named _ args, h => named_iff.2 ⟨(named_iff.1 h).1, wellFormed_unbindList args (named_iff.1 h).2⟩
  | .array element, h => named_array.2 (wellFormed_unbind element (named_array.1 h))
  | .var _, h => named_iff.2 ⟨.ident (named_var.1 h), List.forall_mem_nil _⟩

private theorem wellFormed_unbindList :
    ∀ ts : List TypeRef, (∀ t ∈ ts, t.WellFormed) → ∀ t ∈ unbindList ts, t.WellFormed
  | [], _ => List.forall_mem_nil _
  | t :: ts, h => List.forall_mem_cons.2 ⟨wellFormed_unbind t (List.forall_mem_cons.1 h).1,
      wellFormed_unbindList ts (List.forall_mem_cons.1 h).2⟩

end

/-! ### Binding -/

section

variable {params : List String}

mutual

/-- Binding brings the variables back, and turns nothing else into a variable, exactly if the parameters tell them. -/
private theorem bindParams_unbind : ∀ t : TypeRef, t.unbind.bindParams params = t ↔ Scoped params t.vars t.bareNames
  | .named path [] => by
    rw [unbind, unbindList, bindParams]
    constructor
    · intro h
      split at h
      · cases h
      · next hpath => exact ⟨List.forall_mem_nil _, by simpa [bareNames] using hpath⟩
    · intro h
      have hpath : path ∉ params := h.bare path (by simp [bareNames])
      rw [if_neg (by simpa using hpath)]
  | .named path (t :: ts) => by
    rw [unbind, unbindList, bindParams, vars, varsList, bareNames, scoped_append, ← bindParams_unbind t,
      ← bindParamsList_unbind ts]
    simp
  | .array element => by
    rw [unbind, bindParams, vars, bareNames, ← bindParams_unbind element]
    simp
  | .var x => by
    rw [unbind, bindParams]
    constructor
    · intro h
      split at h
      · next hx => exact ⟨by simpa [vars] using hx, List.forall_mem_nil _⟩
      · cases h
    · intro h
      have hx : x ∈ params := h.vars x (by simp [vars])
      rw [if_pos (by simpa using hx)]

private theorem bindParamsList_unbind : ∀ ts : List TypeRef,
    bindParamsList params (unbindList ts) = ts ↔ Scoped params (varsList ts) (bareNamesList ts)
  | [] => iff_of_true rfl ⟨List.forall_mem_nil _, List.forall_mem_nil _⟩
  | t :: ts => by
    rw [unbindList, bindParamsList, varsList, bareNamesList, scoped_append, ← bindParams_unbind t,
      ← bindParamsList_unbind ts]
    simp

end

end

/-! ### The two texts -/

/-- The marked text of a well formed reference reads back.  Its plain text reads back, where parameters are in scope,
exactly if each variable is one of them and no bare name is. -/
theorem parse_texts {t : TypeRef} (h : t.WellFormed) : parse t.marked = .ok t ∧ ∀ params,
    parseIn params t.plain = .ok t ↔ (∀ x ∈ t.vars, x ∈ params) ∧ ∀ p ∈ t.bareNames, p ∉ params := by
  refine ⟨parse_marked h, fun params => ?_⟩
  have hplain : parseIn params t.plain = .ok (t.unbind.bindParams params) := by
    rw [parseIn, plain_eq_marked_unbind, parse_marked (wellFormed_unbind t h)]
    rfl
  rw [hplain, Except.ok.injEq, bindParams_unbind]
  exact ⟨fun h => ⟨h.vars, h.bare⟩, fun h => ⟨h.1, h.2⟩⟩

/-- A map from a parameter to lists of another one: the order of the parameters is of no account, but a parameter that
is named like a bare name takes its place. -/
theorem parse_texts_map :
    let t := named "demo::Map" [var "K", array (named "Vec" [var "V"]), named "i32" []]
    t.WellFormed ∧ t.marked = "demo::Map<$K, [Vec<$V>], i32>" ∧ parse t.marked = .ok t ∧
      t.plain = "demo::Map<K, [Vec<V>], i32>" ∧ parseIn ["V", "K"] t.plain = .ok t ∧
      parseIn ["V", "K", "i32"] t.plain ≠ .ok t ∧ parseIn ["K"] t.plain ≠ .ok t := by
  intro t
  have hpath : IsPath ("demo".toList ++ ':' :: ':' :: "Map".toList) := .join (by decide) (.ident (by decide))
  have hi32 : (named "i32" []).WellFormed := named_iff.2 ⟨.ident (by decide), List.forall_mem_nil _⟩
  have hvec : (named "Vec" [var "V"]).WellFormed :=
    named_iff.2 ⟨.ident (by decide), List.forall_mem_singleton.2 (named_var.2 (by decide))⟩
  have h : t.WellFormed := named_iff.2 ⟨hpath, List.forall_mem_cons.2 ⟨named_var.2 (by decide),
    List.forall_mem_cons.2 ⟨named_array.2 hvec, List.forall_mem_singleton.2 hi32⟩⟩⟩
  obtain ⟨hmarked, hplain⟩ := parse_texts h
  exact ⟨h, by decide +kernel, hmarked, by decide +kernel, (hplain _).2 (by decide +kernel),
    fun he => absurd ((hplain _).1 he) (by decide +kernel), fun he => absurd ((hplain _).1 he) (by decide +kernel)⟩

end Marshal.TypeRef
