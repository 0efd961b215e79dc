import Marshal.Model.Basic
import Marshal.Proofs.Outcome
import Marshal.Proofs.TypeRef.Text

/-!
# Scanning again

What `Declaration.ofParts` and `Model.ofScan` make, and that each makes the same again of the parts of what it made.
-/

namespace Marshal

/-! ### Ascending lists -/

/-- Ascending, without repetitions. -/
def Ascending (l : List String) : Prop := l.Pairwise (· < ·)

private theorem mem_insertText {x y : String} {l : List String} : y ∈ insertText x l ↔ y = x ∨ y ∈ l := by
  induction l with
  | nil => simp [insertText]
  | cons z l ih =>
    unfold insertText
    split
    · simp
    · split
      · next h => simp [h]
      · simp only [List.mem_cons, ih]
        exact or_left_comm

private theorem ascending_insertText (x : String) {l : List String} (h : Ascending l) :
    Ascending (insertText x l) := by
  induction l with
  | nil => exact List.pairwise_singleton _ x
  | cons y l ih =>
    obtain ⟨hy, hl⟩ := List.pairwise_cons.1 h
    unfold insertText
    split
    · next hxy =>
      refine List.pairwise_cons.2 ⟨fun z hz => ?_, h⟩
      obtain rfl | hz := List.mem_cons.1 hz
      · exact hxy
      · exact String.lt_trans hxy (hy z hz)
    · next hxy =>
      split
      · exact h
      · next hne =>
        have hyx : y < x := Decidable.byContradiction fun hyx =>
          hne (String.le_antisymm (String.not_lt.1 hyx) (String.not_lt.1 hxy))
        refine List.pairwise_cons.2 ⟨fun z hz => ?_, ih hl⟩
        obtain rfl | hz := mem_insertText.1 hz
        · exact hyx
        · exact hy z hz

/-- A text behind all others is inserted at the end. -/
private theorem insertText_of_last {x : String} {l : List String} (h : ∀ y ∈ l, y < x) :
    insertText x l = l ++ [x] := by
  induction l with
  | nil => rfl
  | cons y l ih =>
    have hyx : y < x := h y (by simp)
    rw [insertText, if_neg (String.lt_asymm hyx), if_neg fun e : x = y => String.lt_irrefl y (e ▸ hyx),
      ih fun z hz => h z (List.mem_cons_of_mem _ hz), List.cons_append]

private theorem foldl_insertText (xs : List String) : ∀ l : List String, Ascending (l ++ xs) →
    xs.foldl (fun l x => insertText x l) l = l ++ xs := by
  induction xs with
  | nil => simp
  | cons x xs ih =>
    intro l h
    have hlast : ∀ y ∈ l, y < x := fun y hy => (List.pairwise_append.1 h).2.2 y hy x (by simp)
    have hstep : l ++ [x] ++ xs = l ++ x :: xs := by simp
    rw [List.foldl_cons, insertText_of_last hlast, ih _ (hstep ▸ h), hstep]

/-! ### Declarations -/

namespace Declaration

private theorem repeated?_eq_none (ps : List String) :
    ∀ seen : List String, (seen ++ ps).Nodup → repeated? seen ps = none := by
  induction ps with
  | nil => exact fun _ _ => rfl
  | cons p ps ih =>
    intro seen h
    have hp : p ∉ seen := fun hmem => (List.nodup_append.1 h).2.2 p hmem p (by simp) rfl
    rw [repeated?, if_neg (by simpa using hp)]
    exact ih _ (by simpa using h)

theorem bindKind_idem (params : List String) (kind : DeclarationKind) :
    bindKind params (bindKind params kind) = bindKind params kind := by
  cases kind with
  | «structure» fields => simp [bindKind, TypeRef.bindParams_idem]
  | enumeration constants => rfl
  | «abstract» => rfl

theorem ofParts_ok {path : String} {params : List String} {kind : DeclarationKind} {d : Declaration}
    (h : ofParts path params kind = .ok d) : d.path = path ∧ d.params = params ∧ d.kind = bindKind params kind := by
  unfold ofParts at h
  split at h
  · cases h
  · obtain rfl := Except.ok.inj h
    exact ⟨rfl, rfl, rfl⟩

/-- A declaration in which the parameters are variables already is what its parts make. -/
theorem ofParts_self {d : Declaration} (h : bindKind d.params d.kind = d.kind) :
    ofParts d.path d.params d.kind = .ok d := by
  have hnone : repeated? [] d.params = none := repeated?_eq_none d.params [] d.params_nodup
  unfold ofParts
  split
  · next hsome => rw [hnone] at hsome; cases hsome
  · cases d
    simp only [h]

end Declaration

/-! ### Models -/

namespace Model

private theorem types_markAll (xs : List String) (m : Model) : (xs.foldl markSubtypeAdapter m).types = m.types := by
  induction xs generalizing m with
  | nil => rfl
  | cons x xs ih => rw [List.foldl_cons, ih]; rfl

private theorem subtypeAdapters_markAll (xs : List String) (m : Model) :
    (xs.foldl markSubtypeAdapter m).subtypeAdapters = xs.foldl (fun l x => insertText x l) m.subtypeAdapters := by
  induction xs generalizing m with
  | nil => rfl
  | cons x xs ih => rw [List.foldl_cons, ih, List.foldl_cons]; rfl

private theorem ext {m m' : Model} (ht : m.types = m'.types) (hs : m.subtypeAdapters = m'.subtypeAdapters) :
    m = m' := by
  cases m
  cases m'
  cases ht
  cases hs
  rfl

private theorem insertAll_ok {ds : List Declaration} {m m' : Model} (h : ds.foldlM insert m = .ok m') :
    m'.types = m.types ++ ds ∧ m'.subtypeAdapters = m.subtypeAdapters := by
  induction ds generalizing m with
  | nil =>
    obtain rfl := Except.ok.inj h
    simp
  | cons d ds ih =>
    obtain ⟨m₁, hm₁, h⟩ := Outcome.bind_eq_ok.1 h
    unfold insert at hm₁
    split at hm₁
    · cases hm₁
    · obtain rfl := Except.ok.inj hm₁
      simpa using ih h

private theorem exists_insertAll {ds : List Declaration} {m : Model} (h : ((m.types ++ ds).map (·.path)).Nodup) :
    ∃ m', ds.foldlM insert m = .ok m' := by
  induction ds generalizing m with
  | nil => exact ⟨m, rfl⟩
  | cons d ds ih =>
    have hd : d.path ∉ m.types.map (·.path) := by
      rw [List.map_append, List.nodup_append] at h
      exact fun hmem => h.2.2 _ hmem d.path (by simp) rfl
    obtain ⟨m', hm'⟩ :=
      ih (m := ⟨m.types ++ [d], m.subtypeAdapters, by simpa using nodup_append_singleton m.paths_nodup hd⟩)
        (by simpa using h)
    exact ⟨m', Outcome.bind_eq_ok.2 ⟨_, dif_neg hd, hm'⟩⟩

/-- What a scan makes: the declarations in the order given, and ascending marks. -/
theorem ofScan_ok {ds : List Declaration} {xs : List String} {m : Model} (h : ofScan ds xs = .ok m) :
    m.types = ds ∧ Ascending m.subtypeAdapters := by
  obtain ⟨m₁, hm₁, h⟩ := Outcome.bind_eq_ok.1 h
  obtain rfl := Except.ok.inj h
  obtain ⟨htypes, hmarks⟩ := insertAll_ok hm₁
  refine ⟨by rw [types_markAll, htypes]; rfl, ?_⟩
  rw [subtypeAdapters_markAll, hmarks]
  have hall : ∀ (xs l : List String), Ascending l → Ascending (xs.foldl (fun l x => insertText x l) l) := by
    intro xs
    induction xs with
    | nil => exact fun _ hl => hl
    | cons x xs ih => exact fun l hl => ih _ (ascending_insertText x hl)
  exact hall xs [] .nil

/-- A model with ascending marks is what a scan makes of its own parts. -/
theorem ofScan_self {m : Model} (h : Ascending m.subtypeAdapters) : ofScan m.types m.subtypeAdapters = .ok m := by
  obtain ⟨m₁, hm₁⟩ := exists_insertAll (m := empty) (by simpa [empty] using m.paths_nodup)
  obtain ⟨htypes, hmarks⟩ := insertAll_ok hm₁
  refine Outcome.bind_eq_ok.2 ⟨m₁, hm₁, congrArg Except.ok (ext ?_ ?_)⟩
  · rw [types_markAll, htypes]
    rfl
  · rw [subtypeAdapters_markAll, hmarks]
    exact foldl_insertText m.subtypeAdapters [] h

end Model

end Marshal
