import Marshal.Proofs.Stream.Calls

/-!
# Skipping

What skipping does to a reader.  A loop goes on until the next token closes something (`whileNext_succ_ok`).  A value
that is skipped takes at least one character, leaves as many containers open as there were, and leaves no token begun
(`skipWith_consumes`).  The fuel of a skip does not matter as long as it covers the nesting that is still allowed
(`skipWith_of_depth`).
-/

namespace Marshal.Reader

open Effect

/-! ### Skipping one value -/

/-- What is skipped once the kind of the next token is known. -/
def skipKind (fuel : Nat) : TokenKind → ReadM Unit
  | .beginObject => do
    beginObject
    whileNext ((← get).cursor.rest.length + 1) do
      let _ ← nextName
      skipWith fuel
    endObject
  | .beginArray => do
    beginArray
    whileNext ((← get).cursor.rest.length + 1) (skipWith fuel)
    endArray
  | .string | .number => do let _ ← nextString
  | .boolean => do let _ ← nextBool
  | .null => nextNull
  | .name => do let _ ← nextName
  | found => unexpected "a value" found

theorem skipWith_succ (fuel : Nat) : skipWith (fuel + 1) = peek >>= skipKind fuel := by
  rw [skipWith]
  rfl

theorem skipWith_of_peek (fuel : Nat) {k : TokenKind} {r r₁ : Reader} (h : peek r = .ok k r₁) :
    skipWith (fuel + 1) r = skipKind fuel k r₁ := by
  rw [skipWith_succ, bind_of_ok h]

/-! ### Loops -/

section Loops

variable {k : TokenKind} {r r₁ r' : Reader}

/-- The tokens that a loop stops at. -/
def Ends (k : TokenKind) : Prop := k = .endObject ∨ k = .endArray ∨ k = .endDocument

theorem whileNext_of_ends (n : Nat) (step : ReadM Unit) (h : peek r = .ok k r₁) (hk : Ends k) :
    whileNext (n + 1) step r = .ok ⟨⟩ r₁ := by
  rw [whileNext, bind_of_ok (hasNext_of_peek h)]
  rcases hk with rfl | rfl | rfl <;> rfl

theorem whileNext_of_not_ends (n : Nat) (step : ReadM Unit) (h : peek r = .ok k r₁) (hk : ¬Ends k) :
    whileNext (n + 1) step r = (do step; whileNext n step) r₁ := by
  rw [whileNext, bind_of_ok (hasNext_of_peek h)]
  cases k <;> first
    | rfl
    | simp [Ends] at hk

/-- One step of a loop. -/
theorem whileNext_succ_ok {n : Nat} {step : ReadM Unit} (h : whileNext (n + 1) step r = .ok ⟨⟩ r') :
    ∃ k r₁, peek r = .ok k r₁ ∧
      ((Ends k ∧ r' = r₁) ∨ (¬Ends k ∧ ∃ r₂, step r₁ = .ok ⟨⟩ r₂ ∧ whileNext n step r₂ = .ok ⟨⟩ r')) := by
  obtain ⟨b, r₁, hnext, -⟩ := bind_eq_ok.1 h
  obtain ⟨k, hpeek, -⟩ := hasNext_ok hnext
  by_cases hk : Ends k
  · rw [whileNext_of_ends n step hpeek hk] at h
    obtain ⟨-, rfl⟩ := ok_inj.1 h
    exact ⟨k, r₁, hpeek, .inl ⟨hk, rfl⟩⟩
  · rw [whileNext_of_not_ends n step hpeek hk] at h
    obtain ⟨_, r₂, hstep, h⟩ := bind_eq_ok.1 h
    exact ⟨k, r₁, hpeek, .inr ⟨hk, r₂, hstep, h⟩⟩

end Loops

/-- A loop keeps what each of its steps keeps, and stops at a closing bracket. -/
private theorem whileNext_ok {step : ReadM Unit} {d : Nat} (hd : 0 < d)
    (hstep : ∀ r r', r.depth = d → step r = .ok ⟨⟩ r' → Consumes r r') :
    ∀ (fuel : Nat) (r r' : Reader), r.depth = d → r.peeked = none → whileNext fuel step r = .ok ⟨⟩ r' →
      r'.depth = d ∧ r'.left ≤ r.left ∧ 0 < r'.left := by
  intro fuel
  induction fuel with
  | zero =>
    intro r r' _ _ h
    cases h
  | succ fuel ih =>
    intro r r' hr hnone h
    obtain ⟨k, r₁, hpeek, ⟨-, rfl⟩ | ⟨-, r₂, hs, h⟩⟩ := whileNext_succ_ok h
    · obtain ⟨-, hdepth, hleft, hpos⟩ := peek_ok hpeek
      exact ⟨by omega, hleft, hpos hnone (by omega)⟩
    · obtain ⟨-, hdepth, hleft, -⟩ := peek_ok hpeek
      obtain ⟨hd₂, hl₂, hp₂⟩ := hstep r₁ r₂ (by omega) hs
      obtain ⟨hd', hl', hpos'⟩ := ih r₂ r' (by omega) hp₂ h
      exact ⟨hd', by omega, hpos'⟩

/-! ### What a skip takes -/

private theorem consumes_of_container {kind last : TokenKind} {r r₁ r₂ r' : Reader} (hopen : Opens kind r r₁)
    (hloop : r₂.depth = r₁.depth ∧ r₂.left ≤ r₁.left ∧ 0 < r₂.left) (hclose : Closes last r₂ r') : Consumes r r' := by
  obtain ⟨hd, hl, hpos⟩ := hloop
  have hd₁ := hopen.depth_eq
  have hl₁ := hopen.left_le
  have hd' := hclose.depth_eq
  have hl' := hclose.left_le
  exact ⟨by omega, by omega, hclose.peeked_eq⟩

/-- A token sequence that is skipped takes characters, and leaves the open containers as they were. -/
theorem skipWith_consumes : ∀ (fuel : Nat) (r r' : Reader), skipWith fuel r = .ok ⟨⟩ r' → Consumes r r' := by
  intro fuel
  induction fuel with
  | zero =>
    intro r r' h
    cases h
  | succ fuel ih =>
    intro r r' h
    obtain ⟨k, r₀, hpeek, -⟩ := bind_eq_ok.1 h
    obtain ⟨-, hdepth, hleft, -⟩ := peek_ok hpeek
    rw [skipWith_of_peek fuel hpeek] at h
    suffices hc : Consumes r₀ r' from
      ⟨hc.depth_eq.trans hdepth, Nat.lt_of_lt_of_le hc.left_lt hleft, hc.peeked_eq⟩
    cases k
    case beginObject =>
      obtain ⟨_, r₁, hopen, h⟩ := bind_eq_ok.1 h
      rw [bind_of_ok (get_apply r₁)] at h
      obtain ⟨_, r₂, hloop, hclose⟩ := bind_eq_ok.1 h
      have hopen := beginObject_ok hopen
      have hr₁ := hopen.depth_eq
      refine consumes_of_container hopen ?_ (endObject_ok hclose)
      refine whileNext_ok (by omega) ?_ _ _ _ rfl hopen.peeked_eq hloop
      intro s s' _ hs
      obtain ⟨name, s₁, hname, hs⟩ := bind_eq_ok.1 hs
      have hc := nextName_ok hname
      have hc' := ih _ _ hs
      exact ⟨hc'.depth_eq.trans hc.depth_eq, Nat.lt_trans hc'.left_lt hc.left_lt, hc'.peeked_eq⟩
    case beginArray =>
      obtain ⟨_, r₁, hopen, h⟩ := bind_eq_ok.1 h
      rw [bind_of_ok (get_apply r₁)] at h
      obtain ⟨_, r₂, hloop, hclose⟩ := bind_eq_ok.1 h
      have hopen := beginArray_ok hopen
      have hr₁ := hopen.depth_eq
      refine consumes_of_container hopen ?_ (endArray_ok hclose)
      exact whileNext_ok (by omega) (fun s s' _ hs => ih s s' hs) _ _ _ rfl hopen.peeked_eq hloop
    case string | number =>
      obtain ⟨s, r₁, hs, h⟩ := bind_eq_ok.1 h
      obtain ⟨-, rfl⟩ := ok_inj.1 h
      exact (nextString_ok hs).1
    case boolean =>
      obtain ⟨b, r₁, hb, h⟩ := bind_eq_ok.1 h
      obtain ⟨-, rfl⟩ := ok_inj.1 h
      exact (nextBool_ok hb).1
    case null => exact (nextNull_ok h).1
    case name =>
      obtain ⟨s, r₁, hs, h⟩ := bind_eq_ok.1 h
      obtain ⟨-, rfl⟩ := ok_inj.1 h
      exact nextName_ok hs
    all_goals cases h

/-! ### Fuel -/

/-- Loops whose steps have the same successful runs, at the depth of the loop, have the same successful runs. -/
private theorem whileNext_congr {step step' : ReadM Unit} {d : Nat}
    (hstep : ∀ r r', r.depth = d → step r = .ok ⟨⟩ r' → step' r = .ok ⟨⟩ r' ∧ r'.depth = d) :
    ∀ (fuel : Nat) (r r' : Reader), r.depth = d → whileNext fuel step r = .ok ⟨⟩ r' →
      whileNext fuel step' r = .ok ⟨⟩ r' := by
  intro fuel
  induction fuel with
  | zero =>
    intro r r' _ h
    cases h
  | succ fuel ih =>
    intro r r' hr h
    obtain ⟨k, r₁, hpeek, ⟨hk, rfl⟩ | ⟨hk, r₂, hs, h⟩⟩ := whileNext_succ_ok h
    · exact whileNext_of_ends fuel step' hpeek hk
    · obtain ⟨-, hdepth, -, -⟩ := peek_ok hpeek
      obtain ⟨hs', hd₂⟩ := hstep r₁ r₂ (by omega) hs
      rw [whileNext_of_not_ends fuel step' hpeek hk, bind_of_ok hs']
      exact ih r₂ r' hd₂ h

/-- Fuel for the nesting that is still allowed is enough: every successful skip succeeds with it. -/
theorem skipWith_of_depth : ∀ (fuel : Nat) (r r' : Reader), skipWith fuel r = .ok ⟨⟩ r' →
    ∀ fuel', 0 < fuel' → maxDepth + 2 ≤ r.depth + fuel' → skipWith fuel' r = .ok ⟨⟩ r' := by
  intro fuel
  induction fuel with
  | zero =>
    intro r r' h
    cases h
  | succ fuel ih =>
    intro r r' h fuel' hpos hfuel
    obtain ⟨fuel', rfl⟩ := Nat.exists_eq_succ_of_ne_zero (Nat.pos_iff_ne_zero.1 hpos)
    obtain ⟨k, r₀, hpeek, -⟩ := bind_eq_ok.1 h
    obtain ⟨-, hdepth, -, -⟩ := peek_ok hpeek
    rw [skipWith_of_peek fuel hpeek] at h
    rw [skipWith_of_peek fuel' hpeek]
    cases k
    case beginObject =>
      obtain ⟨_, r₁, hopen, h⟩ := bind_eq_ok.1 h
      rw [bind_of_ok (get_apply r₁)] at h
      obtain ⟨_, r₂, hloop, hclose⟩ := bind_eq_ok.1 h
      have hlt := (beginObject_ok hopen).depth_lt
      have hr₁ := (beginObject_ok hopen).depth_eq
      rw [skipKind, bind_of_ok hopen, bind_of_ok (get_apply r₁)]
      refine (bind_of_ok (a := ⟨⟩) ?_).trans hclose
      refine whileNext_congr ?_ _ _ _ rfl hloop
      intro s s' hs hstep
      obtain ⟨name, s₁, hname, hstep⟩ := bind_eq_ok.1 hstep
      have hs₁ := (nextName_ok hname).depth_eq
      have hs' := (skipWith_consumes _ _ _ hstep).depth_eq
      refine ⟨(bind_of_ok hname).trans ?_, by omega⟩
      exact ih _ _ hstep fuel' (by unfold maxDepth at *; omega) (by omega)
    case beginArray =>
      obtain ⟨_, r₁, hopen, h⟩ := bind_eq_ok.1 h
      rw [bind_of_ok (get_apply r₁)] at h
      obtain ⟨_, r₂, hloop, hclose⟩ := bind_eq_ok.1 h
      have hlt := (beginArray_ok hopen).depth_lt
      have hr₁ := (beginArray_ok hopen).depth_eq
      rw [skipKind, bind_of_ok hopen, bind_of_ok (get_apply r₁)]
      refine (bind_of_ok (a := ⟨⟩) ?_).trans hclose
      refine whileNext_congr ?_ _ _ _ rfl hloop
      intro s s' hs hstep
      have hs' := (skipWith_consumes _ _ _ hstep).depth_eq
      exact ⟨ih _ _ hstep fuel' (by unfold maxDepth at *; omega) (by omega), by omega⟩
    all_goals exact h

theorem skipValue_consumes {r r' : Reader} (h : skipValue r = .ok ⟨⟩ r') : Consumes r r' :=
  skipWith_consumes _ _ _ h

/-- A value that can be skipped at all is skipped by `skipValue`, and the other way round inside a container. -/
theorem skipWith_of_skipValue {r r' : Reader} (hr : 0 < r.depth) (h : skipValue r = .ok ⟨⟩ r') :
    skipWith (maxDepth + 1) r = .ok ⟨⟩ r' :=
  skipWith_of_depth _ _ _ h _ (by simp) (by omega)

end Marshal.Reader
