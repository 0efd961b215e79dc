import Marshal.Proofs.Stream.Acceptance

/-!
# Values that nest too deep

A value with more containers in each other than are allowed where it stands is not skipped (`skipValue_too_deep`).
The induction is on how the value is spelled: what stands in front of the part that is too deep is skipped first.
-/

namespace Marshal.Reader

open Effect
open Document (Part)

variable {d : Dialect}

/-- Where a piece of a document nests too deep, it is not skipped, with any fuel. -/
private def TooDeep : Part → List Char → Prop
  | .value j, s =>
    ∀ (fuel : Nat) (r : Reader) (o : Nat) (started : Bool) (scopes : List ReadScope) (tail : List Char),
    peek r = .ok j.kind ⟨⟨s ++ tail, o⟩, started, scopes, some j.kind⟩ → Follows tail → scopes.length ≤ maxDepth →
      maxDepth < scopes.length + j.depth → ∃ e r', skipWith fuel r = .error e r'
  | .items first js, s => ∀ (fuel n o : Nat) (started : Bool) (outer : List ReadScope) (tail : List Char),
    outer.length < maxDepth → maxDepth < outer.length + 1 + Document.itemsDepth js →
      ∃ e r', whileNext n (skipWith fuel) ⟨⟨s ++ tail, o⟩, started, itemScope first :: outer, none⟩ = .error e r'
  | .entries first es, s => ∀ (fuel n o : Nat) (started : Bool) (outer : List ReadScope) (tail : List Char),
    outer.length < maxDepth → maxDepth < outer.length + 1 + Document.entriesDepth es →
      ∃ e r', whileNext n (do let _ ← nextName; skipWith fuel)
        ⟨⟨s ++ tail, o⟩, started, entryScope first :: outer, none⟩ = .error e r'

/-- No container is opened inside as many others as are allowed. -/
private theorem expect_enter_fails {kind : TokenKind} {r r' : Reader} (scope : ReadScope)
    (hpeek : peek r = .ok kind r') (hr' : maxDepth ≤ r'.scopes.length) :
    ∃ e r₁, (do expect kind; enter scope) r = .error e r₁ := by
  rw [bind_of_ok (expect_of_peek hpeek)]
  unfold enter
  rw [bind_of_ok (get_apply _)]
  exact ⟨_, _, (congrFun (if_neg (by simp only; omega)) _).trans rfl⟩

/-- A value that is skipped, with whatever fuel, does not nest too deep, and the reader is left behind it. -/
private theorem skipWith_behind {j : Document} {s tail : List Char} {fuel : Nat} {r r' : Reader} {o : Nat}
    {started : Bool} {scopes : List ReadScope} (hdeep : TooDeep (.value j) s) (hs : d.Spells (.value j) s)
    (hpeek : peek r = .ok j.kind ⟨⟨s ++ tail, o⟩, started, scopes, some j.kind⟩) (htail : Follows tail)
    (hscopes : scopes.length ≤ maxDepth) (h : skipWith fuel r = .ok ⟨⟩ r') :
    scopes.length + j.depth ≤ maxDepth ∧ ∃ o', r' = ⟨⟨tail, o'⟩, started, scopes, none⟩ := by
  have hdepth : scopes.length + j.depth ≤ maxDepth := by
    by_contra hlt
    obtain ⟨e, r₁, hfail⟩ := hdeep fuel r o started scopes tail hpeek htail hscopes (Nat.lt_of_not_le hlt)
    have heq := hfail.symm.trans h
    cases heq
  refine ⟨hdepth, ?_⟩
  obtain ⟨o', hpulls⟩ := pulled_of_spells hs r o started scopes tail hpeek htail hdepth
  have hskip : skipValue r = .ok ⟨⟩ r' := skipWith_of_depth fuel r r' h _ (by simp) (by omega)
  rw [skipValue_of_pulls j hpulls] at hskip
  exact ⟨o', (ok_inj.1 hskip).2.symm⟩

/-- Begun in front of something to read, a loop fails if its first step does, or else what follows it. -/
private theorem whileNext_fails {step : ReadM Unit} {n : Nat} {r r₁ : Reader} (hnext : hasNext r = .ok true r₁)
    (h : ∀ r₂, step r₁ = .ok ⟨⟩ r₂ → ∀ m, ∃ e r', whileNext m step r₂ = .error e r') :
    ∃ e r', whileNext n step r = .error e r' := by
  cases n with
  | zero => exact ⟨_, _, rfl⟩
  | succ n =>
    rw [whileNext, bind_of_ok hnext, if_pos rfl]
    cases hstep : step r₁ with
    | error e r' => exact ⟨e, r', bind_of_error hstep⟩
    | ok _ r₂ =>
      obtain ⟨e, r', hrest⟩ := h r₂ hstep n
      exact ⟨e, r', (bind_of_ok hstep).trans hrest⟩

private theorem hasNext_of_value {c : Char} {kind : TokenKind} {r r₁ : Reader} (hpeek : peek r = .ok kind r₁)
    (hc : kindOf? c = some kind) : hasNext r = .ok true r₁ := by
  rw [hasNext_of_peek hpeek]
  have hk := startsValue_of_kindOf? hc
  cases kind <;> first | rfl | cases hk

private theorem tooDeep_of_spells {part : Part} {s : List Char} (h : d.Spells part s) : TooDeep part s := by
  induction h with
  | null | true | false | string _ | number _ =>
    intro fuel r o started scopes tail _ _ hscopes hdepth
    rw [Document.depth] at hdepth
    omega
  | array _ ih =>
    intro fuel r o started scopes tail hpeek _ hscopes hdepth
    rw [Document.depth] at hdepth
    rw [Document.kind, List.cons_append] at hpeek
    cases fuel with
    | zero => exact ⟨_, _, rfl⟩
    | succ fuel =>
      rw [skipWith_of_peek fuel hpeek, skipKind]
      -- the array is opened, and something inside is too deep, or it is one container too many itself
      by_cases hlt : scopes.length < maxDepth
      · have hbegin := beginArray_of_peek (peek_idem hpeek) hlt
        rw [bind_of_ok hbegin, bind_of_ok (get_apply _)]
        obtain ⟨e, r', hfail⟩ := ih fuel _ (o + 1) started scopes tail hlt (by omega)
        exact ⟨e, r', bind_of_error hfail⟩
      · obtain ⟨e, r', hfail⟩ := expect_enter_fails .emptyArray (peek_idem hpeek) (by simp only; omega)
        exact ⟨e, r', bind_of_error hfail⟩
  | object _ ih =>
    intro fuel r o started scopes tail hpeek _ hscopes hdepth
    rw [Document.depth] at hdepth
    rw [Document.kind, List.cons_append] at hpeek
    cases fuel with
    | zero => exact ⟨_, _, rfl⟩
    | succ fuel =>
      rw [skipWith_of_peek fuel hpeek, skipKind]
      by_cases hlt : scopes.length < maxDepth
      · have hbegin := beginObject_of_peek (peek_idem hpeek) hlt
        rw [bind_of_ok hbegin, bind_of_ok (get_apply _)]
        obtain ⟨e, r', hfail⟩ := ih fuel _ (o + 1) started scopes tail hlt (by omega)
        exact ⟨e, r', bind_of_error hfail⟩
      · obtain ⟨e, r', hfail⟩ := expect_enter_fails .emptyObject (peek_idem hpeek) (by simp only; omega)
        exact ⟨e, r', bind_of_error hfail⟩
  | endArray first hb =>
    intro fuel n o started outer tail houter hdepth
    rw [Document.itemsDepth] at hdepth
    omega
  | endObject first hb =>
    intro fuel n o started outer tail houter hdepth
    rw [Document.entriesDepth] at hdepth
    omega
  | @item _ _ _ t j js hg hj hjs ihj ihjs =>
    intro fuel n o started outer tail houter hdepth
    rw [Document.itemsDepth] at hdepth
    obtain ⟨c, s', rfl, hc⟩ := hj.head
    rw [List.append_assoc, List.append_assoc]
    have hpeek := (@Scans.item _ _ (s' ++ (t ++ tail)) c o started outer none _ hg.loose hc).peek_eq
    have hfollows : Follows (t ++ tail) := follows_items hjs
    refine whileNext_fails (hasNext_of_value hpeek hc) fun r₂ hstep m => ?_
    obtain ⟨hfits, o₁, rfl⟩ := skipWith_behind ihj hj (peek_idem hpeek) hfollows houter hstep
    rw [List.length_cons] at hfits
    exact ihjs fuel m o₁ started outer tail houter (by omega)
  | @entry first g n b b' _ t name j es hg hname hb hb' hj hes ihj ihes =>
    intro fuel m o started outer tail houter hdepth
    rw [Document.entriesDepth] at hdepth
    obtain ⟨c, s', rfl, hc⟩ := hj.head
    simp only [List.append_assoc, List.cons_append]
    have hname' :=
      (@Scans.name first g (n ++ '"' :: (b ++ ':' :: (b' ++ c :: (s' ++ (t ++ tail))))) o started outer none
        hg.loose).peek_eq
    refine whileNext_fails (hasNext_of_peek hname') fun r₂ hstep m => ?_
    obtain ⟨o₁, hread⟩ := nextName_of_spellsText hname (peek_idem hname')
    have hpeek := (@Scans.value b b' (s' ++ (t ++ tail)) c o₁ started outer none _ hb.loose hb'.loose hc).peek_eq
    have hfollows : Follows (t ++ tail) := follows_entries hes
    rw [bind_of_ok hread] at hstep
    obtain ⟨hfits, o₂, rfl⟩ := skipWith_behind ihj hj hpeek hfollows houter hstep
    rw [List.length_cons] at hfits
    exact ihes fuel m o₂ started outer tail houter (by omega)

/-- A value that nests too deep where it stands is not skipped. -/
theorem skipValue_too_deep {j : Document} {s tail : List Char} {r : Reader} {o : Nat} {started : Bool}
    {scopes : List ReadScope} (hs : d.Spells (.value j) s)
    (hpeek : peek r = .ok j.kind ⟨⟨s ++ tail, o⟩, started, scopes, some j.kind⟩) (htail : Follows tail)
    (hscopes : scopes.length ≤ maxDepth) (hdepth : maxDepth < scopes.length + j.depth) :
    ∃ e r', skipValue r = .error e r' :=
  tooDeep_of_spells hs _ r o started scopes tail hpeek htail hscopes hdepth

end Marshal.Reader
