import Marshal.Proofs.Stream.Acceptance

/-!
# Deciding values

A computation decides a value of a document if what it gives depends on the value alone (`Reader.Decides`): wherever
the value stands and however it is spelled, the computation gives the same result and stops behind the value, or it
fails.  An array or an object is decided element by element, as a fold (`decides_array`, `decides_object`).
-/

namespace Marshal

namespace Document

/-- The text of a string or of a number. -/
def text? : Document → Option String
  | string s | number s => some s
  | _ => none

def flag? : Document → Option Bool
  | bool b => some b
  | _ => none

theorem itemsDepth_le_iff {js : List Document} {n : Nat} : itemsDepth js ≤ n ↔ ∀ j ∈ js, j.depth ≤ n := by
  induction js with
  | nil => simp [itemsDepth]
  | cons j js ih => rw [itemsDepth, Nat.max_le, ih, List.forall_mem_cons]

theorem entriesDepth_le_iff {es : List (String × Document)} {n : Nat} :
    entriesDepth es ≤ n ↔ ∀ e ∈ es, e.2.depth ≤ n := by
  induction es with
  | nil => simp [entriesDepth]
  | cons e es ih => rw [entriesDepth, Nat.max_le, ih, List.forall_mem_cons]

end Document

namespace Reader

open Effect

/-! ### Results -/

section Gives

variable {α β : Type} {m : ReadM α} {f : α → ReadM β} {o : Option α} {g : α → Option β} {r : Reader}
  {P Q : Reader → Prop}

/-- The computation gives the result and leaves such a reader, or it fails if there is no result. -/
def Gives (m : ReadM α) (r : Reader) (P : Reader → Prop) : Option α → Prop
  | some a => ∃ r', m r = .ok a r' ∧ P r'
  | none => ∃ e r', m r = .error e r'

private theorem Gives.of_eq {m' : ReadM α} {r' : Reader} (h : m r = m' r') (hm : Gives m' r' P o) :
    Gives m r P o := by
  unfold Gives at hm ⊢
  rw [h]
  exact hm

private theorem Gives.of_ok {a : α} {r' : Reader} {o : Option β} (h : m r = .ok a r') (hf : Gives (f a) r' Q o) :
    Gives (m >>= f) r Q o := hf.of_eq (bind_of_ok h)

/-- It does not matter for a failure where the reader would have been. -/
private theorem Gives.mono (h : Gives m r P o) (hPQ : ∀ r', P r' → Q r') : Gives m r Q o := by
  cases o with
  | none => exact h
  | some a =>
    obtain ⟨r', hm, hr'⟩ := h
    exact ⟨r', hm, hPQ r' hr'⟩

private theorem Gives.bind (h : Gives m r P o) (hf : ∀ a r', P r' → Gives (f a) r' Q (g a)) :
    Gives (m >>= f) r Q (o.bind g) := by
  cases o with
  | none =>
    obtain ⟨e, r', hm⟩ := h
    exact ⟨e, r', bind_of_error hm⟩
  | some a =>
    obtain ⟨r', hm, hr'⟩ := h
    exact .of_ok hm (hf a r' hr')

/-- What the computation gives is its result. -/
theorem Gives.exists_ok_iff (h : Gives m r P o) {a : α} : (∃ r', m r = .ok a r') ↔ o = some a := by
  cases o with
  | none =>
    obtain ⟨e, r', hm⟩ := h
    rw [hm]
    exact ⟨nofun, nofun⟩
  | some b =>
    obtain ⟨r', hm, -⟩ := h
    simp only [hm, ok_inj, Option.some.injEq, exists_and_left, exists_eq', and_true]

/-- The computation leaves the reader alone. -/
def Settles (m : ReadM α) (o : Option α) : Prop := ∀ r, Gives m r (· = r) o

theorem settles_pure (a : α) : Settles (pure a) (some a) := fun r => ⟨r, rfl, rfl⟩

theorem settles_throw (e : Error) : Settles (throw e : ReadM α) none := fun r => ⟨e, r, rfl⟩

theorem Settles.bind (h : Settles m o) (hf : ∀ a, Settles (f a) (g a)) : Settles (m >>= f) (o.bind g) := fun r =>
  (h r).bind fun a _ hr => hr ▸ hf a r

theorem Settles.map (h : Settles m o) (k : α → β) : Settles (do return k (← m)) (o.map k) := by
  rw [Option.map_eq_bind]
  exact h.bind fun a => settles_pure (k a)

theorem settles_ite {p : Prop} [Decidable p] {m' : ReadM α} {o' : Option α} (h : Settles m o) (h' : Settles m' o') :
    Settles (if p then m else m') (if p then o else o') := by
  split
  · exact h
  · exact h'

end Gives

/-! ### Places -/

/-- Where a value stands: what is behind it, and the containers around it. -/
structure Place where
  tail : List Char
  started : Bool
  scopes : List ReadScope

/-- The value was read, and the next token has not been looked at. -/
def Place.Behind (p : Place) (r : Reader) : Prop := ∃ o, r = ⟨⟨p.tail, o⟩, p.started, p.scopes, none⟩

/-- The next token is the first one of the value, in some spelling. -/
structure At (p : Place) (j : Document) (r : Reader) : Prop where
  spelled : ∃ (d : Dialect) (s : List Char) (o : Nat), d.Spells (.value j) s ∧
    peek r = .ok j.kind ⟨⟨s ++ p.tail, o⟩, p.started, p.scopes, some j.kind⟩
  follows : Follows p.tail
  depth_le : p.scopes.length + j.depth ≤ maxDepth

/-- Wherever the value stands, the computation gives the result and stops behind the value, or it fails if there is
none. -/
def Decides {α : Type} (m : ReadM α) (j : Document) (o : Option α) : Prop :=
  ∀ p r, At p j r → Gives m r p.Behind o

section Decides

variable {α β : Type} {m : ReadM α} {f : α → ReadM β} {o : Option α} {g : α → Option β} {j : Document} {p : Place}
  {r : Reader}

theorem At.peek_eq (h : At p j r) : ∃ r', peek r = .ok j.kind r' ∧ At p j r' := by
  obtain ⟨d, s, o, hs, hpeek⟩ := h.spelled
  exact ⟨_, hpeek, ⟨d, s, o, hs, peek_idem hpeek⟩, h.follows, h.depth_le⟩

theorem Decides.bind (h : Decides m j o) (hf : ∀ a, Settles (f a) (g a)) : Decides (m >>= f) j (o.bind g) := by
  intro p r hr
  exact (h p r hr).bind fun a r' hr' => (hf a r').mono fun _ heq => heq ▸ hr'

theorem Decides.congr {o' : Option α} (h : Decides m j o) (ho : o = o') : Decides m j o' := ho ▸ h

theorem Decides.map (h : Decides m j o) (k : α → β) : Decides (do return k (← m)) j (o.map k) := by
  rw [Option.map_eq_bind]
  exact h.bind fun a => settles_pure (k a)

/-- A value is decided by what is done once its first token was looked at. -/
theorem decides_peek {f : TokenKind → ReadM α} (h : Decides (f j.kind) j o) : Decides (peek >>= f) j o := by
  intro p r hr
  obtain ⟨r', hpeek, hr'⟩ := hr.peek_eq
  exact .of_ok hpeek (h p r' hr')

/-- What leaves the reader alone may be done first. -/
theorem Settles.decides (h : Settles m o) (hf : ∀ a, Decides (f a) j (g a)) : Decides (m >>= f) j (o.bind g) :=
  fun p r hr => (h r).bind fun a _ heq => hf a p _ (heq ▸ hr)

theorem Settles.decides_none (h : Settles m none) : Decides m j none := fun _ r _ => h r

theorem decides_ite {c : Prop} [Decidable c] {m' : ReadM α} {o' : Option α} (h : Decides m j o)
    (h' : Decides m' j o') : Decides (if c then m else m') j (if c then o else o') := by
  split
  · exact h
  · exact h'

end Decides

/-! ### Leaves -/

section Leaves

variable {α : Type} {p : Place} {r : Reader}

private theorem At.pulls {j : Document} (h : At p j r) : ∃ r', Pulls j.requests r r' ∧ p.Behind r' := by
  obtain ⟨⟨d, s, o, hs, hpeek⟩, hfollows, hdepth⟩ := h
  obtain ⟨o', hpulls⟩ := pulled_of_spells hs r o p.started p.scopes p.tail hpeek hfollows hdepth
  exact ⟨_, hpulls, o', rfl⟩

private theorem nextNumber_eq {k : TokenKind} {r' : Reader} (hpeek : peek r = .ok k r')
    (hk : k = .string ∨ k = .number) : nextNumber r = nextString r := by
  unfold nextNumber nextString
  rw [bind_of_ok hpeek, bind_of_ok hpeek]
  rcases hk with rfl | rfl <;> rfl

theorem decides_nextString (j : Document) : Decides nextString j j.text? := by
  intro p r hr
  cases j with
  | string s =>
    obtain ⟨r', hpulls, hr'⟩ := hr.pulls
    obtain ⟨t, r₁, hstring, h⟩ := bind_eq_ok.1 (pulls_one.1 hpulls)
    obtain ⟨ht, rfl⟩ := ok_inj.1 h
    cases ht
    exact ⟨r₁, hstring, hr'⟩
  | number s =>
    obtain ⟨r', hpulls, hr'⟩ := hr.pulls
    obtain ⟨t, r₁, hnumber, h⟩ := bind_eq_ok.1 (pulls_one.1 hpulls)
    obtain ⟨ht, rfl⟩ := ok_inj.1 h
    cases ht
    exact ⟨r₁, nextNumber_eq_nextString hnumber, hr'⟩
  | null | bool _ | array _ | object _ =>
    obtain ⟨r', hpeek, -⟩ := hr.peek_eq
    exact ⟨_, _, (bind_of_ok hpeek).trans rfl⟩

theorem decides_nextNumber (j : Document) : Decides nextNumber j j.text? := by
  intro p r hr
  cases j with
  | string s | number s =>
    obtain ⟨r', hpeek, -⟩ := hr.peek_eq
    exact (decides_nextString _ p r hr).of_eq (nextNumber_eq hpeek (by simp [Document.kind]))
  | null | bool _ | array _ | object _ =>
    obtain ⟨r', hpeek, -⟩ := hr.peek_eq
    exact ⟨_, _, (bind_of_ok hpeek).trans rfl⟩

private theorem At.expect_ne {j : Document} (h : At p j r) (kind : TokenKind) (hk : j.kind ≠ kind) :
    ∃ e r', expect kind r = .error e r' := by
  obtain ⟨r', hpeek, -⟩ := h.peek_eq
  exact ⟨_, _, (bind_of_ok hpeek).trans (congrFun (if_neg hk) r')⟩

theorem decides_nextBool (j : Document) : Decides nextBool j j.flag? := by
  intro p r hr
  cases j with
  | bool b =>
    obtain ⟨r', hpulls, hr'⟩ := hr.pulls
    obtain ⟨t, r₁, hbool, h⟩ := bind_eq_ok.1 (pulls_one.1 hpulls)
    obtain ⟨ht, rfl⟩ := ok_inj.1 h
    cases ht
    exact ⟨r₁, hbool, hr'⟩
  | null | string _ | number _ | array _ | object _ =>
    obtain ⟨e, r', hexpect⟩ := hr.expect_ne .boolean (by simp [Document.kind])
    exact ⟨e, r', bind_of_error hexpect⟩

theorem decides_nextNull : Decides nextNull .null (some ⟨⟩) := by
  intro p r hr
  obtain ⟨r', hpulls, hr'⟩ := hr.pulls
  obtain ⟨_, r₁, hnull, h⟩ := bind_eq_ok.1 (pulls_one.1 hpulls)
  obtain ⟨-, rfl⟩ := ok_inj.1 h
  exact ⟨r₁, hnull, hr'⟩

/-- Any value is skipped. -/
theorem decides_skipValue (j : Document) : Decides skipValue j (some ⟨⟩) := by
  intro p r hr
  obtain ⟨r', hpulls, hr'⟩ := hr.pulls
  exact ⟨r', skipValue_of_pulls j hpulls, hr'⟩

theorem decides_skipMismatched (j : Document) : Decides (skipMismatched j.kind) j (some none) := by
  unfold skipMismatched
  cases j with
  | null => exact decides_nextNull.bind fun _ => settles_pure none
  | bool _ | string _ | number _ | array _ | object _ => exact (decides_skipValue _).bind fun _ => settles_pure none

end Leaves

/-! ### Places in containers -/

section Containers

variable {p : Place} {first : Bool} {r : Reader}

/-- The rest of an array stands in front of the reader, up to its closing bracket. -/
structure InItems (p : Place) (first : Bool) (js : List Document) (r : Reader) : Prop where
  spelled : ∃ (d : Dialect) (s : List Char) (o : Nat), d.Spells (.items first js) s ∧
    r = ⟨⟨s ++ p.tail, o⟩, p.started, itemScope first :: p.scopes, none⟩
  depth_le : p.scopes.length + 1 + Document.itemsDepth js ≤ maxDepth

/-- The rest of an object stands in front of the reader, up to its closing bracket. -/
structure InEntries (p : Place) (first : Bool) (es : List (String × Document)) (r : Reader) : Prop where
  spelled : ∃ (d : Dialect) (s : List Char) (o : Nat), d.Spells (.entries first es) s ∧
    r = ⟨⟨s ++ p.tail, o⟩, p.started, entryScope first :: p.scopes, none⟩
  depth_le : p.scopes.length + 1 + Document.entriesDepth es ≤ maxDepth

/-- The next token is the closing bracket of an array or of an object. -/
inductive AtEnd (p : Place) : TokenKind → Reader → Prop
  | array {r : Reader} {s : ReadScope} {o : Nat} {k : Option TokenKind}
    (h : peek r = .ok .endArray ⟨⟨']' :: p.tail, o⟩, p.started, s :: p.scopes, k⟩) : AtEnd p .endArray r
  | object {r : Reader} {s : ReadScope} {o : Nat} {k : Option TokenKind}
    (h : peek r = .ok .endObject ⟨⟨'\x7d' :: p.tail, o⟩, p.started, s :: p.scopes, k⟩) : AtEnd p .endObject r

private theorem AtEnd.peek_eq {k : TokenKind} (h : AtEnd p k r) : ∃ r', peek r = .ok k r' ∧ AtEnd p k r' := by
  cases h with
  | array h => exact ⟨_, h, .array (peek_idem h)⟩
  | object h => exact ⟨_, h, .object (peek_idem h)⟩

private theorem AtEnd.endArray (h : AtEnd p .endArray r) : ∃ r', endArray r = .ok ⟨⟩ r' ∧ p.Behind r' := by
  cases h with
  | array h => exact ⟨_, endArray_of_peek h, _, rfl⟩

private theorem AtEnd.endObject (h : AtEnd p .endObject r) : ∃ r', endObject r = .ok ⟨⟩ r' ∧ p.Behind r' := by
  cases h with
  | object h => exact ⟨_, endObject_of_peek h, _, rfl⟩

/-- Nothing that takes a value succeeds at a closing bracket. -/
private theorem AtEnd.fails {α : Type} {m : ReadM α} {k : TokenKind} (h : AtEnd p k r) (hm : Framed m) :
    ∃ e r', m r = .error e r' := by
  cases hrun : m r with
  | error e r' => exact ⟨e, r', rfl⟩
  | ok a r' =>
    have hskip := hm r a r' hrun
    obtain ⟨r₁, hpeek, hend⟩ := h.peek_eq
    rw [skipValue_of_peek hpeek] at hskip
    cases hend <;> cases hskip

/-! ### Arrays -/

variable {j : Document} {js : List Document}

theorem At.beginArray (h : At p (.array js) r) : ∃ r', beginArray r = .ok ⟨⟩ r' ∧ InItems p true js r' := by
  obtain ⟨⟨d, s, o, hs, hpeek⟩, -, hdepth⟩ := h
  rw [Document.depth] at hdepth
  cases hs with
  | array hs => exact ⟨_, beginArray_of_peek hpeek (by omega), ⟨d, _, _, hs, rfl⟩, by omega⟩

private theorem At.beginArray_fails (h : At p j r) (hj : ∀ js, j ≠ .array js) :
    ∃ e r', Reader.beginArray r = .error e r' := by
  obtain ⟨e, r', hexpect⟩ := h.expect_ne .beginArray (by cases j <;> simp_all [Document.kind])
  exact ⟨e, r', bind_of_error hexpect⟩

private theorem InItems.atEnd (h : InItems p first [] r) : AtEnd p .endArray r := by
  obtain ⟨⟨d, s, o, hs, rfl⟩, -⟩ := h
  cases hs with
  | endArray _ hb =>
    rw [List.append_assoc]
    exact .array (Scans.endArray first hb.loose).peek_eq

/-- The next element, and what stands behind it. -/
theorem InItems.cons (h : InItems p first (j :: js) r) : ∃ q, At q j r ∧
    ∀ r', q.Behind r' → InItems p false js r' ∧ r'.cursor.rest.length < r.cursor.rest.length := by
  obtain ⟨⟨d, s, o, hs, rfl⟩, hdepth⟩ := h
  rw [Document.itemsDepth] at hdepth
  cases hs with
  | @item _ g s t _ _ hg hj hjs =>
    refine ⟨⟨t ++ p.tail, p.started, .nonEmptyArray :: p.scopes⟩, ⟨?_, follows_items hjs, ?_⟩, ?_⟩
    · obtain ⟨c, s', rfl, hc⟩ := hj.head
      rw [List.append_assoc, List.append_assoc]
      exact ⟨d, _, _, hj, (Scans.item hg.loose hc).peek_eq⟩
    · rw [List.length_cons]
      omega
    · rintro r' ⟨o', rfl⟩
      obtain ⟨c, s', rfl, -⟩ := hj.head
      exact ⟨⟨⟨d, t, o', hjs, rfl⟩, by omega⟩, by simp only [List.length_append, List.length_cons]; omega⟩

theorem hasNext_at (h : At p j r) : ∃ r', hasNext r = .ok true r' ∧ At p j r' := by
  obtain ⟨r', hpeek, hr'⟩ := h.peek_eq
  refine ⟨r', ?_, hr'⟩
  rw [hasNext_of_peek hpeek]
  cases j <;> rfl

private theorem AtEnd.hasNext {k : TokenKind} (h : AtEnd p k r) : ∃ r', hasNext r = .ok false r' ∧ AtEnd p k r' := by
  obtain ⟨r', hpeek, hr'⟩ := h.peek_eq
  refine ⟨r', ?_, hr'⟩
  rw [hasNext_of_peek hpeek]
  cases h <;> rfl

section Loops

variable {σ β : Type} {step : σ → ReadM σ}

/-- A loop whose steps decide the elements of an array folds over them. -/
private theorem gives_foldNext_items {f : σ → Document → Option σ} (js : List Document) :
    (∀ s, ∀ j ∈ js, Decides (step s) j (f s j)) → ∀ (s : σ) (r : Reader) (first : Bool) (fuel : Nat),
      InItems p first js r → r.cursor.rest.length < fuel →
        Gives (foldNext fuel step s) r (AtEnd p .endArray) (js.foldlM f s) := by
  induction js with
  | nil =>
    intro _ s r first fuel hr hfuel
    obtain ⟨fuel, rfl⟩ := Nat.exists_eq_succ_of_ne_zero (Nat.ne_zero_of_lt hfuel)
    obtain ⟨r', hnext, hr'⟩ := hr.atEnd.hasNext
    exact ⟨r', (bind_of_ok hnext).trans rfl, hr'⟩
  | cons j js ih =>
    intro hstep s r first fuel hr hfuel
    obtain ⟨fuel, rfl⟩ := Nat.exists_eq_succ_of_ne_zero (Nat.ne_zero_of_lt hfuel)
    obtain ⟨q, hj, hrest⟩ := hr.cons
    obtain ⟨r', hnext, hr'⟩ := hasNext_at hj
    rw [foldNext, List.foldlM_cons]
    refine .of_ok hnext ((hstep s j List.mem_cons_self q r' hr').bind fun s₁ r₁ hr₁ => ?_)
    obtain ⟨hjs, hlt⟩ := hrest r₁ hr₁
    exact ih (fun s j hj => hstep s j (List.mem_cons_of_mem _ hj)) s₁ r₁ false fuel hjs (by omega)

/-- An array is decided by a fold over its elements, and what is made of the last state. -/
theorem decides_array {f : σ → Document → Option σ} {k : σ → ReadM β} {g : σ → Option β}
    (hstep : ∀ s, ∀ j ∈ js, Decides (step s) j (f s j)) (hk : ∀ s, Settles (k s) (g s)) (s : σ) :
    Decides (do
      beginArray
      let s ← overEntries step s
      endArray
      k s) (.array js) ((js.foldlM f s).bind g) := by
  intro p r hr
  obtain ⟨r', hbegin, hr'⟩ := hr.beginArray
  have hfold := gives_foldNext_items js hstep s r' true _ hr' (Nat.lt_succ_self _)
  refine .of_ok hbegin (Gives.bind (P := AtEnd p .endArray) hfold fun s₁ r₁ hr₁ => ?_)
  obtain ⟨r₂, hend, hr₂⟩ := hr₁.endArray
  exact .of_ok hend ((hk s₁ r₂).mono fun _ heq => heq ▸ hr₂)

theorem decides_array_map {f : σ → Document → Option σ} (hstep : ∀ s, ∀ j ∈ js, Decides (step s) j (f s j))
    (k : σ → β) (s : σ) :
    Decides (do
      beginArray
      let s ← overEntries step s
      endArray
      return k s) (.array js) ((js.foldlM f s).map k) := by
  rw [Option.map_eq_bind]
  exact decides_array hstep (fun s => settles_pure (k s)) s

end Loops

/-! ### Objects -/

variable {name : String} {es : List (String × Document)}

private theorem At.beginObject (h : At p (.object es) r) :
    ∃ r', beginObject r = .ok ⟨⟩ r' ∧ InEntries p true es r' := by
  obtain ⟨⟨d, s, o, hs, hpeek⟩, -, hdepth⟩ := h
  rw [Document.depth] at hdepth
  cases hs with
  | object hs => exact ⟨_, beginObject_of_peek hpeek (by omega), ⟨d, _, _, hs, rfl⟩, by omega⟩

private theorem InEntries.atEnd (h : InEntries p first [] r) : AtEnd p .endObject r := by
  obtain ⟨⟨d, s, o, hs, rfl⟩, -⟩ := h
  cases hs with
  | endObject _ hb =>
    rw [List.append_assoc]
    exact .object (Scans.endObject first hb.loose).peek_eq

/-- The name of the next entry, its value, and what stands behind it. -/
private theorem InEntries.cons (h : InEntries p first ((name, j) :: es) r) : ∃ q r₁ r₂, hasNext r = .ok true r₁ ∧
    nextName r₁ = .ok name r₂ ∧ At q j r₂ ∧
      ∀ r', q.Behind r' → InEntries p false es r' ∧ r'.cursor.rest.length < r.cursor.rest.length := by
  obtain ⟨⟨d, s, o, hs, rfl⟩, hdepth⟩ := h
  rw [Document.entriesDepth] at hdepth
  cases hs with
  | @entry _ g n b b' s t _ _ _ hg hname hb hb' hj hes =>
    simp only [List.append_assoc, List.cons_append]
    have hpeek :=
      (@Scans.name first g (n ++ '"' :: (b ++ ':' :: (b' ++ (s ++ (t ++ p.tail))))) o p.started p.scopes none
        hg.loose).peek_eq
    obtain ⟨o₁, hread⟩ := nextName_of_spellsText hname (peek_idem hpeek)
    refine ⟨⟨t ++ p.tail, p.started, .nonEmptyObject :: p.scopes⟩, _, _, hasNext_of_peek hpeek, hread,
      ⟨?_, follows_entries hes, ?_⟩, ?_⟩
    · obtain ⟨c, s', rfl, hc⟩ := hj.head
      exact ⟨d, _, _, hj, (Scans.value hb.loose hb'.loose hc).peek_eq⟩
    · rw [List.length_cons]
      omega
    · rintro r' ⟨o', rfl⟩
      refine ⟨⟨⟨d, t, o', hes, rfl⟩, by omega⟩, ?_⟩
      simp only [List.length_append, List.length_cons]
      omega

section Loops

variable {σ β : Type} {value : σ → String → ReadM σ} {f : σ → String → Document → Option σ}

/-- A loop that reads names, and decides the values of an object by them, folds over the entries. -/
private theorem gives_foldNext_entries (es : List (String × Document)) :
    (∀ s, ∀ e ∈ es, Decides (value s e.1) e.2 (f s e.1 e.2)) → ∀ (s : σ) (r : Reader) (first : Bool) (fuel : Nat),
      InEntries p first es r → r.cursor.rest.length < fuel →
        Gives (foldNext fuel (fun s => nextName >>= value s) s) r (AtEnd p .endObject)
          (es.foldlM (fun s e => f s e.1 e.2) s) := by
  induction es with
  | nil =>
    intro _ s r first fuel hr hfuel
    obtain ⟨fuel, rfl⟩ := Nat.exists_eq_succ_of_ne_zero (Nat.ne_zero_of_lt hfuel)
    obtain ⟨r', hnext, hr'⟩ := hr.atEnd.hasNext
    exact ⟨r', (bind_of_ok hnext).trans rfl, hr'⟩
  | cons e es ih =>
    obtain ⟨name, j⟩ := e
    intro hvalue s r first fuel hr hfuel
    obtain ⟨fuel, rfl⟩ := Nat.exists_eq_succ_of_ne_zero (Nat.ne_zero_of_lt hfuel)
    obtain ⟨q, r₁, r₂, hnext, hname, hj, hrest⟩ := hr.cons
    rw [foldNext, List.foldlM_cons]
    refine .of_ok hnext (Gives.bind (P := q.Behind) (.of_ok hname ?_) fun s₁ r₃ hr₃ => ?_)
    · exact hvalue s (name, j) List.mem_cons_self q r₂ hj
    · obtain ⟨hes, hlt⟩ := hrest r₃ hr₃
      exact ih (fun s e he => hvalue s e (List.mem_cons_of_mem _ he)) s₁ r₃ false fuel hes (by omega)

/-- An object is decided by a fold over its entries, and what is made of the last state. -/
theorem decides_object {k : σ → ReadM β} {g : σ → Option β}
    (hvalue : ∀ s, ∀ e ∈ es, Decides (value s e.1) e.2 (f s e.1 e.2)) (hk : ∀ s, Settles (k s) (g s)) (s : σ) :
    Decides (do
      beginObject
      let s ← overEntries (fun s => nextName >>= value s) s
      endObject
      k s) (.object es) ((es.foldlM (fun s e => f s e.1 e.2) s).bind g) := by
  intro p r hr
  obtain ⟨r', hbegin, hr'⟩ := hr.beginObject
  have hfold := gives_foldNext_entries es hvalue s r' true _ hr' (Nat.lt_succ_self _)
  refine .of_ok hbegin (Gives.bind (P := AtEnd p .endObject) hfold fun s₁ r₁ hr₁ => ?_)
  obtain ⟨r₂, hend, hr₂⟩ := hr₁.endObject
  exact .of_ok hend ((hk s₁ r₂).mono fun _ heq => heq ▸ hr₂)

theorem decides_object_map (hvalue : ∀ s, ∀ e ∈ es, Decides (value s e.1) e.2 (f s e.1 e.2)) (k : σ → β) (s : σ) :
    Decides (do
      beginObject
      let s ← overEntries (fun s => nextName >>= value s) s
      endObject
      return k s) (.object es) ((es.foldlM (fun s e => f s e.1 e.2) s).map k) := by
  rw [Option.map_eq_bind]
  exact decides_object hvalue (fun s => settles_pure (k s)) s

end Loops

/-! ### Pairs -/

section Pairs

variable {α β γ : Type} {key : ReadM α} {value : ReadM β} {keyOf : Document → Option α}
  {valueOf : Document → Option β}

/-- What is made of the elements of an array of two. -/
def pair? (keyOf : Document → Option α) (valueOf : Document → Option β) (k : α → β → Option γ) : Document → Option γ
  | .array [i, j] => (keyOf i).bind fun a => (valueOf j).bind (k a)
  | _ => none

/-- The next element of an array is decided, if there is one. -/
private theorem gives_element (h : InItems p first js r) (hkey : ∀ j, Decides key j (keyOf j))
    (framed_key : Framed key) : Gives key r (InItems p false js.tail) (js.head?.bind keyOf) := by
  cases js with
  | nil => exact h.atEnd.fails framed_key
  | cons j js =>
    obtain ⟨q, hj, hbehind⟩ := h.cons
    exact (hkey j q r hj).mono fun r' hr' => (hbehind r' hr').1

/-- An array ends behind its last element. -/
private theorem gives_endArray (h : InItems p first js r) :
    Gives endArray r p.Behind (if js.isEmpty then some ⟨⟩ else none) := by
  cases js with
  | nil => exact h.atEnd.endArray
  | cons j js =>
    obtain ⟨q, hj, -⟩ := h.cons
    obtain ⟨e, r', hfail⟩ := hj.expect_ne .endArray (by cases j <;> simp [Document.kind])
    exact ⟨e, r', bind_of_error hfail⟩

/-- Two values in an array are decided one after the other; arrays of other lengths are no pairs. -/
theorem decides_pair {f : α → β → ReadM γ} {k : α → β → Option γ} (hkey : ∀ j, Decides key j (keyOf j))
    (hvalue : ∀ j, Decides value j (valueOf j)) (hf : ∀ a b, Settles (f a b) (k a b)) (framed_key : Framed key)
    (framed_value : Framed value) (j : Document) :
    Decides (do
      beginArray
      let a ← key
      let b ← value
      endArray
      f a b) j (pair? keyOf valueOf k j) := by
  intro p r hr
  cases j with
  | null | bool _ | string _ | number _ | object _ =>
    obtain ⟨e, r', hfail⟩ := hr.beginArray_fails nofun
    exact ⟨e, r', bind_of_error hfail⟩
  | array js =>
    obtain ⟨r₁, hbegin, hr₁⟩ := hr.beginArray
    -- element by element, so that the three ways to have another length fail where the element or the bracket is
    -- missing
    have hpair : pair? keyOf valueOf k (.array js) = (js.head?.bind keyOf).bind fun a =>
        (js.tail.head?.bind valueOf).bind
        fun b => (if js.tail.tail.isEmpty then some PUnit.unit else none).bind fun _ => k a b := by
      rcases js with _ | ⟨i, _ | ⟨l, _ | ⟨l', js⟩⟩⟩ <;> simp [pair?]
    rw [hpair]
    refine .of_ok hbegin ((gives_element hr₁ hkey framed_key).bind fun a r₂ hr₂ => ?_)
    refine (gives_element hr₂ hvalue framed_value).bind fun b r₃ hr₃ => ?_
    exact (gives_endArray hr₃).bind fun _ r₄ hr₄ => (hf a b r₄).mono fun _ heq => heq ▸ hr₄

end Pairs

end Containers

end Reader

end Marshal
