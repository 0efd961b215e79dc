import Marshal.Proofs.Converter.Writing

/-!
# What a registry holds

A registry holds the converters that it has cached and those that its placeholders stand for; a resolution also holds
those that it has finished.  A property that every converter has which is built from parts that have it (`Hereditary`)
is had by all of them, however the registry is used, and by every converter that the registry gives out.
-/

namespace Marshal

theorem mem_of_lookup {α β : Type} [BEq α] [LawfulBEq α] {l : List (α × β)} {k : α} {b : β}
    (h : l.lookup k = some b) : (k, b) ∈ l := by
  obtain ⟨l₁, l₂, rfl, -⟩ := List.lookup_eq_some_iff.1 h
  simp

variable {A : Converter → Prop}

/-- The converters that a registry holds have the property. -/
structure Store.All (A : Converter → Prop) (s : Store) : Prop where
  delegates : ∀ p ∈ s.delegates, A p.2
  cache : ∀ p ∈ s.cache, A p.2

/-- So do those that a resolution holds, the placeholders of the types under construction included. -/
structure Resolution.All (A : Converter → Prop) (r : Resolution) : Prop where
  store : r.store.All A
  pending : ∀ p ∈ r.context.pending, A p.2
  inFlight : ∀ p ∈ r.context.inFlight, A p.2

private theorem Store.all_empty : Store.empty.All A := ⟨nofun, nofun⟩

private theorem Store.All.commit {s : Store} {entry : TypeRef × Converter} (h : s.All A) (he : A entry.2) :
    (s.commit entry).All A := by
  refine ⟨h.delegates, ?_⟩
  unfold Store.commit Table.enter
  cases s.cache.get? entry.1 with
  | some c => exact h.cache
  | none => exact List.forall_mem_append.2 ⟨h.cache, by simpa using he⟩

namespace Registry

variable {ms : List AdapterModule} {att : List (String × Converter)}

/-- A property of converters that comes from the parts they are built from. -/
structure Hereditary (ms : List AdapterModule) (att : List (String × Converter)) (A : Converter → Prop) : Prop where
  placeholder (id : Nat) (ty : TypeRef) : A (.placeholder id ty)
  native (id : Nat) (kind : NativeKind) : A (.native id kind)
  attached : ∀ p ∈ att, A p.2
  built {ty : TypeRef} {p : Recipe} (id : Nat) {cs : List Converter} (hp : recipe? ms ty = some p)
    (hcs : ∀ c ∈ cs, A c) : A (p.assemble id cs)

/-! ### Resolutions -/

private theorem all_of_known? {r : Resolution} (h : r.All A) {ty : TypeRef} {c : Converter}
    (hk : known? r ty = some c) : A c := by
  rcases Option.or_eq_some_iff.1 hk with hc | ⟨-, hrest⟩
  · exact h.store.cache _ (mem_of_lookup hc)
  · rcases Option.or_eq_some_iff.1 hrest with hp | ⟨-, hf⟩
    · exact h.pending _ (mem_of_lookup hp)
    · exact h.inFlight _ (mem_of_lookup hf)

private theorem all_commitAll {entries : List (TypeRef × Converter)} (he : ∀ e ∈ entries, A e.2) :
    ∀ {s : Store}, s.All A → (commitAll s entries).All A := by
  induction entries with
  | nil => exact id
  | cons e entries ih =>
    intro s hs
    rw [List.forall_mem_cons] at he
    exact ih he.2 (hs.commit he.1)

namespace Hereditary

variable (hA : Hereditary ms att A) {r r₁ r' : Resolution}

include hA

private theorem enter (h : r.All A) (ty : TypeRef) : (r.enter ty).All A :=
  ⟨⟨h.store.delegates, h.store.cache⟩, h.pending, List.forall_mem_cons.2 ⟨hA.placeholder _ ty, h.inFlight⟩⟩

omit hA in
private theorem exit (h : r.All A) : r.exit.All A :=
  ⟨h.store, h.pending, fun p hp => h.inFlight p (List.mem_of_mem_tail hp)⟩

omit hA in
private theorem finish (h : r.All A) {c : Converter} (hc : A c) (id : Nat) (ty : TypeRef)
    (tallies : List (Nat × Tally)) : (r.finish id ty c tallies).All A where
  store := ⟨List.forall_mem_cons.2 ⟨hc, h.store.delegates⟩, h.store.cache⟩
  pending := List.forall_mem_append.2 ⟨h.pending, by simpa using hc⟩
  inFlight p hp := h.inFlight p (List.mem_of_mem_tail hp)

private theorem attached? {path : String} {c : Converter} (h : (ofModules ms att).attached? path = some c) : A c :=
  hA.attached (path, c) (List.mem_reverse.1 (mem_of_lookup h))

private theorem obtains {ps : List Part} {cs : List Converter}
    (h : Obtains ms att (fun _ r c r' => r.All A → A c ∧ r'.All A) ps r cs r') (hr : r.All A) :
    (∀ c ∈ cs, A c) ∧ r'.All A := by
  induction h with
  | nil r => exact ⟨nofun, hr⟩
  | resolved hc _ ih =>
    obtain ⟨hc, hr₁⟩ := hc hr
    obtain ⟨hcs, hr'⟩ := ih hr₁
    exact ⟨List.forall_mem_cons.2 ⟨hc, hcs⟩, hr'⟩
  | native _ ih =>
    obtain ⟨hcs, hr'⟩ := ih ⟨⟨hr.store.delegates, hr.store.cache⟩, hr.pending, hr.inFlight⟩
    exact ⟨List.forall_mem_cons.2 ⟨hA.native _ _, hcs⟩, hr'⟩
  | attached hc _ ih =>
    obtain ⟨hcs, hr'⟩ := ih hr
    exact ⟨List.forall_mem_cons.2 ⟨hA.attached? hc, hcs⟩, hr'⟩

private theorem resolveIn {fuel : Nat} {ty : TypeRef} {c : Converter}
    (h : (ofModules ms att).resolveIn fuel ty r = .ok c r') (hr : r.All A) : A c ∧ r'.All A := by
  refine resolveIn_induction (fun _ r c r' => r.All A → A c ∧ r'.All A) ?_ ?_ fuel ty r c r' h hr
  · exact fun ty r c hk hr => ⟨all_of_known? hr hk, hr⟩
  · intro ty r p cs r₁ tallies _ hp hcs _ _ hr
    obtain ⟨hcs, hr₁⟩ := hA.obtains hcs (hA.enter hr ty)
    have hc := hA.built r₁.store.nextId hp hcs
    exact ⟨hc, finish hr₁ hc _ ty tallies⟩

omit hA in
private theorem breaks {ps : List Part} {e : Error}
    (h : Breaks ms att (fun _ r c r' => r.All A → A c ∧ r'.All A)
      (fun _ r e r' => r.All A → e.isOfResolution = true ∧ r'.All A)
      ps r e r') (hr : r.All A) : e.isOfResolution = true ∧ r'.All A := by
  induction h with
  | here he => exact he hr
  | unknown _ => exact ⟨rfl, hr⟩
  | resolved hc _ ih => exact ih (hc hr).2
  | native _ ih => exact ih ⟨⟨hr.store.delegates, hr.store.cache⟩, hr.pending, hr.inFlight⟩
  | attached _ _ ih => exact ih hr

private theorem resolveIn_error {fuel : Nat} {ty : TypeRef} {e : Error}
    (h : (ofModules ms att).resolveIn fuel ty r = .error e r') (hr : r.All A) :
    e.isOfResolution = true ∧ r'.All A := by
  refine resolveIn_error_induction (fun _ r c r' => r.All A → A c ∧ r'.All A)
    (fun _ r e r' => r.All A → e.isOfResolution = true ∧ r'.All A)
      (fun _ _ _ _ _ hok hr => hA.resolveIn hok hr) ?_ ?_ ?_ ?_
    fuel ty r e r' h hr
  · exact fun _ _ hr => ⟨rfl, hr⟩
  · exact fun ty r _ _ hr => ⟨rfl, exit (hA.enter hr ty)⟩
  · intro ty r p e r₁ _ _ hb hr
    obtain ⟨he, hr₁⟩ := breaks hb (hA.enter hr ty)
    refine ⟨he, ?_⟩
    unfold leave
    split
    · exact hr₁
    · exact exit hr₁
  · intro ty r p cs r₁ tallies _ _ hcs _ hr
    obtain ⟨-, hr₁⟩ := hA.obtains hcs (hA.enter hr ty)
    exact ⟨rfl, ⟨hr₁.store.delegates, hr₁.store.cache⟩, (exit hr₁).pending, (exit hr₁).inFlight⟩

/-! ### Stores -/

variable {s s' : Store} {fuel : Nat} {ty : TypeRef}

omit hA in
private theorem of_store (h : s.All A) : Resolution.All A ⟨s, .empty⟩ := ⟨h, nofun, nofun⟩

theorem resolve {c : Converter} (h : s.All A) (hr : (ofModules ms att).resolve fuel ty s = .ok c s') :
    A c ∧ s'.All A := by
  rcases resolve_ok hr with ⟨hc, rfl⟩ | ⟨c₁, r, -, hin, rfl, rfl⟩
  · exact ⟨h.cache _ (mem_of_lookup hc), h⟩
  · obtain ⟨hc₁, hall⟩ := hA.resolveIn hin (of_store h)
    have hcommit := all_commitAll hall.pending hall.store
    refine ⟨?_, hcommit⟩
    cases hd : (commitAll r.store r.context.pending).cached? ty with
    | none => exact hc₁
    | some d => exact hcommit.cache _ (mem_of_lookup hd)

theorem resolve_error {e : Error} (h : s.All A) (hr : (ofModules ms att).resolve fuel ty s = .error e s') :
    e.isOfResolution = true ∧ s'.All A := by
  obtain ⟨r, hin, rfl⟩ := Registry.resolve_error hr
  obtain ⟨he, hall⟩ := hA.resolveIn_error hin (of_store h)
  exact ⟨he, hall.store⟩

/-- However a registry is used, what it holds and has given out has the property. -/
theorem of_run (hbinding : ∀ c, A c → ∀ b ∈ c.bindings, A b) {cs : List Converter} (h : Run (ofModules ms att) s cs) :
    s.All A ∧ ∀ c ∈ cs, A c := by
  have hframe : Frame (ofModules ms att) (fun cs s => s.All A ∧ ∀ c ∈ cs, A c) fun _ => True := {
    mild := fun _ _ => trivial
    drop := fun h => ⟨h.1, fun c hc => h.2 c (List.mem_cons_of_mem _ hc)⟩
    hold := fun hc h => ⟨h.1, List.forall_mem_cons.2 ⟨h.2 _ hc, h.2⟩⟩
    binding := fun hb h => ⟨h.1, List.forall_mem_cons.2 ⟨hbinding _ (h.2 _ (List.mem_cons_self ..)) _ hb, h.2⟩⟩
    missing := fun _ _ _ => trivial
    delegate := fun h hd => ⟨h.1, List.forall_mem_cons.2 ⟨h.1.delegates _ (mem_of_lookup hd), h.2⟩⟩
    unset := fun _ _ => trivial
    custom := fun _ _ _ _ _ _ => trivial
    resolved := fun h hr => ⟨(hA.resolve h.1 hr).2, List.forall_mem_cons.2 ⟨(hA.resolve h.1 hr).1, h.2⟩⟩
    failed := fun h hr => ⟨⟨(hA.resolve_error h.1 hr).2, h.2⟩, trivial⟩ }
  exact hframe.of_run ⟨Store.all_empty, nofun⟩ h

end Hereditary

/-- A resolution fails with faults of resolving alone. -/
theorem isOfResolution_of_resolve {fuel : Nat} {ty : TypeRef} {s s' : Store} {e : Error}
    (h : (ofModules ms att).resolve fuel ty s = .error e s') : e.isOfResolution = true := by
  have hall : Hereditary ms att fun _ => True :=
    ⟨fun _ _ => trivial, fun _ _ => trivial, fun _ _ => trivial, fun _ _ _ _ => trivial⟩
  exact (hall.resolve_error ⟨fun _ _ => trivial, fun _ _ => trivial⟩ h).1

end Registry

end Marshal
