import Marshal.Proofs.Registry.Commits

/-!
# Resolvable types

Which types get a converter is a matter of the modules and of the attached converters alone: those that need finitely
many types, all of which have a recipe whose attached converters are there (`Resolvable`).  Given fuel, a resolution
of such a type succeeds, whatever was resolved before; and whatever is cached is resolvable.
-/

namespace Marshal

open Effect

namespace Registry

variable {ms : List AdapterModule} {att : List (String × Converter)}

/-- The type has a recipe, and the attached converters that it takes are there. -/
def Supported (ms : List AdapterModule) (att : List (String × Converter)) (ty : TypeRef) : Prop :=
  ∃ p, recipe? ms ty = some p ∧ ∀ path, Part.attached path ∈ p.parts → (ofModules ms att).attached? path ≠ none

/-- Whatever the type needs is supported, and not without end. -/
structure Resolvable (ms : List AdapterModule) (att : List (String × Converter)) (ty : TypeRef) : Prop where
  finite : (closure ms ty).Finite
  supported : ∀ t ∈ closure ms ty, Supported ms att t

theorem Resolvable.of_mem_closure {ty t : TypeRef} (h : Resolvable ms att ty) (ht : t ∈ closure ms ty) :
    Resolvable ms att t where
  finite := h.finite.subset fun _ hu => Relation.ReflTransGen.trans ht hu
  supported u hu := h.supported u (Relation.ReflTransGen.trans ht hu)

/-- The part can be obtained. -/
def Available (ms : List AdapterModule) (att : List (String × Converter)) : Part → Prop
  | .resolved ty => Resolvable ms att ty
  | .native _ => True
  | .attached path => (ofModules ms att).attached? path ≠ none

theorem Resolvable.available {ty : TypeRef} {p : Recipe} (h : Resolvable ms att ty) (hp : recipe? ms ty = some p) :
    ∀ part ∈ p.parts, Available ms att part := by
  intro part hpart
  cases part with
  | resolved t => exact h.of_mem_closure (.single ⟨p, hp, Recipe.mem_deps.2 hpart⟩)
  | native kind => trivial
  | attached path =>
    obtain ⟨q, hq, hatt⟩ := h.supported ty .refl
    obtain rfl := Option.some.inj (hp.symm.trans hq)
    exact hatt path hpart

/-! ### Numbers -/

theorem fresh_allot {r : Resolution} (hr : Fresh r) : Fresh r.allot := fun id hid => hr id (Nat.le_of_succ_le hid)

theorem fresh_enter {r : Resolution} (hr : Fresh r) (ty : TypeRef) : Fresh (r.enter ty) := fresh_allot hr

private theorem Obtains.fresh {ps : List Part} {cs : List Converter} {r r' : Resolution}
    (h : Obtains ms att (fun _ r _ r' => Extends r r' ∧ (Fresh r → Fresh r')) ps r cs r') :
    Extends r r' ∧ (Fresh r → Fresh r') := by
  induction h with
  | nil r => exact ⟨.refl r, id⟩
  | resolved hc _ ih => exact ⟨hc.1.trans ih.1, ih.2 ∘ hc.2⟩
  | native _ ih => exact ⟨(extends_allot _).trans ih.1, fun hr => ih.2 (fresh_allot hr)⟩
  | attached _ _ ih => exact ih

theorem fresh_of_resolveIn {fuel : Nat} {ty : TypeRef} {c : Converter} {r r' : Resolution}
    (h : (ofModules ms att).resolveIn fuel ty r = .ok c r') : Extends r r' ∧ (Fresh r → Fresh r') := by
  refine resolveIn_induction (fun _ r _ r' => Extends r r' ∧ (Fresh r → Fresh r')) ?_ ?_ fuel ty r c r' h
  · exact fun ty r c _ => ⟨.refl r, id⟩
  · intro ty r p cs r₁ tallies _ _ hcs _ _
    obtain ⟨hext, hfresh⟩ := hcs.fresh
    refine ⟨extends_finish hext _ tallies, fun hr id hid => ?_⟩
    have hle : r.store.nextId + 1 ≤ r₁.store.nextId := hext.nextId
    have hid : r₁.store.nextId + 1 ≤ id := hid
    show List.lookup id ((r.store.nextId, _) :: r₁.store.delegates) = none
    rw [List.lookup_cons, beq_false_of_ne (by omega)]
    exact hfresh (fresh_enter hr ty) id (by omega)

/-! ### Failures -/

private theorem Breaks.outOfFuel {ps : List Part} {e : Error} {r r' : Resolution}
    (h : Breaks ms att (fun _ r _ r' => Extends r r' ∧ (Fresh r → Fresh r'))
      (fun ty r e r' => Fresh r → Fresh r' ∧ (Resolvable ms att ty → e = .outOfFuel)) ps r e r') (hr : Fresh r) :
    Fresh r' ∧ ((∀ part ∈ ps, Available ms att part) → e = .outOfFuel) := by
  induction h with
  | here he => exact ⟨(he hr).1, fun hps => (he hr).2 (hps _ (List.mem_cons_self ..))⟩
  | unknown hn => exact ⟨hr, fun hps => absurd hn (hps _ (List.mem_cons_self ..))⟩
  | resolved hc _ ih =>
    obtain ⟨hfresh, hwhy⟩ := ih (hc.2 hr)
    exact ⟨hfresh, fun hps => hwhy (List.forall_mem_cons.1 hps).2⟩
  | native _ ih =>
    obtain ⟨hfresh, hwhy⟩ := ih (fresh_allot hr)
    exact ⟨hfresh, fun hps => hwhy (List.forall_mem_cons.1 hps).2⟩
  | attached _ _ ih =>
    obtain ⟨hfresh, hwhy⟩ := ih hr
    exact ⟨hfresh, fun hps => hwhy (List.forall_mem_cons.1 hps).2⟩

/-- A resolvable type fails only for want of fuel. -/
theorem outOfFuel_of_resolveIn {fuel : Nat} {ty : TypeRef} {e : Error} {r r' : Resolution}
    (h : (ofModules ms att).resolveIn fuel ty r = .error e r') (hr : Fresh r) :
    Fresh r' ∧ (Resolvable ms att ty → e = .outOfFuel) := by
  refine resolveIn_error_induction (fun _ r _ r' => Extends r r' ∧ (Fresh r → Fresh r'))
    (fun ty r e r' => Fresh r → Fresh r' ∧ (Resolvable ms att ty → e = .outOfFuel))
    (fun _ _ _ _ _ hok => fresh_of_resolveIn hok) ?_ ?_ ?_ ?_ fuel ty r e r' h hr
  · exact fun ty r hr => ⟨hr, fun _ => rfl⟩
  · intro ty r _ hp hr
    refine ⟨fresh_enter hr ty, fun hres => ?_⟩
    obtain ⟨p, hp', -⟩ := hres.supported ty .refl
    rw [hp] at hp'
    cases hp'
  · intro ty r p e r₁ _ hp hb hr
    obtain ⟨hfresh, hwhy⟩ := hb.outOfFuel (fresh_enter hr ty)
    refine ⟨?_, fun hres => hwhy (hres.available hp)⟩
    unfold leave
    split <;> exact hfresh
  · intro ty r p cs r₁ tallies _ _ hcs hbound hr
    -- the number of the type under construction is still free, so its placeholder is not bound already
    have hfree : r₁.store.delegates.find? r.store.nextId = none :=
      (hcs.fresh.1.delegates _ (Nat.lt_succ_self _)).trans (hr _ (Nat.le_refl _))
    exact absurd hfree hbound

/-! ### Successes -/

/-- Given fuel, a resolvable type is resolved. -/
theorem Resolvable.resolveIn {ty : TypeRef} (h : Resolvable ms att ty) {r : Resolution} (hr : Fresh r) :
    ∃ n c r', ∀ fuel ≥ n, (ofModules ms att).resolveIn fuel ty r = .ok c r' := by
  have hmem : ty ∈ h.finite.toFinset := h.finite.mem_toFinset.2 .refl
  have hclosed : ∀ a ∈ h.finite.toFinset, ∀ b, Needs ms a b → b ∈ h.finite.toFinset := fun a ha b hb =>
    h.finite.mem_toFinset.2 (closure_trans (h.finite.mem_toFinset.1 ha) hb)
  cases hrun : (ofModules ms att).resolveIn (missing h.finite.toFinset r + 1) ty r with
  | error e r' =>
    have hne := resolveIn_ne_outOfFuel hclosed _ ty r e r' hmem (Nat.lt_succ_self _) hrun
    exact absurd ((outOfFuel_of_resolveIn hrun hr).2 h) hne
  | ok c r' =>
    refine ⟨missing h.finite.toFinset r + 1, c, r', fun fuel hfuel => ?_⟩
    rcases within_of_le hfuel ty r with ⟨r₁, hout⟩ | heq
    · rw [hrun] at hout
      cases hout
    · exact heq.trans hrun

/-! ### Stores -/

private theorem Built.supported {P : Nat → TypeRef → Prop} {ty : TypeRef} {c : Converter} (h : Built ms att P ty c) :
    Supported ms att ty := by
  obtain ⟨p, id, cs, hp, hcs, -⟩ := h.exists_recipe
  refine ⟨p, hp, fun path hpath => ?_⟩
  obtain ⟨i, hi, heq⟩ := List.mem_iff_getElem.1 hpath
  have hi' : i < cs.length := hcs.length_eq ▸ hi
  have hpart : IsPart ms att P p.parts[i] cs[i] := hcs.get hi hi'
  rw [heq] at hpart
  exact Option.isSome_iff_ne_none.1 (Option.isSome_of_eq_some hpart)

/-- Whatever is cached is resolvable. -/
theorem resolvable_of_cached {P : Nat → TypeRef → Prop} {s : Store} (hs : CacheClosed ms s)
    (hbuilt : ∀ ty c, s.cached? ty = some c → Built ms att P ty c) {ty : TypeRef} (hty : (s.cached? ty).isSome) :
    Resolvable ms att ty where
  finite := finite_closure_of_cached hs hty
  supported t ht := by
    obtain ⟨c, hc⟩ := Option.isSome_iff_exists.1 (cached_of_mem_closure hs hty ht)
    exact (hbuilt t c hc).supported

/-- A store that a registry can come to. -/
structure Healthy (ms : List AdapterModule) (att : List (String × Converter)) (s : Store) : Prop where
  settled : ∃ P, Settled ms att P s
  closed : CacheClosed ms s

namespace Healthy

variable {s s' : Store} {fuel : Nat} {ty : TypeRef}

theorem empty : Healthy ms att .empty := ⟨⟨_, .empty⟩, cacheClosed_empty⟩

theorem fresh (h : Healthy ms att s) : Fresh ⟨s, .empty⟩ := by
  obtain ⟨P, hs⟩ := h.settled
  exact hs.fresh

theorem resolve (h : Healthy ms att s) {c : Converter} (hr : (ofModules ms att).resolve fuel ty s = .ok c s') :
    Healthy ms att s' := by
  obtain ⟨P, hs⟩ := h.settled
  obtain ⟨P', -, hs', -⟩ := hs.resolve hr
  exact ⟨⟨P', hs'⟩, (cacheClosed_of_resolve h.closed hr).1⟩

theorem resolve_error (h : Healthy ms att s) {e : Error} (hr : (ofModules ms att).resolve fuel ty s = .error e s') :
    Healthy ms att s' := by
  obtain ⟨P, hs⟩ := h.settled
  exact ⟨⟨P, (hs.resolve_error hr).2⟩, cacheClosed_of_resolve_error h.closed hr⟩

theorem resolvable (h : Healthy ms att s) (hty : (s.cached? ty).isSome) : Resolvable ms att ty := by
  obtain ⟨P, hs⟩ := h.settled
  exact resolvable_of_cached h.closed hs.cached hty

end Healthy

/-- A registry only comes to healthy stores, as long as nothing drops it. -/
theorem frame_healthy : Frame (ofModules ms att) (fun _ s => Healthy ms att s ∧ s.alive = true) (fun _ => True) where
  mild _ _ := trivial
  drop h := h
  hold _ h := h
  binding _ h := h
  missing _ _ _ := trivial
  delegate h _ := h
  unset _ _ := trivial
  custom _ _ _ _ _ _ := trivial
  resolved h hr := ⟨h.1.resolve hr, (later_of_resolve hr).alive.trans h.2⟩
  failed h hr := ⟨⟨h.1.resolve_error hr, (later_of_resolve_error hr).alive.trans h.2⟩, trivial⟩

/-- A registry that has resolved nothing yet resolves the type. -/
def Resolves (reg : Registry) (ty : TypeRef) : Prop := ∃ fuel c s, reg.resolve fuel ty .empty = .ok c s

/-- Given fuel, a resolvable type is resolved from outside. -/
theorem Resolvable.resolve {ty : TypeRef} (h : Resolvable ms att ty) {s : Store} (hs : Healthy ms att s) :
    ∃ n c s', ∀ fuel ≥ n, (ofModules ms att).resolve fuel ty s = .ok c s' := exists_resolve (h.resolveIn hs.fresh)

/-- Whatever was resolved before: the types that can be resolved are the resolvable ones. -/
theorem resolve_ok_iff {s : Store} (hs : Healthy ms att s) (ty : TypeRef) :
    (∃ fuel c s', (ofModules ms att).resolve fuel ty s = .ok c s') ↔ Resolvable ms att ty := by
  constructor
  · rintro ⟨fuel, c, s', h⟩
    exact (hs.resolve h).resolvable (cacheClosed_of_resolve hs.closed h).2
  · intro h
    obtain ⟨n, c, s', hn⟩ := h.resolve hs
    exact ⟨n, c, s', hn n (Nat.le_refl n)⟩

theorem resolves_iff (ty : TypeRef) : Resolves (ofModules ms att) ty ↔ Resolvable ms att ty :=
  resolve_ok_iff .empty ty

end Registry

end Marshal
