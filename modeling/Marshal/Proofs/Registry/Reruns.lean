import Marshal.Proofs.Following
import Marshal.Proofs.Registry.Resolvable

/-!
# Resolving in another store

Two registries of modules that build types from the same parts, in the same order (`SameNeeds`), resolve the same
types.  They may have cached different ones.  What is cached is resolvable, so both have yet to find out about all
types that are not, and they go through these in the same order: a resolution succeeds in one store exactly if it
succeeds in the other, and fails with the same fault.
-/

namespace Marshal

open Effect

/-! ### The same needs -/

/-- A converter is attached under the path. -/
def Registry.attaches (att : List (String × Converter)) (path : String) : Bool := (att.reverse.lookup path).isSome

/-- The part is an attached converter that is there. -/
def Part.isGiven (att : List (String × Converter)) : Part → Bool
  | attached path => Registry.attaches att path
  | _ => false

/-- The parts that are still to be obtained: all but attached converters that are there. -/
def Recipe.needed (att : List (String × Converter)) (p : Recipe) : List Part :=
  p.parts.filter fun part => !part.isGiven att

private theorem Recipe.mem_needed {att : List (String × Converter)} {p : Recipe} {part : Part} :
    part ∈ p.needed att ↔ part ∈ p.parts ∧ part.isGiven att = false := by
  rw [needed, List.mem_filter, Bool.not_eq_true']

namespace Registry

variable {ms ms' : List AdapterModule} {att : List (String × Converter)}

/-- The two lists of modules have recipes for the same types, which need the same parts in the same order. -/
def SameNeeds (att : List (String × Converter)) (ms ms' : List AdapterModule) : Prop :=
  ∀ ty, (recipe? ms ty).map (·.needed att) = (recipe? ms' ty).map (·.needed att)

namespace SameNeeds

private theorem refl (ms : List AdapterModule) : SameNeeds att ms ms := fun _ => rfl

variable (h : SameNeeds att ms ms') {ty : TypeRef}

include h

private theorem symm : SameNeeds att ms' ms := fun ty => (h ty).symm

private theorem recipe?_eq_none (hp : recipe? ms ty = none) : recipe? ms' ty = none := by
  have hneeds := h ty
  rwa [hp, Option.map_none, eq_comm, Option.map_eq_none_iff] at hneeds

private theorem exists_recipe? {p : Recipe} (hp : recipe? ms ty = some p) :
    ∃ p', recipe? ms' ty = some p' ∧ p.needed att = p'.needed att := by
  have hneeds := h ty
  rw [hp, Option.map_some, eq_comm, Option.map_eq_some_iff] at hneeds
  obtain ⟨p', hp', heq⟩ := hneeds
  exact ⟨p', hp', heq.symm⟩

private theorem needs {a b : TypeRef} (hab : Needs ms a b) : Needs ms' a b := by
  obtain ⟨p, hp, hb⟩ := hab
  obtain ⟨p', hp', heq⟩ := h.exists_recipe? hp
  have hmem : Part.resolved b ∈ p.needed att := Recipe.mem_needed.2 ⟨Recipe.mem_deps.1 hb, rfl⟩
  exact ⟨p', hp', Recipe.mem_deps.2 (Recipe.mem_needed.1 (heq ▸ hmem)).1⟩

private theorem closure_eq (ty : TypeRef) : closure ms ty = closure ms' ty :=
  Set.ext fun _ => ⟨fun ht => Relation.ReflTransGen.mono (fun _ _ => h.needs) _ _ ht,
    fun ht => Relation.ReflTransGen.mono (fun _ _ => h.symm.needs) _ _ ht⟩

private theorem supported (hty : Supported ms att ty) : Supported ms' att ty := by
  obtain ⟨p, hp, hgiven⟩ := hty
  obtain ⟨p', hp', heq⟩ := h.exists_recipe? hp
  refine ⟨p', hp', fun path hpath hnone => ?_⟩
  have hlookup : att.reverse.lookup path = none := hnone
  -- a converter that is not there is needed, and then it is needed on the other side as well
  have hmem : Part.attached path ∈ p'.needed att :=
    Recipe.mem_needed.2 ⟨hpath, by rw [Part.isGiven, attaches, hlookup]; rfl⟩
  exact hgiven path (Recipe.mem_needed.1 (heq ▸ hmem)).1 hnone

private theorem resolvable (hty : Resolvable ms att ty) : Resolvable ms' att ty where
  finite := h.closure_eq ty ▸ hty.finite
  supported t ht := h.supported (hty.supported t (h.closure_eq ty ▸ ht))

end SameNeeds

/-! ### Types that are not resolvable -/

/-- Two resolutions under way that have entered the same types and have finished the same of those that are not
resolvable. -/
structure Alike (ms : List AdapterModule) (att : List (String × Converter)) (r r' : Resolution) : Prop where
  fresh : Fresh r
  fresh' : Fresh r'
  inFlight : r.context.inFlight.map (·.1) = r'.context.inFlight.map (·.1)
  finished : ∀ ty, ¬Resolvable ms att ty → (Finished r ty ↔ Finished r' ty)

/-- The resolution of a resolvable type finishes resolvable types only. -/
private theorem finished_of_resolveIn {fuel : Nat} {ty : TypeRef} {c : Converter} {r r' : Resolution}
    (h : (ofModules ms att).resolveIn fuel ty r = .ok c r') (hres : Resolvable ms att ty) {t : TypeRef}
    (ht : ¬Resolvable ms att t) : Finished r' t ↔ Finished r t := by
  obtain ⟨hext, new, hnew⟩ := completes_of_resolveIn h
  have hnot : (new.lookup t).isSome = false := by
    rw [← Bool.not_eq_true, isSome_lookup]
    exact fun hmem => ht (hres.of_mem_closure (hnew.needed t hmem))
  simp only [Finished, Store.cached?, Context.pending?, hext.cache, hnew.pending, List.lookup_append,
    Option.isSome_or, hnot, Bool.or_false]

namespace Alike

variable {r r' r₁ r₁' : Resolution} {ty : TypeRef}

private theorem known (h : Alike ms att r r') (hty : ¬Resolvable ms att ty) :
    (known? r ty).isSome ↔ (known? r' ty).isSome := by
  rw [known?_isSome, known?_isSome, h.finished ty hty, Context.inFlight?, Context.inFlight?, isSome_lookup,
    isSome_lookup, h.inFlight]

private theorem allot (h : Alike ms att r r') : Alike ms att r.allot r'.allot where
  fresh id hid := h.fresh id (Nat.le_of_succ_le hid)
  fresh' id hid := h.fresh' id (Nat.le_of_succ_le hid)
  inFlight := h.inFlight
  finished := h.finished

private theorem enter (h : Alike ms att r r') (ty : TypeRef) : Alike ms att (r.enter ty) (r'.enter ty) where
  fresh := h.allot.fresh
  fresh' := h.allot.fresh'
  inFlight := congrArg (ty :: ·) h.inFlight
  finished := h.finished

private theorem resolved (hms : SameNeeds att ms ms') (h : Alike ms att r r') (hres : Resolvable ms att ty)
    {fuel fuel' : Nat} {c c' : Converter} (hc : (ofModules ms att).resolveIn fuel ty r = .ok c r₁)
    (hc' : (ofModules ms' att).resolveIn fuel' ty r' = .ok c' r₁') : Alike ms att r₁ r₁' where
  fresh := (fresh_of_resolveIn hc).2 h.fresh
  fresh' := (fresh_of_resolveIn hc').2 h.fresh'
  inFlight := by rw [(extends_of_resolveIn hc).inFlight, (extends_of_resolveIn hc').inFlight, h.inFlight]
  finished t ht := by
    rw [finished_of_resolveIn hc hres ht, finished_of_resolveIn hc' (hms.resolvable hres) (ht ∘ hms.symm.resolvable),
      h.finished t ht]

end Alike

/-- The number under which a type was entered is still free when its parts were obtained. -/
private theorem find?_of_mapM {p : Recipe} {ty : TypeRef} {fuel : Nat} {cs : List Converter} {r r₁ : Resolution}
    (hr : Fresh r) (h : p.parts.mapM (·.obtain ((ofModules ms att).resolver fuel)) (r.enter ty) = .ok cs r₁) :
    r₁.store.delegates.find? r.store.nextId = none := by
  have hobtains := (obtains_of_mapM p.parts (r.enter ty) cs r₁ h).mono fun _ _ _ _ => extends_of_resolveIn
  exact (hobtains.extends.delegates _ (Nat.lt_succ_self _)).trans (hr _ (Nat.le_refl _))

/-- Obtaining a part follows the same in another resolution if resolving types does. -/
private theorem follows_obtain {fuel : Nat}
    (h : ∀ ty : TypeRef, Follows (Alike ms att) (fun _ _ => True) (fun _ _ => True)
      ((ofModules ms att).resolveIn fuel ty) fun k => (ofModules ms' att).resolveIn k ty) (part : Part) :
    Follows (Alike ms att) (fun _ _ => True) (fun _ _ => True)
      (part.obtain ((ofModules ms att).resolver fuel)) fun k =>
      part.obtain ((ofModules ms' att).resolver k) := by
  cases part with
  | resolved t => exact h t
  | native kind => exact .of_agree fun _ _ hst => ⟨trivial, hst.allot⟩
  | attached path =>
    have hatt : (ofModules ms' att).findAttached path = (ofModules ms att).findAttached path := rfl
    simp only [Part.obtain, resolver, hatt]
    unfold findAttached
    cases (ofModules ms att).attached? path with
    | none => exact .throw (fun _ _ _ => trivial) _
    | some c => exact .pure trivial

/-- An attached converter that is there is obtained without doing anything. -/
private theorem obtain_of_isGiven {part : Part} (h : part.isGiven att = true) :
    ∃ c, ∀ ms fuel, part.obtain ((ofModules ms att).resolver fuel) = pure c := by
  cases part with
  | resolved | native => cases h
  | attached path =>
    obtain ⟨c, hc⟩ := Option.isSome_iff_exists.1 h
    refine ⟨c, fun ms fuel => ?_⟩
    have hlookup : (ofModules ms att).attached? path = some c := hc
    simp only [Part.obtain, resolver, findAttached, hlookup]

/-- Obtaining the parts of a recipe follows obtaining those of another one that needs the same. -/
private theorem follows_parts {fuel : Nat}
    (h : ∀ ty : TypeRef, Follows (Alike ms att) (fun _ _ => True) (fun _ _ => True)
      ((ofModules ms att).resolveIn fuel ty) fun k => (ofModules ms' att).resolveIn k ty) {p p' : Recipe}
    (hneeded : p.needed att = p'.needed att) :
    Follows (Alike ms att) (fun _ _ => True) (fun _ _ => True)
      (p.parts.mapM (·.obtain ((ofModules ms att).resolver fuel)))
      fun k => p'.parts.mapM (·.obtain ((ofModules ms' att).resolver k)) := by
  refine Follows.mapM_filter (fun part hgiven => ?_) (follows_obtain h) p.parts p'.parts hneeded
  rw [Bool.not_eq_false'] at hgiven
  obtain ⟨c, hc⟩ := obtain_of_isGiven hgiven
  exact ⟨⟨c, hc ms fuel⟩, c, hc ms'⟩

/-- A construction follows the one by a recipe with the same needs if obtaining its parts does. -/
private theorem follows_construction {fuel : Nat} {ty : TypeRef} {p p' : Recipe}
    {r r' : Resolution} (hr : Alike ms att r r') (hk : known? r ty = none) (hk' : known? r' ty = none)
    (hp : recipe? ms ty = some p) (hp' : recipe? ms' ty = some p')
    (hparts : Follows (Alike ms att) (fun _ _ => True) (fun _ _ => True)
      (p.parts.mapM (·.obtain ((ofModules ms att).resolver fuel))) fun k =>
        p'.parts.mapM (·.obtain ((ofModules ms' att).resolver k))) :
    (∃ r₁, (ofModules ms att).resolveIn (fuel + 1) ty r = .error .outOfFuel r₁) ∨
      ∃ n x, (∀ k ≥ n, (ofModules ms' att).resolveIn (k + 1) ty r' = x) ∧
        Agree (Alike ms att) (fun _ _ => True) (fun _ _ => True)
          ((ofModules ms att).resolveIn (fuel + 1) ty r) x := by
  rcases hparts (r.enter ty) (r'.enter ty) (hr.enter ty) with ⟨r₁, hout⟩ | ⟨n, x, hx, hagree⟩
  · exact .inl ⟨_, resolveIn_of_breaks hk hp hout⟩
  right
  cases hm : p.parts.mapM (·.obtain ((ofModules ms att).resolver fuel)) (r.enter ty) with
  | error e r₁ =>
    rw [hm] at hagree
    obtain ⟨r₁', rfl, -⟩ := hagree.of_error
    refine ⟨n, _, fun k hk => resolveIn_of_breaks hk' hp' (hx k hk), ?_⟩
    rw [resolveIn_of_breaks hk hp hm]
    exact ⟨rfl, trivial⟩
  | ok cs r₁ =>
    rw [hm] at hagree
    obtain ⟨cs', r₁', rfl, -, halike⟩ := hagree.of_ok
    obtain ⟨tallies, hcount⟩ := p.exists_counts r₁
    obtain ⟨tallies', hcount'⟩ := p'.exists_counts r₁'
    have hleft := resolveIn_of_obtains hk hp hm hcount (find?_of_mapM hr.fresh hm)
    have hright (k : Nat) (hn : k ≥ n) :=
      resolveIn_of_obtains hk' hp' (hx k hn) hcount' (find?_of_mapM hr.fresh' (hx k hn))
    have hright₀ := hright n (Nat.le_refl n)
    refine ⟨n, _, hright, ?_⟩
    rw [hleft]
    refine ⟨trivial, (fresh_of_resolveIn hleft).2 hr.fresh, (fresh_of_resolveIn hright₀).2 hr.fresh', ?_,
      fun t ht => ?_⟩
    · rw [(extends_of_resolveIn hleft).inFlight, (extends_of_resolveIn hright₀).inFlight, hr.inFlight]
    · rw [finished_finish, finished_finish, halike.finished t ht]

/-- A resolution follows the one by modules with the same needs, among other finished types. -/
private theorem follows_resolveIn (hms : SameNeeds att ms ms') (fuel : Nat) : ∀ ty : TypeRef,
    Follows (Alike ms att) (fun _ _ => True) (fun _ _ => True) ((ofModules ms att).resolveIn fuel ty) fun k =>
      (ofModules ms' att).resolveIn k ty := by
  induction fuel with
  | zero => exact fun ty => .outOfFuel
  | succ fuel ih =>
    intro ty
    by_cases hres : Resolvable ms att ty
    · intro r r' hr
      cases hrun : (ofModules ms att).resolveIn (fuel + 1) ty r with
      | error e r₁ =>
        obtain rfl := (outOfFuel_of_resolveIn hrun hr.fresh).2 hres
        exact .inl ⟨r₁, rfl⟩
      | ok c r₁ =>
        obtain ⟨n, c', r₁', hn⟩ := (hms.resolvable hres).resolveIn hr.fresh'
        exact .inr ⟨n, .ok c' r₁', hn, trivial, hr.resolved hms hres hrun (hn n (Nat.le_refl n))⟩
    -- a type that is not resolvable is known on both sides or on neither
    · refine .of_succ fun r r' hr => ?_
      cases hk : known? r ty with
      | some c =>
        obtain ⟨c', hk'⟩ := Option.isSome_iff_exists.1 ((hr.known hres).1 (by rw [hk]; rfl))
        refine .inr ⟨0, .ok c' r', fun k _ => resolveIn_of_known hk' k, ?_⟩
        rw [resolveIn_of_known hk]
        exact ⟨trivial, hr⟩
      | none =>
        have hk' : known? r' ty = none := by
          rw [← Option.not_isSome_iff_eq_none, ← hr.known hres, hk]
          exact Bool.false_ne_true
        cases hp : recipe? ms ty with
        | none =>
          have htrace : (r.enter ty).context.trace = (r'.enter ty).context.trace :=
            congrArg List.reverse (hr.enter ty).inFlight
          refine .inr ⟨0, _, fun k _ => resolveIn_of_unsupported hk' (hms.recipe?_eq_none hp) k, ?_⟩
          rw [resolveIn_of_unsupported hk hp, htrace]
          exact ⟨rfl, trivial⟩
        | some p =>
          obtain ⟨p', hp', hneeded⟩ := hms.exists_recipe? hp
          exact follows_construction hr hk hk' hp hp' (follows_parts ih hneeded)

/-- The stores of two registries, one for each list of modules. -/
def BothHealthy (ms ms' : List AdapterModule) (att : List (String × Converter)) (s s' : Store) : Prop :=
  Healthy ms att s ∧ Healthy ms' att s'

/-- A resolution from outside follows the one by modules with the same needs, in another store. -/
theorem follows_resolve_needs (hms : SameNeeds att ms ms') (fuel : Nat) (ty : TypeRef) :
    Follows (BothHealthy ms ms' att) (BothHealthy ms ms' att) (fun _ _ => True)
      ((ofModules ms att).resolve fuel ty) fun k =>
      (ofModules ms' att).resolve k ty := by
  rintro s s' ⟨hs, hs'⟩
  by_cases hres : Resolvable ms att ty
  · cases hrun : (ofModules ms att).resolve fuel ty s with
    | error e s₁ =>
      obtain ⟨r, hr, -⟩ := resolve_error hrun
      obtain rfl := (outOfFuel_of_resolveIn hr hs.fresh).2 hres
      exact .inl ⟨s₁, rfl⟩
    | ok c s₁ =>
      obtain ⟨n, c', s₁', hn⟩ := (hms.resolvable hres).resolve hs'
      exact .inr ⟨n, .ok c' s₁', hn, trivial, hs.resolve hrun, hs'.resolve (hn n (Nat.le_refl n))⟩
  · have hres' : ¬Resolvable ms' att ty := hres ∘ hms.symm.resolvable
    have hcached {ms : List AdapterModule} {s : Store} (hs : Healthy ms att s) {t : TypeRef}
        (ht : ¬Resolvable ms att t) :
        s.cached? t = none := Option.not_isSome_iff_eq_none.1 fun hty => ht (hs.resolvable hty)
    have hrun {ms : List AdapterModule} {s : Store} (hs : s.cached? ty = none) {k : Nat} {e : Error} {r : Resolution}
        (hr : (ofModules ms att).resolveIn k ty ⟨s, .empty⟩ = .error e r) :
        (ofModules ms att).resolve k ty s = .error e r.store := by
      simp only [Registry.resolve, hs, hr]
    have halike : Alike ms att ⟨s, .empty⟩ ⟨s', .empty⟩ := by
      refine ⟨hs.fresh, hs'.fresh, rfl, fun t ht => ?_⟩
      have hnot {s : Store} (hs : s.cached? t = none) : ¬Finished ⟨s, .empty⟩ t := by
        rintro (h | h)
        · rw [hs] at h
          cases h
        · cases h
      exact iff_of_false (hnot (hcached hs ht)) (hnot (hcached hs' (ht ∘ hms.symm.resolvable)))
    rcases follows_resolveIn hms fuel ty _ _ halike with ⟨r, hout⟩ | ⟨n, x, hx, hagree⟩
    · exact .inl ⟨_, hrun (hcached hs hres) hout⟩
    · cases hleft : (ofModules ms att).resolveIn fuel ty ⟨s, .empty⟩ with
      | ok c r =>
        have hok :=
          (resolve_ok_iff hs ty).1 ⟨fuel, _, _, by simp only [Registry.resolve, hcached hs hres, hleft]; rfl⟩
        exact absurd hok hres
      | error e r =>
        rw [hleft] at hagree
        obtain ⟨r', rfl, -⟩ := hagree.of_error
        have hright (k : Nat) (hk : k ≥ n) := hrun (hcached hs' hres') (hx k hk)
        refine .inr ⟨n, .error e r'.store, hright, ?_⟩
        rw [hrun (hcached hs hres) hleft]
        exact ⟨rfl, hs.resolve_error (hrun (hcached hs hres) hleft), hs'.resolve_error (hright n (Nat.le_refl n))⟩

/-- A resolution from outside follows the same one in another store. -/
theorem follows_resolve (fuel : Nat) (ty : TypeRef) :
    Follows (BothHealthy ms ms att) (BothHealthy ms ms att) (fun _ _ => True)
      ((ofModules ms att).resolve fuel ty) fun k =>
      (ofModules ms att).resolve k ty := follows_resolve_needs (.refl ms) fuel ty

end Registry

end Marshal
