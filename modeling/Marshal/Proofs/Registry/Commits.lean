import Marshal.Proofs.Registry.Bookkeeping
import Marshal.Proofs.Registry.Termination

/-!
# What a resolution commits

A resolution goes depth first through the types that a type needs, and three tables keep it from constructing one of
them twice: the cache, the types finished before and the types under construction.  So a successful resolution
finishes exactly the types that were not cached, each of them once (`Finishes`), and a call from outside caches them
all or, if it fails, none (`resolve_commits`).
-/

namespace Marshal

open Effect

/-! ### Counting constructions -/

/-- The module that notes a construction by the recipe. -/
def Recipe.slot? : Recipe → Option Nat
  | struct slot .. | enum slot .. => some slot
  | dynamic | native _ | list .. | objectMap .. | pairMap .. => none

private theorem lookup_filter_ne {slot slot' : Nat} (h : slot' ≠ slot) (l : List (Nat × Tally)) :
    (l.filter (·.1 != slot)).lookup slot' = l.lookup slot' := by
  induction l with
  | nil => rfl
  | cons e l ih =>
    by_cases he : e.1 = slot
    · have hne : (slot' == e.1) = false := by simpa [he] using h
      rw [List.filter_cons_of_neg (by simp [he]), ih, List.lookup_cons, hne]
    · rw [List.filter_cons_of_pos (by simp [he]), List.lookup_cons, List.lookup_cons, ih]

private theorem Store.tally_setTally (s : Store) (slot slot' : Nat) (t : Tally) :
    (s.setTally slot t).tally slot' = if slot' = slot then t else s.tally slot' := by
  by_cases h : slot' = slot
  · simp [Store.tally, Store.setTally, h]
  · simp only [Store.tally, Store.setTally, List.lookup_cons, beq_false_of_ne h, lookup_filter_ne h, if_neg h]

private theorem constructed_setTally (s : Store) (slot slot' n : Nat) (f : Tally → Tally)
    (hf : ∀ t, (f t).constructed = t.constructed + n) :
    ((s.setTally slot (f (s.tally slot))).tally slot').constructed =
      (s.tally slot').constructed + if slot = slot' then n else 0 := by
  rw [Store.tally_setTally]
  by_cases h : slot' = slot
  · subst h
    rw [if_pos rfl, if_pos rfl, hf]
  · rw [if_neg h, if_neg (Ne.symm h), Nat.add_zero]

/-- A construction is noted once, by the module whose recipe it follows. -/
private theorem Recipe.Counts.constructed {p : Recipe} {r : Resolution} {tallies : List (Nat × Tally)}
    (h : p.Counts r tallies) (slot : Nat) : (({ r.store with tallies } : Store).tally slot).constructed =
      (r.store.tally slot).constructed + if p.slot? = some slot then 1 else 0 := by
  have hstore (r' : Resolution) (hr : p.count r = .ok ⟨⟩ r') : ({ r.store with tallies } : Store) = r'.store :=
    congrArg Resolution.store (ok_inj.1 (h.symm.trans hr)).2
  have hadd (s : Store) (i : Nat) :=
    constructed_setTally s i slot 1 (fun t => { t with constructed := t.constructed + 1 }) fun _ => rfl
  cases p with
  | struct i =>
    rw [hstore _ rfl]
    simpa [slot?] using hadd r.store i
  | enum i index =>
    rw [hstore _ rfl]
    -- entering the tables of the enumeration changes the count of the same module, but not its constructions
    have htables := constructed_setTally r.store i slot 0
      (fun t => if t.tables.contains index then t else { t with tables := index :: t.tables }) fun t =>
        by split <;> rfl
    refine (hadd _ i).trans ?_
    rw [htables]
    simp [slot?]
  | dynamic | native | list | objectMap | pairMap =>
    rw [hstore _ rfl]
    rfl

namespace Registry

variable {ms : List AdapterModule} {att : List (String × Converter)}

/-! ### What is finished -/

/-- How often the module at a slot has constructed a converter for the entries. -/
def constructedBy (ms : List AdapterModule) (slot : Nat) (entries : List (TypeRef × Converter)) : Nat :=
  entries.countP fun e => (recipe? ms e.1).bind Recipe.slot? == some slot

/-- From `r` to `r'` the types of `new` were finished, in this order: types that were not known before and of which
`N` holds, each constructed once. -/
structure Finishes (ms : List AdapterModule) (N : TypeRef → Prop) (new : List (TypeRef × Converter))
    (r r' : Resolution) : Prop where
  pending : r'.context.pending = r.context.pending ++ new
  nodup : (new.map (·.1)).Nodup
  needed : ∀ t ∈ new.map (·.1), N t
  unknown : ∀ t ∈ new.map (·.1), known? r t = none
  delegates : r'.store.delegates.map (·.2) = (new.map (·.2)).reverse ++ r.store.delegates.map (·.2)
  constructed : ∀ slot, (r'.store.tally slot).constructed = (r.store.tally slot).constructed +
    constructedBy ms slot new

namespace Finishes

variable {N N' : TypeRef → Prop} {new new' : List (TypeRef × Converter)} {r r₁ r' : Resolution}

theorem refl (r : Resolution) : Finishes ms N [] r r where
  pending := (List.append_nil _).symm
  nodup := List.nodup_nil
  needed := by simp
  unknown := by simp
  delegates := rfl
  constructed _ := rfl

theorem mono (hN : ∀ t, N t → N' t) (h : Finishes ms N new r r') : Finishes ms N' new r r' :=
  { h with needed := fun t ht => hN t (h.needed t ht) }

/-- What is finished is known. -/
private theorem known (h : Finishes ms N new r r') {t : TypeRef} (ht : t ∈ new.map (·.1)) : (known? r' t).isSome := by
  have hlookup : (new.lookup t).isSome := isSome_lookup.2 ht
  rw [known?_isSome, Finished, Context.pending?, h.pending, List.lookup_append, Option.isSome_or, hlookup,
    Bool.or_true]
  exact .inl (.inr rfl)

/-- What is finished later was not finished before. -/
theorem trans (hext : Extends r r₁) (h : Finishes ms N new r r₁) (h' : Finishes ms N new' r₁ r') :
    Finishes ms N (new ++ new') r r' where
  pending := by rw [h'.pending, h.pending, List.append_assoc]
  nodup := by
    rw [List.map_append, List.nodup_append]
    refine ⟨h.nodup, h'.nodup, ?_⟩
    rintro t ht _ ht' rfl
    have hknown := h.known ht
    rw [h'.unknown t ht'] at hknown
    cases hknown
  needed := by
    rw [List.map_append]
    exact List.forall_mem_append.2 ⟨h.needed, h'.needed⟩
  unknown := by
    rw [List.map_append]
    refine List.forall_mem_append.2 ⟨h.unknown, fun t ht => ?_⟩
    by_contra hnone
    have hknown := known?_mono hext (Option.isSome_iff_ne_none.2 hnone)
    rw [h'.unknown t ht] at hknown
    cases hknown
  delegates := by rw [h'.delegates, h.delegates, List.map_append, List.reverse_append, List.append_assoc]
  constructed slot := by
    rw [h'.constructed, h.constructed, constructedBy, constructedBy, constructedBy, List.countP_append, Nat.add_assoc]

/-- The type under construction comes last. -/
private theorem finish {ty : TypeRef} {p : Recipe} {tallies : List (Nat × Tally)} (hk : known? r ty = none)
    (hp : recipe? ms ty = some p) (hcount : p.Counts r₁ tallies) (hty : N ty) (c : Converter)
    (h : Finishes ms N new (r.enter ty) r₁) :
    Finishes ms N (new ++ [(ty, c)]) r (r₁.finish r.store.nextId ty c tallies) where
  pending := by
    show r₁.context.pending ++ [(ty, c)] = _
    rw [h.pending, List.append_assoc]
    rfl
  nodup := by
    rw [List.map_append, List.nodup_append]
    refine ⟨h.nodup, List.nodup_singleton _, ?_⟩
    rintro t ht _ ht' rfl
    obtain rfl := List.mem_singleton.1 ht'
    have hknown := known?_enter_self r t
    rw [h.unknown t ht] at hknown
    cases hknown
  needed := by
    rw [List.map_append]
    exact List.forall_mem_append.2 ⟨h.needed, by simpa using hty⟩
  unknown := by
    rw [List.map_append]
    refine List.forall_mem_append.2 ⟨fun t ht => ?_, by simpa using hk⟩
    by_cases heq : t = ty
    · exact heq ▸ hk
    · rw [← known?_enter_of_ne r heq]
      exact h.unknown t ht
  delegates := by
    show c :: r₁.store.delegates.map (·.2) = _
    rw [h.delegates, List.map_append, List.reverse_append]
    rfl
  constructed slot := by
    have hcounted : ((r₁.finish r.store.nextId ty c tallies).store.tally slot).constructed =
        (r₁.store.tally slot).constructed + if p.slot? = some slot then 1 else 0 := hcount.constructed slot
    rw [hcounted, h.constructed slot, constructedBy, constructedBy, List.countP_append, Nat.add_assoc]
    simp only [List.countP_singleton, hp, Option.bind_some, beq_iff_eq]
    rfl

end Finishes

/-- A successful resolution of a type finishes types that it needs. -/
def Completes (ms : List AdapterModule) (ty : TypeRef) (r r' : Resolution) : Prop :=
  Extends r r' ∧ ∃ new, Finishes ms (· ∈ closure ms ty) new r r'

/-- A successful resolution of the parts finishes types that the parts need. -/
private theorem Obtains.completes {ps : List Part} {cs : List Converter} {r r' : Resolution}
    (h : Obtains ms att (fun ty r _ r' => Completes ms ty r r') ps r cs r') :
    Extends r r' ∧ ∃ new, Finishes ms (fun t => ∃ d, Part.resolved d ∈ ps ∧ t ∈ closure ms d) new r r' := by
  have htail {p : Part} {ps : List Part} (t : TypeRef) (h : ∃ d, Part.resolved d ∈ ps ∧ t ∈ closure ms d) :
      ∃ d, Part.resolved d ∈ p :: ps ∧ t ∈ closure ms d := by
    obtain ⟨d, hd, ht⟩ := h
    exact ⟨d, List.mem_cons_of_mem _ hd, ht⟩
  induction h with
  | nil r => exact ⟨.refl r, [], .refl r⟩
  | @resolved ty ps c cs r r₁ r' hc _ ih =>
    obtain ⟨hext, new, hnew⟩ := hc
    obtain ⟨hext', new', hnew'⟩ := ih
    refine ⟨hext.trans hext', new ++ new', .trans hext (hnew.mono fun t ht => ?_) (hnew'.mono htail)⟩
    exact ⟨ty, List.mem_cons_self .., ht⟩
  | native _ ih =>
    obtain ⟨hext, new, hnew⟩ := ih
    exact ⟨(extends_allot _).trans hext, new, { hnew.mono htail with }⟩
  | attached _ _ ih =>
    obtain ⟨hext, new, hnew⟩ := ih
    exact ⟨hext, new, hnew.mono htail⟩

theorem completes_of_resolveIn {fuel : Nat} {ty : TypeRef} {c : Converter} {r r' : Resolution}
    (h : (ofModules ms att).resolveIn fuel ty r = .ok c r') : Completes ms ty r r' := by
  refine resolveIn_induction (fun ty r _ r' => Completes ms ty r r') ?_ ?_ fuel ty r c r' h
  · exact fun ty r c _ => ⟨.refl r, [], .refl r⟩
  · intro ty r p cs r₁ tallies hk hp hcs _ hcount
    obtain ⟨hext, new, hnew⟩ := hcs.completes
    refine ⟨extends_finish hext _ tallies, _, (hnew.mono fun t ⟨d, hd, ht⟩ => ?_).finish hk hp hcount .refl _⟩
    exact .head ⟨p, hp, Recipe.mem_deps.2 hd⟩ ht

/-! ### What is committed -/

/-- Entries for types that are not cached, each once, are all added to the cache. -/
private theorem cache_commitAll (entries : List (TypeRef × Converter)) : ∀ s : Store, (entries.map (·.1)).Nodup →
    (∀ t ∈ entries.map (·.1), s.cached? t = none) → (commitAll s entries).cache = s.cache ++ entries := by
  induction entries with
  | nil => exact fun s _ _ => (List.append_nil _).symm
  | cons e entries ih =>
    intro s hnodup hnone
    rw [List.map_cons, List.nodup_cons] at hnodup
    rw [List.map_cons, List.forall_mem_cons] at hnone
    have hone : s.commit e = { s with cache := s.cache ++ [e] } := by
      have hget : s.cache.get? e.1 = none := hnone.1
      simp only [Store.commit, Table.enter, hget]
    have hrest : ∀ t ∈ entries.map (·.1), (s.commit e).cached? t = none := by
      intro t ht
      have hne : t ≠ e.1 := fun heq => hnodup.1 (heq ▸ ht)
      have hold : s.cache.lookup t = none := hnone.2 t ht
      rw [hone, Store.cached?, Table.get?, List.lookup_append, hold, Option.none_or, List.lookup_cons,
        beq_false_of_ne hne]
      rfl
    show (commitAll (s.commit e) entries).cache = _
    rw [ih _ hnodup.2 hrest, hone, List.append_assoc]
    rfl

/-- What a successful resolution of `ty` from outside, with the answer `c`, does to the store of a registry. -/
structure Commits (ms : List AdapterModule) (ty : TypeRef) (s : Store) (c : Converter) (s' : Store) : Prop where
  /-- The type is cached, and everything that it needs. -/
  cached : ∀ t, (s'.cached? t).isSome ↔ (s.cached? t).isSome ∨ t ∈ closure ms ty
  kept : ∀ t d, s.cached? t = some d → s'.cached? t = some d
  answer : s'.cached? ty = some c
  /-- Each type that is cached now and was not before was constructed once: of the placeholders that were bound, one
  for each construction, one stands for its converter, and its module has noted one construction for it. -/
  once : ∃ new, s'.cache = s.cache ++ new ∧ (new.map (·.1)).Nodup ∧
    s'.delegates.map (·.2) = (new.map (·.2)).reverse ++ s.delegates.map (·.2) ∧
    ∀ slot, (s'.tally slot).constructed = (s.tally slot).constructed + constructedBy ms slot new

/-- A resolution from outside starts and ends with no type under construction. -/
private theorem Finishes.cached {N : TypeRef → Prop} {new : List (TypeRef × Converter)} {s : Store} {r : Resolution}
    (h : Finishes ms N new ⟨s, .empty⟩ r) (hext : Extends ⟨s, .empty⟩ r) :
    r.context.pending = new ∧ (commitAll r.store r.context.pending).cache = s.cache ++ new := by
  have hpending : r.context.pending = new := h.pending
  have hcache : r.store.cache = s.cache := hext.cache
  refine ⟨hpending, ?_⟩
  rw [hpending, cache_commitAll new r.store h.nodup, hcache]
  intro t ht
  have hnone := h.unknown t ht
  rw [known?, Option.or_eq_none_iff] at hnone
  rw [Store.cached?, hcache]
  exact hnone.1

/-- A resolution from outside that constructs something commits exactly the types that were missing. -/
private theorem commits_of_resolveIn {s : Store} (hs : CacheClosed ms s) {fuel : Nat} {ty : TypeRef} {c₁ : Converter}
    {r : Resolution} (h : (ofModules ms att).resolveIn fuel ty ⟨s, .empty⟩ = .ok c₁ r) {c : Converter}
    (hc : (commitAll r.store r.context.pending).cached? ty = some c) :
    Commits ms ty s c (commitAll r.store r.context.pending) := by
  obtain ⟨hext, new, hnew⟩ := completes_of_resolveIn h
  obtain ⟨hpending, hcache⟩ := hnew.cached hext
  have hlookup (t : TypeRef) : (commitAll r.store r.context.pending).cached? t = (s.cached? t).or (new.lookup t) := by
    rw [Store.cached?, Table.get?, hcache, List.lookup_append]
    rfl
  have hclosed : CacheClosed ms (commitAll r.store r.context.pending) :=
    cacheClosed_commitAll hext.inFlight ((closed_of_resolveIn h).2.1 hs)
  have hmem (t : TypeRef) (ht : (new.lookup t).isSome) : t ∈ closure ms ty := hnew.needed t (isSome_lookup.1 ht)
  constructor
  case cached =>
    intro t
    constructor
    · intro ht
      rw [hlookup, Option.isSome_or, Bool.or_eq_true] at ht
      exact ht.imp_right (hmem t)
    · rintro (ht | ht)
      · rw [hlookup, Option.isSome_or, ht, Bool.true_or]
      · exact cached_of_mem_closure hclosed (by rw [hc]; rfl) ht
  case kept =>
    intro t d hd
    rw [hlookup, hd, Option.some_or]
  case answer => exact hc
  case once =>
    obtain ⟨cache, hcommit⟩ := commitAll_eq r.context.pending r.store
    refine ⟨new, hcache, hnew.nodup, ?_, fun slot => ?_⟩
    · rw [hcommit]
      exact hnew.delegates
    · rw [hcommit]
      exact hnew.constructed slot

/-- Nothing is committed for a type that is cached. -/
private theorem commits_of_cached {s : Store} (hs : CacheClosed ms s) {ty : TypeRef} {c : Converter}
    (hc : s.cached? ty = some c) : Commits ms ty s c s where
  cached t := by
    refine ⟨.inl, ?_⟩
    rintro (ht | ht)
    · exact ht
    · exact cached_of_mem_closure hs (by rw [hc]; rfl) ht
  kept _ _ hd := hd
  answer := hc
  once := ⟨[], (List.append_nil _).symm, List.nodup_nil, rfl, fun _ => rfl⟩

/-- Whatever was resolved before: a resolution that succeeds commits the type with everything that it needs, and one
that fails commits nothing. -/
theorem resolve_commits {s : Store} {held : List Converter} (hrun : Run (ofModules ms att) s held) (fuel : Nat)
    (ty : TypeRef) :
    (∀ c s', (ofModules ms att).resolve fuel ty s = .ok c s' → Commits ms ty s c s') ∧
      ∀ e s', (ofModules ms att).resolve fuel ty s = .error e s' → s'.cache = s.cache := by
  have hclosed : CacheClosed ms s := frame_cacheClosed.of_run cacheClosed_empty hrun
  constructor
  · intro c s' h
    have hcached := (cacheClosed_of_resolve hclosed h).2
    rcases resolve_ok h with ⟨hc, rfl⟩ | ⟨c₁, r, -, hr, rfl, rfl⟩
    · exact commits_of_cached hclosed hc
    · obtain ⟨c, hc⟩ := Option.isSome_iff_exists.1 hcached
      rw [hc, Option.getD_some]
      exact commits_of_resolveIn hclosed hr hc
  · intro e s' h
    obtain ⟨r, hr, rfl⟩ := resolve_error h
    exact (keeps_of_resolveIn hr).cache

/-- Of two structures that hold each other the resolution of one commits both, each constructed once. -/
theorem resolve_commits_ring :
    ∃ c s, (ofModules [ringModule] ringAttached).resolve 3 (.named "demo::A" []) .empty = .ok c s ∧
    Commits [ringModule] (.named "demo::A" []) .empty c s := by
  obtain ⟨c, s, hresolve⟩ :
      ∃ c s, (ofModules [ringModule] ringAttached).resolve 3 (.named "demo::A" []) .empty = .ok c s :=
    ⟨_, _, rfl⟩
  exact ⟨c, s, hresolve, (resolve_commits .start 3 (.named "demo::A" [])).1 c s hresolve⟩

end Registry

end Marshal
