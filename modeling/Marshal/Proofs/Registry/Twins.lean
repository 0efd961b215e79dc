import Marshal.Proofs.Adapter.Bare
import Marshal.Proofs.Registry.History

/-!
# Twin registries

Two lists of modules with the same recipes for all types, but for the names in the adapters and the positions of the
modules, make registries that do the same step by step: they give out the same numbers, and what they cache are the
same converters up to names.  No converter reads or writes by names.
-/

namespace Marshal

open Effect

/-! ### Converters without names -/

namespace Converter

mutual

/-- The converter without the names in its adapters. -/
def bare : Converter → Converter
  | native id kind => native id kind
  | dynamic id linked => dynamic id linked
  | codec id c bindings => codec id c (bareList bindings)
  | enum id a => enum id a
  | struct id a target bindings linked => struct id a.bare target (bareList bindings) linked
  | placeholder id ty => placeholder id ty
  | custom id x => custom id x

def bareList : List Converter → List Converter
  | [] => []
  | c :: cs => c.bare :: bareList cs

end

/-- The same converter but for the names. -/
def SameBare (c c' : Converter) : Prop := c.bare = c'.bare

private theorem bareList_eq_iff :
    ∀ {cs cs' : List Converter}, bareList cs = bareList cs' ↔ List.Forall₂ SameBare cs cs'
  | [], [] => by simp
  | [], _ :: _ | _ :: _, [] => by simp [bareList]
  | c :: cs, c' :: cs' => by
    simp only [bareList, List.cons.injEq, List.forall₂_cons, bareList_eq_iff]
    rfl

/-- The same placeholder, or converters of one form. -/
private theorem SameBare.form {c c' : Converter} (h : SameBare c c') :
    (∃ id ty, c = .placeholder id ty ∧ c' = .placeholder id ty) ∨ Form SameBare c c' := by
  unfold SameBare at h
  cases c with
  | native id kind =>
    cases c' <;> simp only [bare, reduceCtorEq, native.injEq] at h
    rw [h.1, h.2]
    exact .inr (.native ..)
  | dynamic id linked =>
    cases c' <;> simp only [bare, reduceCtorEq, dynamic.injEq] at h
    rw [h.1, h.2]
    exact .inr (.dynamic ..)
  | codec id k bs =>
    cases c' <;> simp only [bare, reduceCtorEq, codec.injEq] at h
    obtain ⟨rfl, rfl, hbs⟩ := h
    exact .inr (.codec _ _ _ (bareList_eq_iff.1 hbs))
  | enum id a =>
    cases c' <;> simp only [bare, reduceCtorEq, enum.injEq] at h
    rw [h.1, h.2]
    exact .inr (.enum ..)
  | struct id a target bs linked =>
    cases c' with
    | struct id' a' target' bs' linked' =>
      simp only [bare, struct.injEq] at h
      obtain ⟨rfl, ha, rfl, hbs, rfl⟩ := h
      have hwrite : a.write = a'.write := by
        show a.bare.write = a'.bare.write
        rw [ha]
      have hread : a.read = a'.read := by
        show a.bare.read = a'.bare.read
        rw [ha]
      exact .inr (.struct id id hwrite hread target linked (bareList_eq_iff.1 hbs))
    | _ => simp only [bare, reduceCtorEq] at h
  | placeholder id ty =>
    cases c' <;> simp only [bare, reduceCtorEq, placeholder.injEq] at h
    obtain ⟨rfl, rfl⟩ := h
    exact .inl ⟨id, ty, rfl, rfl⟩
  | custom id x =>
    cases c' <;> simp only [bare, reduceCtorEq, custom.injEq] at h
    obtain ⟨rfl, rfl⟩ := h
    exact .inr (.custom ..)

end Converter

open Converter (SameBare)

/-! ### Recipes without names -/

namespace Recipe

/-- The recipe without the names in its adapter and the positions of the module and the adapter. -/
def bare : Recipe → Recipe
  | struct _ a target args => struct 0 a.bare target args
  | enum _ _ a => enum 0 0 a
  | p => p

private theorem parts_bare (p : Recipe) : p.bare.parts = p.parts := by
  cases p with
  | struct slot a target args =>
    simp only [bare, parts, StructAdapter.bare, List.map_map]
    congr 1
    funext b
    exact b.part_bare args
  | enum | dynamic | native | list | objectMap | pairMap => rfl

private theorem bare_assemble (p : Recipe) (id : Nat) (cs : List Converter) :
    (p.assemble id cs).bare = p.bare.assemble id (Converter.bareList cs) := by
  cases p <;> rfl

end Recipe

/-! ### Stores -/

/-- The same entries, but for the names in the converters. -/
def SameEntries {κ : Type} (l l' : List (κ × Converter)) : Prop :=
  List.Forall₂ (fun p q => p.1 = q.1 ∧ SameBare p.2 q.2) l l'

namespace SameEntries

variable {κ : Type} {l l' l'' : List (κ × Converter)}

private theorem symm (h : SameEntries l l') : SameEntries l' l := h.flip.imp fun _ _ hpq => ⟨hpq.1.symm, hpq.2.symm⟩

private theorem trans (h : SameEntries l l') (h' : SameEntries l' l'') : SameEntries l l'' := by
  induction h generalizing l'' with
  | nil => exact h'
  | cons hpq _ ih =>
    cases h' with
    | cons hqr h' => exact .cons ⟨hpq.1.trans hqr.1, hpq.2.trans hqr.2⟩ (ih h')

private theorem keys (h : SameEntries l l') : l.map (·.1) = l'.map (·.1) := by
  induction h with
  | nil => rfl
  | cons hpq _ ih => rw [List.map_cons, List.map_cons, hpq.1, ih]

private theorem snoc (h : SameEntries l l') (k : κ) {c c' : Converter} (hc : SameBare c c') :
    SameEntries (l ++ [(k, c)]) (l' ++ [(k, c')]) := List.rel_append h (.cons ⟨rfl, hc⟩ .nil)

private theorem tail (h : SameEntries l l') : SameEntries l.tail l'.tail := by
  cases h with
  | nil => exact .nil
  | cons _ h => exact h

private theorem lookup [BEq κ] (h : SameEntries l l') (k : κ) :
    (l.lookup k = none ∧ l'.lookup k = none) ∨ ∃ c c', l.lookup k = some c ∧ l'.lookup k = some c' ∧
      SameBare c c' := by
  induction h with
  | nil => exact .inl ⟨rfl, rfl⟩
  | @cons p q l l' hpq _ ih =>
    obtain ⟨x, c⟩ := p
    obtain ⟨_, c'⟩ := q
    obtain ⟨rfl, hc⟩ := hpq
    simp only [List.lookup_cons]
    cases k == x with
    | true => exact .inr ⟨c, c', rfl, rfl, hc⟩
    | false => exact ih

end SameEntries

/-- The stores of twin registries at the same stage of their lives; the modules' counts do not matter. -/
structure Store.Twins (s s' : Store) : Prop where
  nextId : s.nextId = s'.nextId
  alive : s.alive = s'.alive
  delegates : SameEntries s.delegates s'.delegates
  cache : SameEntries s.cache s'.cache

namespace Store.Twins

variable {s s' s'' : Store}

private theorem empty : Store.empty.Twins .empty := ⟨rfl, rfl, .nil, .nil⟩

private theorem symm (h : s.Twins s') : s'.Twins s := ⟨h.nextId.symm, h.alive.symm, h.delegates.symm, h.cache.symm⟩

private theorem trans (h : s.Twins s') (h' : s'.Twins s'') : s.Twins s'' :=
  ⟨h.nextId.trans h'.nextId, h.alive.trans h'.alive, h.delegates.trans h'.delegates, h.cache.trans h'.cache⟩

private theorem cached (h : s.Twins s') (ty : TypeRef) : (s.cached? ty = none ∧ s'.cached? ty = none) ∨
    ∃ c c', s.cached? ty = some c ∧ s'.cached? ty = some c' ∧ SameBare c c' := h.cache.lookup ty

private theorem commit (h : s.Twins s') (ty : TypeRef) {c c' : Converter} (hc : SameBare c c') :
    (s.commit (ty, c)).Twins (s'.commit (ty, c')) where
  nextId := h.nextId
  alive := h.alive
  delegates := h.delegates
  cache := by
    unfold Store.commit Table.enter Table.get?
    rcases h.cache.lookup ty with ⟨hn, hn'⟩ | ⟨d, d', hd, hd', -⟩
    · simp only [hn, hn']
      exact h.cache.snoc ty hc
    · simp only [hd, hd']
      exact h.cache

private theorem commitAll {entries entries' : List (TypeRef × Converter)} (h : s.Twins s')
    (hentries : SameEntries entries entries') :
    (Registry.commitAll s entries).Twins (Registry.commitAll s' entries') := by
  induction hentries generalizing s s' with
  | nil => exact h
  | @cons p q _ _ hpq _ ih =>
    obtain ⟨ty, c⟩ := p
    obtain ⟨_, c'⟩ := q
    obtain ⟨rfl, hc⟩ := hpq
    exact ih (h.commit ty hc)

private theorem getD (h : s.Twins s') (ty : TypeRef) {c c' : Converter} (hc : SameBare c c') :
    SameBare ((s.cached? ty).getD c) ((s'.cached? ty).getD c') := by
  rcases h.cached ty with ⟨hn, hn'⟩ | ⟨d, d', hd, hd', hsame⟩
  · rw [hn, hn']
    exact hc
  · rw [hd, hd']
    exact hsame

end Store.Twins

structure Resolution.Twins (r r' : Resolution) : Prop where
  store : r.store.Twins r'.store
  inFlight : SameEntries r.context.inFlight r'.context.inFlight
  pending : SameEntries r.context.pending r'.context.pending

namespace Resolution.Twins

variable {r r' : Resolution}

private theorem empty {s s' : Store} (h : s.Twins s') : Twins ⟨s, .empty⟩ ⟨s', .empty⟩ := ⟨h, .nil, .nil⟩

private theorem allot (h : r.Twins r') : r.allot.Twins r'.allot where
  store := ⟨congrArg (· + 1) h.store.nextId, h.store.alive, h.store.delegates, h.store.cache⟩
  inFlight := h.inFlight
  pending := h.pending

private theorem enter (h : r.Twins r') (ty : TypeRef) : (r.enter ty).Twins (r'.enter ty) where
  store := h.allot.store
  inFlight := .cons ⟨rfl, by rw [h.store.nextId]; rfl⟩ h.inFlight
  pending := h.pending

private theorem exit (h : r.Twins r') : r.exit.Twins r'.exit := ⟨h.store, h.inFlight.tail, h.pending⟩

/-- What is known of a type on the one side is known on the other one. -/
private theorem known (h : r.Twins r') (ty : TypeRef) : (Registry.known? r ty = none ∧ Registry.known? r' ty = none) ∨
    ∃ c c', Registry.known? r ty = some c ∧ Registry.known? r' ty = some c' ∧ SameBare c c' := by
  unfold Registry.known? Store.cached? Context.pending? Context.inFlight? Table.get?
  rcases h.store.cache.lookup ty with ⟨hc, hc'⟩ | ⟨c, c', hc, hc', hsame⟩
  · rw [hc, hc', Option.none_or, Option.none_or]
    rcases h.pending.lookup ty with ⟨hp, hp'⟩ | ⟨c, c', hp, hp', hsame⟩
    · rw [hp, hp', Option.none_or, Option.none_or]
      exact h.inFlight.lookup ty
    · exact .inr ⟨c, c', by rw [hp, Option.some_or], by rw [hp', Option.some_or], hsame⟩
  · exact .inr ⟨c, c', by rw [hc, Option.some_or], by rw [hc', Option.some_or], hsame⟩

end Resolution.Twins

namespace Registry

/-! ### Resolving -/

/-- The two lists of modules have the same recipes but for the names. -/
def SameRecipes (ms ms' : List AdapterModule) : Prop :=
  ∀ ty, (recipe? ms ty).map Recipe.bare = (recipe? ms' ty).map Recipe.bare

private theorem SameRecipes.symm {ms ms' : List AdapterModule} (h : SameRecipes ms ms') : SameRecipes ms' ms :=
  fun ty => (h ty).symm

variable {ms ms' : List AdapterModule} {att : List (String × Converter)}

/-- On twins the one resolution comes to twins of what the other one comes to. -/
abbrev TwinFollows {α : Type} (A : α → α → Prop) (m : ResolveM α) (m' : Nat → ResolveM α) : Prop :=
  Follows Resolution.Twins Resolution.Twins A m m'

private theorem twin_fresh : TwinFollows Eq ResolveM.fresh fun _ => ResolveM.fresh :=
  .of_agree fun _ _ h => ⟨h.store.nextId, h.allot⟩

private theorem twin_enter (ty : TypeRef) : TwinFollows Eq (ResolveM.enter ty) fun _ => ResolveM.enter ty :=
  .of_agree fun _ _ h => ⟨h.store.nextId, h.enter ty⟩

private theorem twin_count (p p' : Recipe) : TwinFollows Eq p.count fun _ => p'.count := by
  refine .of_agree fun r r' h => ?_
  obtain ⟨tallies, hcount⟩ := p.exists_counts r
  obtain ⟨tallies', hcount'⟩ := p'.exists_counts r'
  rw [hcount, hcount']
  exact ⟨rfl, ⟨h.store.nextId, h.store.alive, h.store.delegates, h.store.cache⟩, h.inFlight, h.pending⟩

private theorem twin_leaving {α : Type} {A : α → α → Prop} {m : ResolveM α} {m' : Nat → ResolveM α}
    (h : TwinFollows A m m') : TwinFollows A (ResolveM.leaving m) fun k => ResolveM.leaving (m' k) := by
  intro r r' hr
  rcases h r r' hr with ⟨r₁, hout⟩ | ⟨n, x, hx, hagree⟩
  · exact .inl ⟨r₁, by simp [ResolveM.leaving, hout, Error.breaksOff]⟩
  · cases hm : m r with
    | ok a r₁ =>
      rw [hm] at hagree
      obtain ⟨b, r₁', rfl, hab, htwins⟩ := hagree.of_ok
      refine .inr ⟨n, .ok b r₁'.exit, fun k hk => ?_, ?_⟩
      · simp only [ResolveM.leaving, hx k hk]
        rfl
      · simp only [ResolveM.leaving, hm]
        exact ⟨hab, htwins.exit⟩
    | error e r₁ =>
      rw [hm] at hagree
      obtain ⟨r₁', rfl, htwins⟩ := hagree.of_error
      refine .inr ⟨n, .error e (leave e r₁'), fun k hk => ?_, ?_⟩
      · simp only [ResolveM.leaving, hx k hk]
        rfl
      · simp only [ResolveM.leaving, hm]
        refine ⟨rfl, ?_⟩
        unfold leave
        by_cases hbreaks : e.breaksOff = true
        · rw [if_pos hbreaks, if_pos hbreaks]
          exact htwins
        · rw [if_neg hbreaks, if_neg hbreaks]
          exact htwins.exit

private theorem twin_complete (id : Nat) (ty : TypeRef) {c c' : Converter} (hc : SameBare c c') :
    TwinFollows Eq (ResolveM.complete id ty c) fun _ => ResolveM.complete id ty c' := by
  refine .of_agree fun r r' h => ?_
  unfold ResolveM.complete
  rw [bind_of_ok (get_apply r), bind_of_ok (get_apply r')]
  unfold Delegates.bind Delegates.find?
  rcases h.store.delegates.lookup id with ⟨hn, hn'⟩ | ⟨d, d', hd, hd', -⟩
  · simp only [hn, hn', set_apply]
    exact ⟨rfl, ⟨h.store.nextId, h.store.alive, .cons ⟨rfl, hc⟩ h.store.delegates, h.store.cache⟩, h.inFlight,
      h.pending.snoc ty hc⟩
  · simp only [hd, hd', throw_apply]
    exact ⟨rfl, h⟩

section Resolving

variable (hms : SameRecipes ms ms')

private theorem twin_obtain {fuel : Nat}
    (h : ∀ ty, TwinFollows SameBare ((ofModules ms att).resolveIn fuel ty) fun k =>
      (ofModules ms' att).resolveIn k ty) (part : Part) :
    TwinFollows SameBare (part.obtain ((ofModules ms att).resolver fuel)) fun k =>
      part.obtain ((ofModules ms' att).resolver k) := by
  cases part with
  | resolved ty => exact h ty
  | native kind => exact twin_fresh.bind fun id id' hid => .pure (by rw [hid]; rfl)
  | attached path =>
    have hatt : (ofModules ms' att).findAttached path = (ofModules ms att).findAttached path := rfl
    simp only [Part.obtain, resolver, hatt]
    unfold findAttached
    cases (ofModules ms att).attached? path with
    | none => exact .throw (fun _ _ => id) _
    | some c => exact .pure rfl

include hms

private theorem twin_create {fuel : Nat}
    (h : ∀ ty, TwinFollows SameBare ((ofModules ms att).resolveIn fuel ty) fun k =>
      (ofModules ms' att).resolveIn k ty) (ty : TypeRef) :
    TwinFollows SameBare ((ofModules ms att).create ((ofModules ms att).resolveIn fuel) ty) fun k =>
      (ofModules ms' att).create ((ofModules ms' att).resolveIn k) ty := by
  simp only [create_eq]
  have hbare := hms ty
  cases hp : recipe? ms ty with
  | none =>
    rw [hp, Option.map_none, eq_comm, Option.map_eq_none_iff] at hbare
    simp only [hbare]
    refine .of_agree fun r r' hr => ?_
    rw [bind_of_ok (get_apply r), bind_of_ok (get_apply r'), throw_apply, throw_apply]
    have htrace : r.context.trace = r'.context.trace := congrArg List.reverse hr.inFlight.keys
    exact ⟨by rw [htrace], hr⟩
  | some p =>
    rw [hp, Option.map_some, eq_comm] at hbare
    obtain ⟨p', hp', hpp'⟩ := Option.map_eq_some_iff.1 hbare
    have hparts : p'.parts = p.parts := by rw [← p'.parts_bare, ← p.parts_bare, hpp']
    simp only [hp', Recipe.build, hparts]
    refine Follows.bind (.mapM p.parts fun part _ => twin_obtain h part) fun cs cs' hcs => ?_
    refine (twin_count p p').bind fun _ _ _ => twin_fresh.bind fun id id' hid => .pure ?_
    have hcs' : Converter.bareList cs = Converter.bareList cs' := Converter.bareList_eq_iff.2 hcs
    show (p.assemble id cs).bare = (p'.assemble id' cs').bare
    rw [Recipe.bare_assemble, Recipe.bare_assemble, hpp', hcs', hid]

/-- A resolution in the one registry comes to the twin of what it comes to in the other one. -/
private theorem twin_resolveIn (fuel : Nat) :
    ∀ ty, TwinFollows SameBare ((ofModules ms att).resolveIn fuel ty) fun k =>
    (ofModules ms' att).resolveIn k ty := by
  induction fuel with
  | zero => exact fun ty => .outOfFuel
  | succ fuel ih =>
    intro ty
    refine .of_succ ?_
    simp only [resolveIn]
    refine Follows.get.bind fun r r' hr => ?_
    rcases hr.known ty with ⟨hk, hk'⟩ | ⟨c, c', hk, hk', hsame⟩
    · simp only [hk, hk']
      refine (twin_enter ty).bind fun id id' hid => ?_
      refine (twin_leaving (twin_create hms ih ty)).bind fun c c' hc => ?_
      subst hid
      exact (twin_complete id ty hc).bind fun _ _ _ => .pure hc
    · simp only [hk, hk']
      exact .pure hsame

/-- A resolution from outside in the one registry comes to the twin of what it comes to in the other one. -/
private theorem twin_resolve (fuel : Nat) (ty : TypeRef) :
    Follows Store.Twins Store.Twins SameBare ((ofModules ms att).resolve fuel ty) fun k =>
      (ofModules ms' att).resolve k ty := by
  intro s s' hs
  rcases hs.cached ty with ⟨hc, hc'⟩ | ⟨c, c', hc, hc', hsame⟩
  · have hrun : TwinFollows SameBare ((ofModules ms att).resolveIn fuel ty) fun k =>
        (ofModules ms' att).resolveIn k ty :=
      twin_resolveIn hms fuel ty
    rcases hrun _ _ (.empty hs) with ⟨r, hout⟩ | ⟨n, x, hx, hagree⟩
    · exact .inl ⟨r.store, by simp only [resolve, hc, hout]⟩
    · cases hrun : (ofModules ms att).resolveIn fuel ty ⟨s, .empty⟩ with
      | error e r =>
        rw [hrun] at hagree
        obtain ⟨r', rfl, htwins⟩ := hagree.of_error
        refine .inr ⟨n, .error e r'.store, fun k hk => by simp only [resolve, hc', hx k hk], ?_⟩
        simp only [resolve, hc, hrun]
        exact ⟨rfl, htwins.store⟩
      | ok c r =>
        rw [hrun] at hagree
        obtain ⟨c', r', rfl, hsame, htwins⟩ := hagree.of_ok
        have hcommit := htwins.store.commitAll htwins.pending
        let committed := commitAll r'.store r'.context.pending
        refine .inr ⟨n, .ok ((committed.cached? ty).getD c') committed, fun k hk => ?_, ?_⟩
        · simp only [resolve, hc', hx k hk]
          rfl
        · simp only [resolve, hc, hrun]
          exact ⟨hcommit.getD ty hsame, hcommit⟩
  · refine .inr ⟨0, .ok c' s', fun k _ => by simp only [resolve, hc'], ?_⟩
    simp only [resolve, hc]
    exact ⟨hsame, hs⟩

private theorem twin_resolveIfAlive (fuel : Nat) (ty : TypeRef) :
    Follows Store.Twins Store.Twins SameBare ((ofModules ms att).resolveIfAlive fuel ty) fun k =>
      (ofModules ms' att).resolveIfAlive k ty := by
  unfold resolveIfAlive
  refine Follows.get.bind fun s s' hs => ?_
  simp only [hs.alive]
  exact .ite (twin_resolve hms fuel ty) (.throw (fun _ _ => id) _)

end Resolving

/-! ### Reading and writing -/

/-- Converters that are the same but for the names read the same, if the bound placeholders do. -/
private theorem twin_read {ds ds' : Delegates} (hds : SameEntries ds ds') (fuel : Nat) :
    ∀ c c' : Converter, SameBare c c' → ReadFollows (c.read ds fuel) fun k => c'.read ds' k := by
  induction fuel with
  | zero => exact fun c c' _ => Follows.outOfFuel
  | succ fuel ih =>
    intro c c' h
    refine Follows.of_succ ?_
    rcases h.form with ⟨id, ty, rfl, rfl⟩ | hform
    · unfold Converter.read Delegates.find?
      rcases hds.lookup id with ⟨hd, hd'⟩ | ⟨d, d', hd, hd', hsame⟩
      · simp only [hd, hd']
        exact ReadFollows.refl _
      · simp only [hd, hd']
        exact ih d d' hsame
    · exact hform.follows_read ih

/-- Converters that are the same but for the names write the same. -/
private theorem twin_write (hms : SameRecipes ms ms') (fuel : Nat) : ∀ c c' : Converter, SameBare c c' → ∀ v,
    WriteFollows Store.Twins (c.write (ofModules ms att) fuel v) fun k => c'.write (ofModules ms' att) k v := by
  induction fuel with
  | zero => exact fun c c' _ v => Follows.outOfFuel
  | succ fuel ih =>
    intro c c' h v
    refine Follows.of_succ ?_
    rcases h.form with ⟨id, ty, rfl, rfl⟩ | hform
    · simp only [Converter.write]
      refine Follows.get.bind fun w w' hw => ?_
      unfold Delegates.find?
      rcases hw.2.delegates.lookup id with ⟨hd, hd'⟩ | ⟨d, d', hd, hd', hsame⟩
      · simp only [hd, hd']
        exact WriteFollows.throw _
      · simp only [hd, hd']
        exact ih d d' hsame v
    · refine hform.follows_write ih (fun ty v => ?_) v
      have hresolve : Follows (Beside Store.Twins) (Beside Store.Twins) SameBare
          (WriteM.registry ((ofModules ms att).resolveIfAlive fuel ty)) fun k =>
            WriteM.registry ((ofModules ms' att).resolveIfAlive k ty) := (twin_resolveIfAlive hms fuel ty).registry
      exact hresolve.bind fun c c' hc => ih c c' hc (some v)

/-! ### What is seen of twin registries -/

/-- New, the two registries do the same for the type: both resolve it or none does, they have the same faults, and
what the converter of the one reads and writes the converter of the other one reads and writes. -/
structure ActsAs (reg reg' : Registry) (ty : TypeRef) : Prop where
  resolves : (∃ fuel c s, reg.resolve fuel ty .empty = .ok c s) ↔ ∃ fuel c s, reg'.resolve fuel ty .empty = .ok c s
  faults : ∀ e, e ≠ .outOfFuel →
    ((∃ fuel s, reg.resolve fuel ty .empty = .error e s) ↔ ∃ fuel s, reg'.resolve fuel ty .empty = .error e s)
  reads : ∀ {fuel c s fuel' c' s'}, reg.resolve fuel ty .empty = .ok c s → reg'.resolve fuel' ty .empty = .ok c' s' →
    ∀ text, SameAnswers (fun k => c.fromJson s.delegates k text) fun k => c'.fromJson s'.delegates k text
  writes : ∀ {fuel c s fuel' c' s'}, reg.resolve fuel ty .empty = .ok c s → reg'.resolve fuel' ty .empty = .ok c' s' →
    ∀ v, SameAnswers (fun k => c.text reg k v s) fun k => c'.text reg' k v s'

private theorem twin_of_resolve (hms : SameRecipes ms ms') {fuel : Nat} {ty : TypeRef} {c : Converter} {s : Store}
    (h : (ofModules ms att).resolve fuel ty .empty = .ok c s) :
    ∃ n c' s', (∀ k ≥ n, (ofModules ms' att).resolve k ty .empty = .ok c' s') ∧ SameBare c c' ∧ s.Twins s' := by
  have hresolve : Follows Store.Twins Store.Twins SameBare ((ofModules ms att).resolve fuel ty) fun k =>
      (ofModules ms' att).resolve k ty := twin_resolve hms fuel ty
  rcases hresolve .empty .empty .empty with ⟨s', hout⟩ | ⟨n, x, hx, hagree⟩
  · rw [h] at hout
    cases hout
  · rw [h] at hagree
    obtain ⟨c', s', rfl, hsame, htwins⟩ := hagree.of_ok
    exact ⟨n, c', s', hx, hsame, htwins⟩

private theorem twin_of_resolve_error (hms : SameRecipes ms ms') {fuel : Nat} {ty : TypeRef} {e : Error} {s : Store}
    (he : e ≠ .outOfFuel) (h : (ofModules ms att).resolve fuel ty .empty = .error e s) :
    ∃ fuel' s', (ofModules ms' att).resolve fuel' ty .empty = .error e s' := by
  have hresolve : Follows Store.Twins Store.Twins SameBare ((ofModules ms att).resolve fuel ty) fun k =>
      (ofModules ms' att).resolve k ty := twin_resolve hms fuel ty
  rcases hresolve .empty .empty .empty with ⟨s', hout⟩ | ⟨n, x, hx, hagree⟩
  · rw [h] at hout
    cases hout
    exact absurd rfl he
  · rw [h] at hagree
    obtain ⟨s', rfl, -⟩ := hagree.of_error
    exact ⟨n, s', hx n (Nat.le_refl n)⟩

/-- Any two converters that twin registries give out for a type are the same but for the names. -/
private theorem twin_converters (hms : SameRecipes ms ms') {fuel fuel' : Nat} {ty : TypeRef} {c c' : Converter}
    {s s' : Store} (h : (ofModules ms att).resolve fuel ty .empty = .ok c s)
    (h' : (ofModules ms' att).resolve fuel' ty .empty = .ok c' s') : SameBare c c' ∧ s.Twins s' := by
  -- both of them are the same as what the second registry gives out with enough fuel for either
  have hself : SameRecipes ms' ms' := fun _ => rfl
  obtain ⟨n, d, t, hd, hcd, hst⟩ := twin_of_resolve hms h
  obtain ⟨n', d', t', hd', hcd', hst'⟩ := twin_of_resolve hself h'
  have heq := (hd (max n n') (Nat.le_max_left ..)).symm.trans (hd' (max n n') (Nat.le_max_right ..))
  cases heq
  exact ⟨Eq.trans hcd (Eq.symm hcd'), hst.trans hst'.symm⟩

private theorem twin_fromJson {c c' : Converter} {s s' : Store} (hc : SameBare c c') (hs : s.Twins s')
    (text : String) : AnswersAs (fun k => c.fromJson s.delegates k text) fun k => c'.fromJson s'.delegates k text :=
  .of_follows_read (fun fuel => twin_read hs.delegates fuel c c' hc) text

private theorem twin_text (hms : SameRecipes ms ms') {c c' : Converter} {s s' : Store} (hc : SameBare c c')
    (hs : s.Twins s') (v : Option Value) :
    AnswersAs (fun k => c.text (ofModules ms att) k v s) fun k => c'.text (ofModules ms' att) k v s' :=
  .of_follows_write (fun fuel => twin_write hms fuel c c' hc v) hs

/-- Registries of modules with the same recipes do the same for every type. -/
theorem SameRecipes.actsAs (hms : SameRecipes ms ms') (ty : TypeRef) :
    ActsAs (ofModules ms att) (ofModules ms' att) ty where
  resolves := by
    have hother {ms ms' : List AdapterModule} (hms : SameRecipes ms ms') :
        (∃ fuel c s, (ofModules ms att).resolve fuel ty .empty = .ok c s) →
          ∃ fuel c s, (ofModules ms' att).resolve fuel ty .empty = .ok c s := by
      rintro ⟨fuel, c, s, h⟩
      obtain ⟨n, c', s', h', -⟩ := twin_of_resolve hms h
      exact ⟨n, c', s', h' n (Nat.le_refl n)⟩
    exact ⟨hother hms, hother hms.symm⟩
  faults e he := by
    constructor
    · rintro ⟨fuel, s, h⟩
      exact twin_of_resolve_error hms he h
    · rintro ⟨fuel, s, h⟩
      exact twin_of_resolve_error hms.symm he h
  reads h h' text := by
    obtain ⟨hc, hs⟩ := twin_converters hms h h'
    exact ⟨twin_fromJson hc hs text, twin_fromJson hc.symm hs.symm text⟩
  writes h h' v := by
    obtain ⟨hc, hs⟩ := twin_converters hms h h'
    exact ⟨twin_text hms hc hs v, twin_text hms.symm hc.symm hs.symm v⟩

end Registry

end Marshal
