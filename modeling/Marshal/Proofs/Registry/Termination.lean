import Mathlib.Data.Finset.Card
import Mathlib.Data.Set.Card
import Mathlib.Logic.Relation
import Marshal.Adapter.Generate
import Marshal.Proofs.Converter.Writing

/-!
# Termination of resolution

Fuel is nothing but a bound on the depth of a resolution: more of it never changes an answer.  A nested resolution
works on a type that is not under construction yet, so the types that a type needs, directly or through others, bound
the depth.  If they are finitely many, every resolution of the type returns.
-/

namespace Marshal

open Effect

/-! ### Fuel -/

namespace ResolveM

/-- What `m` does unless it runs out of fuel, `m'` does too. -/
def Within {α : Type} (m m' : ResolveM α) : Prop := ∀ r, (∃ r', m r = .error .outOfFuel r') ∨ m' r = m r

private theorem Within.refl {α : Type} (m : ResolveM α) : Within m m := fun _ => .inr rfl

private theorem Within.trans {α : Type} {m₁ m₂ m₃ : ResolveM α} (h : Within m₁ m₂) (h' : Within m₂ m₃) :
    Within m₁ m₃ := by
  intro r
  rcases h r with hout | heq
  · exact .inl hout
  · rcases h' r with ⟨r', hout⟩ | heq'
    · exact .inl ⟨r', heq ▸ hout⟩
    · exact .inr (heq'.trans heq)

private theorem Within.bind {α β : Type} {m m' : ResolveM α} {f f' : α → ResolveM β} (h : Within m m')
    (hf : ∀ a, Within (f a) (f' a)) : Within (m >>= f) (m' >>= f') := by
  intro r
  rcases h r with ⟨r', hout⟩ | heq
  · exact .inl ⟨r', bind_of_error hout⟩
  · cases hm : m r with
    | error e r' =>
      rw [hm] at heq
      exact .inr ((bind_of_error heq).trans (bind_of_error hm).symm)
    | ok a r' =>
      rw [hm] at heq
      rw [bind_of_ok hm, bind_of_ok heq]
      exact hf a r'

private theorem Within.mapM {α β : Type} {f f' : α → ResolveM β} (h : ∀ a, Within (f a) (f' a)) (l : List α) :
    Within (l.mapM f) (l.mapM f') := by
  induction l with
  | nil => exact .refl _
  | cons a l ih =>
    rw [List.mapM_cons, List.mapM_cons]
    exact (h a).bind fun b => ih.bind fun bs => .refl _

private theorem Within.leaving {α : Type} {m m' : ResolveM α} (h : Within m m') :
    Within (leaving m) (leaving m') := by
  intro r
  rcases h r with ⟨r', hout⟩ | heq
  · left
    exact ⟨r', by simp [ResolveM.leaving, hout, Error.breaksOff]⟩
  · right
    simp only [ResolveM.leaving, heq]

end ResolveM

open ResolveM (Within)

namespace Registry

variable {ms : List AdapterModule} {att : List (String × Converter)}

private theorem within_create {resolve resolve' : TypeRef → ResolveM Converter}
    (h : ∀ ty, Within (resolve ty) (resolve' ty)) (ty : TypeRef) :
    Within ((ofModules ms att).create resolve ty) ((ofModules ms att).create resolve' ty) := by
  rw [create_eq, create_eq]
  cases recipe? ms ty with
  | none => exact .refl _
  | some p =>
    refine (ResolveM.Within.mapM ?_ _).bind fun cs => .refl _
    intro part
    cases part with
    | resolved ty => exact h ty
    | native kind => exact .refl _
    | attached path => exact .refl _

/-- One more unit of fuel changes no answer. -/
private theorem within_succ (fuel : Nat) :
    ∀ ty, Within ((ofModules ms att).resolveIn fuel ty) ((ofModules ms att).resolveIn (fuel + 1) ty) := by
  induction fuel with
  | zero =>
    intro ty r
    exact .inl ⟨r, rfl⟩
  | succ fuel ih =>
    intro ty
    rw [resolveIn, resolveIn]
    refine (ResolveM.Within.refl _).bind fun r => ?_
    cases known? r ty with
    | some c => exact .refl _
    | none => exact (ResolveM.Within.refl _).bind fun id => (within_create ih ty).leaving.bind fun c => .refl _

theorem within_of_le {fuel fuel' : Nat} (h : fuel ≤ fuel') (ty : TypeRef) :
    Within ((ofModules ms att).resolveIn fuel ty) ((ofModules ms att).resolveIn fuel' ty) := by
  induction h with
  | refl => exact .refl _
  | step _ ih => exact ih.trans (within_succ _ ty)

/-! ### Needs -/

/-- The converter of `a` takes the converter of `b` as a part. -/
def Needs (ms : List AdapterModule) (a b : TypeRef) : Prop := ∃ p, recipe? ms a = some p ∧ b ∈ p.deps

/-- The types whose converters the converter of `ty` takes, directly or through others, and `ty` itself. -/
def closure (ms : List AdapterModule) (ty : TypeRef) : Set TypeRef := {t | Relation.ReflTransGen (Needs ms) ty t}

theorem Recipe.mem_deps {p : Recipe} {ty : TypeRef} : ty ∈ p.deps ↔ Part.resolved ty ∈ p.parts := by
  constructor
  · intro h
    obtain ⟨part, hpart, hty⟩ := List.mem_filterMap.1 h
    cases part with
    | resolved ty' =>
      obtain rfl : ty' = ty := by simpa [Part.resolved?] using hty
      exact hpart
    | native kind => cases hty
    | attached path => cases hty
  · intro h
    exact List.mem_filterMap.2 ⟨_, h, rfl⟩

/-! ### The measure -/

theorem known?_mono {r r' : Resolution} (h : Extends r r') {ty : TypeRef} (hk : (known? r ty).isSome) :
    (known? r' ty).isSome := by
  obtain ⟨new, hnew⟩ := h.pending
  simp only [known?, Store.cached?, Context.pending?, Context.inFlight?, Option.isSome_or, Bool.or_eq_true] at hk ⊢
  rw [h.cache, h.inFlight, ← hnew, List.lookup_append, Option.isSome_or, Bool.or_eq_true]
  tauto

theorem known?_enter_self (r : Resolution) (ty : TypeRef) : (known? (r.enter ty) ty).isSome := by
  simp [known?, Resolution.enter, Context.enter, Context.inFlight?]

theorem known?_enter_of_ne (r : Resolution) {ty t : TypeRef} (h : t ≠ ty) : known? (r.enter ty) t = known? r t := by
  show (r.store.cached? t).or ((r.context.pending? t).or (List.lookup t ((ty, _) :: r.context.inFlight))) = _
  rw [List.lookup_cons, beq_false_of_ne h]
  rfl

theorem known?_enter {r : Resolution} {ty t : TypeRef} (hk : (known? r t).isSome) :
    (known? (r.enter ty) t).isSome := by
  by_cases hty : t = ty
  · exact hty ▸ known?_enter_self r ty
  · rwa [known?_enter_of_ne r hty]

/-- The number of types that are yet to be constructed. -/
def missing (L : Finset TypeRef) (r : Resolution) : Nat := (L.filter fun t => (known? r t).isNone).card

theorem missing_mono {L : Finset TypeRef} {r r' : Resolution} (h : Extends r r') : missing L r' ≤ missing L r := by
  apply Finset.card_le_card
  intro t ht
  rw [Finset.mem_filter] at ht ⊢
  refine ⟨ht.1, ?_⟩
  have hmono : (known? r t).isSome → (known? r' t).isSome := known?_mono h
  cases hk : known? r t with
  | none => rfl
  | some c => simp_all

theorem missing_enter_lt {L : Finset TypeRef} {r : Resolution} {ty : TypeRef} (hty : ty ∈ L)
    (hk : known? r ty = none) : missing L (r.enter ty) < missing L r := by
  apply Finset.card_lt_card
  refine (Finset.ssubset_iff_of_subset ?_).2 ⟨ty, ?_, ?_⟩
  · intro t ht
    rw [Finset.mem_filter] at ht ⊢
    refine ⟨ht.1, ?_⟩
    have hmono : (known? r t).isSome → (known? (r.enter ty) t).isSome := known?_enter
    cases hk : known? r t with
    | none => rfl
    | some c => simp_all
  · simp [hty, hk]
  · intro h
    have hself := known?_enter_self r ty
    rw [Option.isNone_iff_eq_none.1 (Finset.mem_filter.1 h).2] at hself
    cases hself

/-! ### Enough fuel -/

private theorem Breaks.ne_outOfFuel {L : Finset TypeRef} {n : Nat} {ps : List Part} {e : Error} {r r' : Resolution}
    (hb : Breaks ms att (fun _ r _ r' => Extends r r')
      (fun ty r e _ => ty ∈ L → missing L r < n → e ≠ .outOfFuel) ps r e r')
    (hps : ∀ ty, Part.resolved ty ∈ ps → ty ∈ L) (hr : missing L r < n) : e ≠ .outOfFuel := by
  induction hb with
  | here he => exact he (hps _ (List.mem_cons_self ..)) hr
  | unknown hn => simp
  | resolved hc _ ih =>
    have hmono := missing_mono hc (L := L)
    exact ih (fun ty hty => hps ty (List.mem_cons_of_mem _ hty)) (by omega)
  | native _ ih =>
    exact ih (fun ty hty => hps ty (List.mem_cons_of_mem _ hty)) (lt_of_le_of_lt (missing_mono (extends_allot _)) hr)
  | attached _ _ ih => exact ih (fun ty hty => hps ty (List.mem_cons_of_mem _ hty)) hr

/-- A resolution does not run out of fuel if there is more of it than types left to construct. -/
theorem resolveIn_ne_outOfFuel {L : Finset TypeRef} (hL : ∀ a ∈ L, ∀ b, Needs ms a b → b ∈ L) :
    ∀ (fuel : Nat) (ty : TypeRef) (r : Resolution) (e : Error) (r' : Resolution), ty ∈ L → missing L r < fuel →
      (ofModules ms att).resolveIn fuel ty r = .error e r' → e ≠ .outOfFuel := by
  intro fuel
  induction fuel with
  | zero =>
    intro ty r e r' _ hr _
    omega
  | succ fuel ih =>
    intro ty r e r' hty hr h
    obtain ⟨hk, ⟨_, rfl, _⟩ | ⟨p, r₁, hp, _, hb⟩ | ⟨p, cs, r₁, tallies, _, _, _, _, rfl⟩⟩ := resolveIn_error h
    · simp
    · have hlt := missing_enter_lt hty hk
      have hb : Breaks ms att (fun _ r _ r' => Extends r r')
          (fun ty r e _ => ty ∈ L → missing L r < fuel → e ≠ .outOfFuel) p.parts (r.enter ty) e r₁ :=
        hb.mono (fun _ _ _ _ => extends_of_resolveIn) fun ty r e r' he hty hr => ih ty r e r' hty hr he
      refine hb.ne_outOfFuel ?_ (by omega)
      · intro ty' hty'
        exact hL ty hty ty' ⟨p, hp, Recipe.mem_deps.2 hty'⟩
    · simp

theorem closure_trans {ty t t' : TypeRef} (h : t ∈ closure ms ty) (h' : Needs ms t t') : t' ∈ closure ms ty :=
  Relation.ReflTransGen.tail h h'

/-- A list that holds what its types take bounds what they need. -/
theorem closure_subset {ty : TypeRef} {l : List TypeRef} (hty : ty ∈ l)
    (hdeps : ∀ t ∈ l, (recipe? ms t).all (·.deps.all l.contains) = true) : closure ms ty ⊆ {t | t ∈ l} := by
  intro t ht
  induction ht with
  | refl => exact hty
  | tail _ hneed ih =>
    obtain ⟨p, hp, hu⟩ := hneed
    have hall := hdeps _ ih
    rw [hp, Option.all_some, List.all_eq_true] at hall
    simpa using hall _ hu

/-- The answer to a type that needs finitely many others does not depend on the fuel, once there is more of it than
they are. -/
private theorem exists_resolve_eq (att : List (String × Converter)) (ty : TypeRef) (store : Store)
    (hfin : (closure ms ty).Finite) :
    ∃ answer, (∀ s, answer ≠ .error .outOfFuel s) ∧
      ∀ fuel > (closure ms ty).ncard, (ofModules ms att).resolve fuel ty store = answer := by
  have hcard : hfin.toFinset.card = (closure ms ty).ncard := (Set.ncard_eq_toFinset_card _ hfin).symm
  have hmem : ty ∈ hfin.toFinset := hfin.mem_toFinset.2 .refl
  have hclosed : ∀ a ∈ hfin.toFinset, ∀ b, Needs ms a b → b ∈ hfin.toFinset := by
    intro a ha b hb
    exact hfin.mem_toFinset.2 (closure_trans (hfin.mem_toFinset.1 ha) hb)
  have hmissing : missing hfin.toFinset ⟨store, .empty⟩ ≤ (closure ms ty).ncard :=
    hcard ▸ Finset.card_filter_le _ _
  refine ⟨(ofModules ms att).resolve ((closure ms ty).ncard + 1) ty store, ?_, ?_⟩
  · intro s hs
    unfold resolve at hs
    cases hc : store.cached? ty with
    | some c => simp [hc] at hs
    | none =>
      simp only [hc] at hs
      cases hr : (ofModules ms att).resolveIn ((closure ms ty).ncard + 1) ty ⟨store, .empty⟩ with
      | ok c r => simp [hr] at hs
      | error e r =>
        simp only [hr, EStateM.Result.error.injEq] at hs
        exact resolveIn_ne_outOfFuel hclosed _ ty _ e r hmem (by omega) hr hs.1
  · intro fuel hfuel
    have hwithin : Within ((ofModules ms att).resolveIn _ ty) ((ofModules ms att).resolveIn fuel ty) :=
      within_of_le (Nat.succ_le_of_lt hfuel) ty
    unfold resolve
    cases store.cached? ty with
    | some c => rfl
    | none =>
      rcases hwithin ⟨store, .empty⟩ with ⟨r', hout⟩ | heq
      · exact absurd rfl (resolveIn_ne_outOfFuel hclosed _ ty _ _ r' hmem (by omega) hout)
      · simp only [heq]

/-! ### Answers -/

/-- Whether the converter of a type is finished. -/
def Finished (r : Resolution) (ty : TypeRef) : Prop := (r.store.cached? ty).isSome ∨ (r.context.pending? ty).isSome

/-- Whatever a finished type needs is known. -/
def Closed (ms : List AdapterModule) (r : Resolution) : Prop :=
  ∀ ty, Finished r ty → ∃ p, recipe? ms ty = some p ∧ ∀ d ∈ p.deps, (known? r d).isSome

theorem known?_isSome {r : Resolution} {ty : TypeRef} :
    (known? r ty).isSome ↔ Finished r ty ∨ (r.context.inFlight? ty).isSome := by
  simp [known?, Finished, Option.isSome_or, or_assoc]

theorem isSome_lookup {ty : TypeRef} {l : List (TypeRef × Converter)} : (l.lookup ty).isSome ↔ ty ∈ l.map (·.1) := by
  rw [Option.isSome_iff_ne_none, ne_eq, List.lookup_eq_none_iff]
  simp

private theorem closed_enter {r : Resolution} (h : Closed ms r) (ty : TypeRef) : Closed ms (r.enter ty) := by
  intro t ht
  obtain ⟨p, hp, hdeps⟩ := h t ht
  exact ⟨p, hp, fun d hd => known?_enter (hdeps d hd)⟩

private theorem Obtains.closed {ps : List Part} {cs : List Converter} {r r' : Resolution}
    (h : Obtains ms att (fun ty r _ r' => Extends r r' ∧ (Closed ms r → Closed ms r') ∧ (known? r' ty).isSome)
      ps r cs r') :
    Extends r r' ∧ (Closed ms r → Closed ms r') ∧ ∀ ty, Part.resolved ty ∈ ps → (known? r' ty).isSome := by
  induction h with
  | nil r => exact ⟨.refl r, id, by simp⟩
  | @resolved ty ps c cs r r₁ r' hc _ ih =>
    refine ⟨hc.1.trans ih.1, ih.2.1 ∘ hc.2.1, fun t ht => ?_⟩
    rcases List.mem_cons.1 ht with heq | hmem
    · cases heq
      exact known?_mono ih.1 hc.2.2
    · exact ih.2.2 t hmem
  | native _ ih => exact ⟨(extends_allot _).trans ih.1, fun h => ih.2.1 h, fun t ht => ih.2.2 t (by simpa using ht)⟩
  | attached _ _ ih => exact ⟨ih.1, ih.2.1, fun t ht => ih.2.2 t (by simpa using ht)⟩

theorem finished_finish {r₁ : Resolution} {id : Nat} {ty t : TypeRef} {c : Converter}
    {tallies : List (Nat × Tally)} : Finished (r₁.finish id ty c tallies) t ↔ Finished r₁ t ∨ t = ty := by
  have hpending : (r₁.finish id ty c tallies).context.pending? t =
      (r₁.context.pending? t).or (List.lookup t [(ty, c)]) := List.lookup_append
  simp only [Finished, hpending, Option.isSome_or, Bool.or_eq_true]
  by_cases hty : t = ty
  · simp [hty]
  · simp [hty, List.lookup_cons, beq_false_of_ne hty, Resolution.finish, Store.cached?]

/-- A successful resolution of a type keeps what is known closed, and then the type is known. -/
theorem closed_of_resolveIn {fuel : Nat} {ty : TypeRef} {c : Converter} {r r' : Resolution}
    (h : (ofModules ms att).resolveIn fuel ty r = .ok c r') :
    Extends r r' ∧ (Closed ms r → Closed ms r') ∧ (known? r' ty).isSome := by
  refine resolveIn_induction (fun ty r _ r' => Extends r r' ∧ (Closed ms r → Closed ms r') ∧ (known? r' ty).isSome)
    ?_ ?_ fuel ty r c r' h
  · intro ty r c hk
    exact ⟨.refl r, id, by simp [hk]⟩
  · intro ty r p cs r₁ tallies hk hp hcs _ _
    obtain ⟨hext, hclosed, hknown⟩ := hcs.closed
    have hself : Finished (r₁.finish r.store.nextId ty (p.assemble r₁.store.nextId cs) tallies) ty :=
      finished_finish.2 (.inr rfl)
    -- what was known when the parts had been obtained is known still: only the type itself has left its construction
    have hkept (t : TypeRef) (ht : (known? r₁ t).isSome) :
        (known? (r₁.finish r.store.nextId ty (p.assemble r₁.store.nextId cs) tallies) t).isSome := by
      rw [known?_isSome] at ht ⊢
      by_cases hty : t = ty
      · exact .inl (hty ▸ hself)
      · rcases ht with hfin | hflight
        · exact .inl (finished_finish.2 (.inl hfin))
        · right
          have hin : r₁.context.inFlight = (ty, .placeholder r.store.nextId ty) :: r.context.inFlight := hext.inFlight
          show (List.lookup t r₁.context.inFlight.tail).isSome
          rw [Context.inFlight?, hin, List.lookup_cons, beq_false_of_ne hty] at hflight
          rwa [hin]
    refine ⟨extends_finish hext _ tallies, fun hr t ht => ?_, known?_isSome.2 (.inl hself)⟩
    rcases finished_finish.1 ht with ht | rfl
    · obtain ⟨q, hq, hdeps⟩ := hclosed (closed_enter hr ty) t ht
      exact ⟨q, hq, fun d hd => hkept d (hdeps d hd)⟩
    · exact ⟨p, hp, fun d hd => hkept d (hknown d (Recipe.mem_deps.1 hd))⟩

/-- Whatever a cached type needs is cached. -/
def CacheClosed (ms : List AdapterModule) (s : Store) : Prop := Closed ms ⟨s, .empty⟩

theorem cacheClosed_empty : CacheClosed ms .empty := by
  intro t ht
  simp [Finished, Context.empty, Context.pending?, Store.empty, Store.cached?, Table.get?] at ht

private theorem finished_of_known {r : Resolution} (hin : r.context.inFlight = []) {ty : TypeRef}
    (h : (known? r ty).isSome) : Finished r ty := by
  rcases known?_isSome.1 h with hfin | hflight
  · exact hfin
  · simp [Context.inFlight?, hin] at hflight

theorem cacheClosed_commitAll {r : Resolution} (hin : r.context.inFlight = []) (h : Closed ms r) :
    CacheClosed ms (commitAll r.store r.context.pending) := by
  have hiff (t : TypeRef) : Finished ⟨commitAll r.store r.context.pending, .empty⟩ t ↔ Finished r t := by
    simp [Finished, cached?_commitAll, Context.pending?, Context.empty, Option.isSome_or]
  intro t ht
  obtain ⟨p, hp, hdeps⟩ := h t ((hiff t).1 ht)
  refine ⟨p, hp, fun d hd => known?_isSome.2 (.inl ((hiff d).2 ?_))⟩
  exact finished_of_known hin (hdeps d hd)

theorem cacheClosed_of_cache_eq {s s' : Store} (hcache : s'.cache = s.cache) (h : CacheClosed ms s) :
    CacheClosed ms s' := by
  intro t ht
  have hiff (t : TypeRef) : known? ⟨s', .empty⟩ t = known? ⟨s, .empty⟩ t := by
    simp only [known?, Store.cached?, hcache]
  obtain ⟨p, hp, hdeps⟩ := h t (by simpa only [Finished, Store.cached?, hcache] using ht)
  exact ⟨p, hp, fun d hd => hiff d ▸ hdeps d hd⟩

/-- After a type was resolved it is cached, and whatever a cached type needs is cached too. -/
theorem cacheClosed_of_resolve {fuel : Nat} {ty : TypeRef} {c : Converter} {s s' : Store} (hs : CacheClosed ms s)
    (h : (ofModules ms att).resolve fuel ty s = .ok c s') : CacheClosed ms s' ∧ (s'.cached? ty).isSome := by
  rcases resolve_ok h with ⟨hc, rfl⟩ | ⟨c₁, r, _, hr, rfl, -⟩
  · exact ⟨hs, by simp [hc]⟩
  · obtain ⟨hext, hclosed, hknown⟩ := closed_of_resolveIn hr
    refine ⟨cacheClosed_commitAll hext.inFlight (hclosed hs), ?_⟩
    have hfin : Finished r ty := finished_of_known hext.inFlight hknown
    rw [cached?_commitAll, Option.isSome_or, Bool.or_eq_true]
    exact hfin

theorem cacheClosed_of_resolve_error {fuel : Nat} {ty : TypeRef} {e : Error} {s s' : Store} (hs : CacheClosed ms s)
    (h : (ofModules ms att).resolve fuel ty s = .error e s') : CacheClosed ms s' := by
  obtain ⟨r, hin, rfl⟩ := resolve_error h
  exact cacheClosed_of_cache_eq (keeps_of_resolveIn hin).cache hs

theorem frame_cacheClosed : Frame (ofModules ms att) (fun _ s => CacheClosed ms s) (fun _ => True) where
  mild _ _ := trivial
  drop h := h
  hold _ h := h
  binding _ h := h
  missing _ _ _ := trivial
  delegate h _ := h
  unset _ _ := trivial
  custom _ _ _ _ _ _ := trivial
  resolved h hr := (cacheClosed_of_resolve h hr).1
  failed h hr := ⟨cacheClosed_of_resolve_error h hr, trivial⟩

theorem cached_of_mem_closure {s : Store} (hs : CacheClosed ms s) {ty t : TypeRef} (hty : (s.cached? ty).isSome)
    (ht : t ∈ closure ms ty) : (s.cached? t).isSome := by
  induction ht with
  | refl => exact hty
  | tail _ hneed ih =>
    obtain ⟨p, hp, hd⟩ := hneed
    obtain ⟨q, hq, hdeps⟩ := hs _ (.inl ih)
    obtain rfl : p = q := Option.some.inj (hp.symm.trans hq)
    rcases finished_of_known rfl (hdeps _ hd) with hc | hpending
    · exact hc
    · simp [Context.pending?, Context.empty] at hpending

/-- A type that a converter was found for needs finitely many others. -/
theorem finite_closure_of_cached {s : Store} (hs : CacheClosed ms s) {ty : TypeRef} (hty : (s.cached? ty).isSome) :
    (closure ms ty).Finite := by
  refine Set.Finite.subset (s.cache.map (·.1)).toFinset.finite_toSet fun t ht => ?_
  have hcached := cached_of_mem_closure hs hty ht
  rw [Finset.mem_coe, List.mem_toFinset]
  by_contra hnot
  have hnone : s.cached? t = none := by
    rw [Store.cached?, Table.get?, List.lookup_eq_none_iff]
    intro entry hentry
    rw [bne_iff_ne]
    rintro rfl
    exact hnot (List.mem_map_of_mem hentry)
  rw [hnone] at hcached
  cases hcached

/-- A type that needs finitely many others is answered whatever is cached, once there is more fuel than they are; and
only such a type ever gets a converter. -/
theorem resolve_answers (ms : List AdapterModule) (att : List (String × Converter)) (ty : TypeRef) :
    ((closure ms ty).Finite → ∀ store, ∃ answer, (∀ s, answer ≠ .error .outOfFuel s) ∧
      ∀ fuel > (closure ms ty).ncard, (ofModules ms att).resolve fuel ty store = answer) ∧
    ∀ store cs, Run (ofModules ms att) store cs → ∀ fuel c store',
      (ofModules ms att).resolve fuel ty store = .ok c store' → (closure ms ty).Finite := by
  constructor
  · intro hfin store
    exact exists_resolve_eq att ty store hfin
  · intro store cs hrun fuel c store' h
    have hclosed : CacheClosed ms store := frame_cacheClosed.of_run (fun t ht => by simp [Finished, Context.empty,
      Context.pending?, Store.empty, Store.cached?, Table.get?] at ht) hrun
    obtain ⟨hclosed', hcached⟩ := cacheClosed_of_resolve hclosed h
    exact finite_closure_of_cached hclosed' hcached

/-- A structure with a list of its own kind. -/
def treeDeclaration : Declaration :=
  .plain "demo::Tree" (.structure [⟨"children", none, .named "Vec" [.named "demo::Tree" []], .none, none⟩])

def treeModel : Model := ⟨[treeDeclaration], [], by decide⟩

def treeModule : AdapterModule := (treeModel.generate .standard).toOption.getD default

private theorem closure_tree : closure [treeModule] treeDeclaration.selfType ⊆ {treeDeclaration.selfType} := by
  intro t ht
  have hdeps : ∀ t ∈ [treeDeclaration.selfType],
      (recipe? [treeModule] t).all (·.deps.all [treeDeclaration.selfType].contains) = true := by decide +kernel
  exact List.mem_singleton.1 (closure_subset (List.mem_singleton_self _) hdeps ht)

theorem resolve_answers_tree :
    (closure [treeModule] treeDeclaration.selfType).Finite ∧
      ∃ answer, (∀ s, answer ≠ .error .outOfFuel s) ∧ ∀ fuel > (closure [treeModule] treeDeclaration.selfType).ncard,
        (ofModules [treeModule] []).resolve fuel treeDeclaration.selfType .empty = answer := by
  have hfin : (closure [treeModule] treeDeclaration.selfType).Finite := (Set.finite_singleton _).subset closure_tree
  exact ⟨hfin, (resolve_answers [treeModule] [] treeDeclaration.selfType).1 hfin .empty⟩

/-! ### Types that need infinitely many others -/

/-- A structure that holds itself at a larger argument. -/
def nestDeclaration : Declaration where
  path := "demo::Nest"
  params := ["T"]
  kind := .structure [⟨"inner", none, .named "demo::Nest" [.named "Vec" [.var "T"]], .none, none⟩]
  params_nodup := List.nodup_singleton "T"

def nestModel : Model := ⟨[nestDeclaration], [], by decide⟩

def nestModule : AdapterModule := (nestModel.generate .standard).toOption.getD default

def nest (ty : TypeRef) : TypeRef := .named "demo::Nest" [ty]

private theorem recipe?_nest (ty : TypeRef) :
    ∃ p, recipe? [nestModule] (nest ty) = some p ∧ p.parts = [.resolved (nest (.named "Vec" [ty]))] := ⟨_, rfl, rfl⟩

/-- The construction of each instance asks for a larger one, so no amount of fuel is enough. -/
private theorem resolveIn_nest (fuel : Nat) : ∀ (ty : TypeRef) (r : Resolution),
    (∀ t, sizeOf ty ≤ sizeOf t → known? r (nest t) = none) →
    ∃ s, (ofModules [nestModule] []).resolveIn fuel (nest ty) r = .error .outOfFuel s := by
  induction fuel with
  | zero => exact fun ty r _ => ⟨r, rfl⟩
  | succ fuel ih =>
    intro ty r hr
    obtain ⟨p, hp, hparts⟩ := recipe?_nest ty
    have hlarger : sizeOf ty < sizeOf (TypeRef.named "Vec" [ty]) := by
      simp only [TypeRef.named.sizeOf_spec, List.cons.sizeOf_spec]
      omega
    have hunknown : ∀ t, sizeOf (TypeRef.named "Vec" [ty]) ≤ sizeOf t → known? (r.enter (nest ty))
        (nest t) = none := by
      intro t ht
      have hne : nest t ≠ nest ty := by
        intro heq
        obtain rfl : t = ty := by simpa [nest] using heq
        omega
      rw [known?_enter_of_ne r hne]
      exact hr t (by omega)
    obtain ⟨s, hs⟩ := ih (.named "Vec" [ty]) (r.enter (nest ty)) hunknown
    cases hres : (ofModules [nestModule] []).resolveIn (fuel + 1) (nest ty) r with
    | ok c r' =>
      rcases resolveIn_ok hres with ⟨hk, _⟩ | ⟨q, cs, r₁, tallies, _, hq, hcs, _⟩
      · rw [hr ty le_rfl] at hk
        cases hk
      · obtain rfl : p = q := Option.some.inj (hp.symm.trans hq)
        rw [hparts] at hcs
        cases hcs with
        | resolved hc _ =>
          rw [hs] at hc
          cases hc
    | error e r' =>
      obtain ⟨_, ⟨hq, _⟩ | ⟨q, r₁, hq, rfl, hb⟩ | ⟨q, cs, r₁, tallies, hq, _, hcs, _⟩⟩ := resolveIn_error hres
      · rw [hp] at hq
        cases hq
      · obtain rfl : p = q := Option.some.inj (hp.symm.trans hq)
        rw [hparts] at hb
        cases hb with
        | here he =>
          rw [hs] at he
          cases he
          exact ⟨_, rfl⟩
        | resolved hc _ =>
          rw [hs] at hc
          cases hc
      · obtain rfl : p = q := Option.some.inj (hp.symm.trans hq)
        rw [hparts] at hcs
        cases hcs with
        | resolved hc _ =>
          rw [hs] at hc
          cases hc

/-- Not every type is answered, not even in a registry of one generated module. -/
theorem not_forall_resolve_answers :
    ¬∀ (model : Model) (options : GeneratorOptions) (m : AdapterModule) (ty : TypeRef),
      model.generate options = .ok m → ty.isConcrete = true →
        ∃ answer n, (∀ s, answer ≠ .error .outOfFuel s) ∧
          ∀ fuel > n, (ofModules [m] []).resolve fuel ty .empty = answer := by
  intro hall
  have hgenerate : nestModel.generate .standard = .ok nestModule := by rfl
  obtain ⟨answer, n, hanswer, hfuel⟩ :=
    hall nestModel .standard nestModule (nest (.named "i32" [])) hgenerate (by decide)
  obtain ⟨r, hr⟩ := resolveIn_nest (n + 1) (.named "i32" []) ⟨.empty, .empty⟩ (by
    intro t _
    simp [known?, Context.pending?, Context.inFlight?, Context.empty, Store.cached?, Store.empty, Table.get?])
  refine hanswer r.store ?_
  rw [← hfuel (n + 1) (by omega)]
  have hcached : Store.empty.cached? (nest (.named "i32" [])) = none := rfl
  unfold resolve
  simp only [hcached, hr]

end Registry

end Marshal
