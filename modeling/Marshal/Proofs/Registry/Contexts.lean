import Marshal.Proofs.Registry.Resolvable

/-!
# Contexts that outlive a failure

Calls from outside may share a context, and a call that fails leaves behind what was finished on the way.  Such a
converter may hold the placeholder of a type whose construction failed later on, which is lost: it is not bound, and
never will be.  But the type of a lost placeholder is not resolvable, and neither is a type that needs it.  So the
converters that a context gives for types that resolve on their own raise no violation (`session_converters`), whereas
others may (`not_forall_session_mild`).
-/

namespace Marshal

open Effect

namespace Registry

variable {ms : List AdapterModule} {att : List (String × Converter)} {P P' : Nat → TypeRef → Prop}

/-- What one context and its registry come to, with the types that were asked for and the converters that were given
for them.  A call that runs out of fuel has not returned. -/
inductive Session (reg : Registry) : Resolution → List (TypeRef × Converter) → Prop
  | start : Session reg ⟨.empty, .empty⟩ []
  | resolvedIn {fuel : Nat} {ty : TypeRef} {c : Converter} {held : List (TypeRef × Converter)} {r r' : Resolution}
    (h : Session reg r held) (hc : reg.resolveIn fuel ty r = .ok c r') : Session reg r' ((ty, c) :: held)
  | failedIn {fuel : Nat} {ty : TypeRef} {e : Error} {held : List (TypeRef × Converter)} {r r' : Resolution}
    (h : Session reg r held) (he : reg.resolveIn fuel ty r = .error e r') (hne : e ≠ .outOfFuel) : Session reg r' held
  /-- The registry is also used without the context. -/
  | resolved {fuel : Nat} {ty : TypeRef} {c : Converter} {held : List (TypeRef × Converter)}
    {r : Resolution} {s : Store}
    (h : Session reg r held) (hc : reg.resolve fuel ty r.store = .ok c s) :
    Session reg { r with store := s } ((ty, c) :: held)
  | failed {fuel : Nat} {ty : TypeRef} {e : Error} {held : List (TypeRef × Converter)} {r : Resolution} {s : Store}
    (h : Session reg r held) (he : reg.resolve fuel ty r.store = .error e s) : Session reg { r with store := s } held
  | written {fuel : Nat} {ty : TypeRef} {c : Converter} {v : Option Value} {held : List (TypeRef × Converter)}
    {context : Context} {w w' : Writing} (h : Session reg ⟨w.store, context⟩ held) (hc : (ty, c) ∈ held)
    (hw : c.write reg fuel v w = .ok ⟨⟩ w' ∨ ∃ e, c.write reg fuel v w = .error e w') :
    Session reg ⟨w'.store, context⟩ held

/-! ### Failures -/

/-- What a failing resolution that has enough fuel keeps: it leaves the types that it has entered, whose placeholders
are lost. -/
def Retreats (ms : List AdapterModule) (att : List (String × Converter)) (r : Resolution) (e : Error)
    (r' : Resolution) : Prop :=
  ∀ P, Consistent ms att (¬Resolvable ms att ·) P r → e ≠ .outOfFuel →
    e.breaksOff = false ∧ r'.context.inFlight = r.context.inFlight ∧
      ∃ P', (∀ id t, P id t → P' id t) ∧ Consistent ms att (¬Resolvable ms att ·) P' r'

private theorem Breaks.retreats {ps : List Part} {e : Error} {r r' : Resolution}
    (h : Breaks ms att (Succeeds ms att) (fun _ r e r' => Retreats ms att r e r') ps r e r') :
    Retreats ms att r e r' := by
  induction h with
  | here he => exact he
  | unknown _ => exact fun P hr _ => ⟨rfl, rfl, P, fun _ _ => id, hr⟩
  | resolved hc _ ih =>
    intro P hr hne
    obtain ⟨P₁, hP₁, hr₁, -⟩ := hc.2 _ P hr
    obtain ⟨he, hin, P', hP', hr'⟩ := ih P₁ hr₁ hne
    exact ⟨he, hin.trans hc.1.inFlight, P', fun id t h => hP' id t (hP₁ id t h), hr'⟩
  | native _ ih => exact fun P hr => ih P hr.allot
  | attached _ _ ih => exact ih

private theorem retreats_of_resolveIn (fuel : Nat) : ∀ (ty : TypeRef) (r : Resolution) (e : Error) (r' : Resolution),
    (ofModules ms att).resolveIn fuel ty r = .error e r' → Retreats ms att r e r' := by
  induction fuel with
  | zero =>
    intro ty r e r' h P _ hne
    cases h
    exact absurd rfl hne
  | succ fuel ih =>
    intro ty r e r' h P hr hne
    have hnot : ¬Resolvable ms att ty := fun hres => hne ((outOfFuel_of_resolveIn h hr.fresh).2 hres)
    obtain ⟨_, ⟨_, rfl, rfl⟩ | ⟨p, r₁, _, rfl, hb⟩ | ⟨p, cs, r₁, tallies, _, rfl, hcs, hbound, rfl⟩⟩ :=
      resolveIn_error h
    · exact ⟨rfl, rfl, _, fun _ _ => .inl, hr.exit (hr.enter ty) rfl hnot⟩
    · have hb := hb.mono (fun _ _ _ _ => succeeds_of_resolveIn) ih
      obtain ⟨he, hin, P', hP', hr₁⟩ := hb.retreats _ (hr.enter ty) hne
      have hleave : leave e r₁ = r₁.exit := by rw [leave, he, if_neg Bool.false_ne_true]
      rw [hleave]
      refine ⟨he, ?_, P', fun id t h => hP' id t (.inl h), hr.exit hr₁ hin hnot⟩
      show r₁.context.inFlight.tail = _
      rw [hin]
      rfl
    · have hcs := hcs.mono fun _ _ _ _ => succeeds_of_resolveIn
      obtain ⟨P', -, hr₁, -⟩ := hcs.consistent.2 _ _ (hr.enter ty)
      exact absurd (hr₁.find?_innermost hcs.consistent.1.inFlight) hbound

/-! ### The invariant of a session -/

/-- The converter of a resolvable type holds the placeholders of resolvable types only. -/
private theorem Stands.resolvable {ty : TypeRef} {c : Converter} (h : Stands ms att P ty c)
    (hres : Resolvable ms att ty) : Stands ms att (fun id t => P id t ∧ Resolvable ms att t) ty c := by
  induction h with
  | placeholder h => exact .placeholder ⟨h, hres⟩
  | built id hp hlen _ hnative hattached ih =>
    refine .built id hp hlen (fun i t c hpart hc => ?_) hnative hattached
    exact ih i t c hpart hc (hres.available hp _ (List.mem_of_getElem? hpart))

/-- Between the calls of a session: every placeholder that was given out is bound or lost. -/
structure Sound (ms : List AdapterModule) (att : List (String × Converter)) (held : List (TypeRef × Converter))
    (r : Resolution) : Prop where
  placeholders : ∃ P, Consistent ms att (¬Resolvable ms att ·) P r ∧ ∀ e ∈ held, Stands ms att P e.1 e.2
  idle : r.context.inFlight = []
  closed : CacheClosed ms r.store

/-- The placeholders of resolvable types are bound. -/
private theorem Consistent.settled {r : Resolution} (h : Consistent ms att (¬Resolvable ms att ·) P r)
    (hidle : r.context.inFlight = []) (hclosed : CacheClosed ms r.store) :
    Settled ms att (fun id t => P id t ∧ Resolvable ms att t) r.store where
  bound id ty hid := by
    rcases h.bound id ty hid.1 with ⟨c, hc, hbuilt⟩ | hflight | ⟨hnot, -⟩
    · exact ⟨c, hc, hbuilt.1.resolvable hid.2, hbuilt.2⟩
    · rw [hidle] at hflight
      cases hflight
    · exact absurd hid.2 hnot
  cached ty c hc := by
    have hres := resolvable_of_cached hclosed h.cached (by rw [hc]; rfl)
    exact ⟨(h.cached ty c hc).1.resolvable hres, (h.cached ty c hc).2⟩
  fresh := h.fresh

/-- The placeholders when the registry was used without the context. -/
private theorem Consistent.later {D : TypeRef → Prop} {r : Resolution} {s : Store} (h : Consistent ms att D P r)
    (hidle : r.context.inFlight = []) (hs : Settled ms att P' s) (hlater : Later r.store s) :
    Consistent ms att D (fun id t => P id t ∨ P' id t) { r with store := s } where
  bound id ty hid := by
    rcases hid with hid | hid
    · have hfind := hlater.delegates id (h.given id ty hid)
      rcases h.bound id ty hid with ⟨c, hc, hbuilt⟩ | hflight | ⟨hD, hnone, hflight⟩
      · exact .inl ⟨c, hfind.trans hc, hbuilt.mono fun _ _ => .inl⟩
      · exact .inr (.inl hflight)
      · exact .inr (.inr ⟨hD, hfind.trans hnone, hflight⟩)
    · obtain ⟨c, hc, hbuilt⟩ := hs.bound id ty hid
      exact .inl ⟨c, hc, hbuilt.mono fun _ _ => .inr⟩
  given id ty hid := by
    rcases hid with hid | hid
    · exact Nat.lt_of_lt_of_le (h.given id ty hid) hlater.nextId
    · exact (hs.consistent D).given id ty hid
  flying e he := by
    rw [show r.context.inFlight = [] from hidle] at he
    cases he
  cached ty c hc := (hs.cached ty c hc).mono fun _ _ => .inr
  pending ty c hc := (h.pending ty c hc).mono fun _ _ => .inl
  fresh := hs.fresh

namespace Sound

variable {held : List (TypeRef × Converter)} {fuel : Nat} {ty : TypeRef} {c : Converter} {e : Error}
  {r r' : Resolution} {s : Store}

private theorem start : Sound ms att [] ⟨.empty, .empty⟩ := by
  refine ⟨⟨_, Settled.empty.consistent _, ?_⟩, rfl, cacheClosed_empty⟩
  exact fun _ he => absurd he (List.not_mem_nil)

private theorem resolvedIn (h : Sound ms att held r) (hc : (ofModules ms att).resolveIn fuel ty r = .ok c r') :
    Sound ms att ((ty, c) :: held) r' := by
  obtain ⟨P, hr, hheld⟩ := h.placeholders
  obtain ⟨hext, hkeep⟩ := succeeds_of_resolveIn hc
  obtain ⟨P', hP', hr', hstands⟩ := hkeep _ P hr
  refine ⟨⟨P', hr', List.forall_mem_cons.2 ⟨hstands, fun e he => ?_⟩⟩, ?_,
    cacheClosed_of_cache_eq hext.cache h.closed⟩
  · exact (hheld e he).mono hP'
  · rw [hext.inFlight, h.idle]

private theorem failedIn (h : Sound ms att held r) (he : (ofModules ms att).resolveIn fuel ty r = .error e r')
    (hne : e ≠ .outOfFuel) : Sound ms att held r' := by
  obtain ⟨P, hr, hheld⟩ := h.placeholders
  obtain ⟨-, hin, P', hP', hr'⟩ := retreats_of_resolveIn fuel ty r e r' he P hr hne
  refine ⟨⟨P', hr', fun e he => (hheld e he).mono hP'⟩, ?_,
    cacheClosed_of_cache_eq (keeps_of_resolveIn he).cache h.closed⟩
  rw [hin, h.idle]

private theorem resolved (h : Sound ms att held r) (hc : (ofModules ms att).resolve fuel ty r.store = .ok c s) :
    Sound ms att ((ty, c) :: held) { r with store := s } := by
  obtain ⟨P, hr, hheld⟩ := h.placeholders
  obtain ⟨P', -, hs, hstands⟩ := (hr.settled h.idle h.closed).resolve hc
  refine ⟨⟨_, hr.later h.idle hs (later_of_resolve hc), List.forall_mem_cons.2 ⟨?_, fun e he => ?_⟩⟩, h.idle,
    (cacheClosed_of_resolve h.closed hc).1⟩
  · exact hstands.mono fun _ _ => .inr
  · exact (hheld e he).mono fun _ _ => .inl

private theorem failed (h : Sound ms att held r) (he : (ofModules ms att).resolve fuel ty r.store = .error e s) :
    Sound ms att held { r with store := s } := by
  obtain ⟨P, hr, hheld⟩ := h.placeholders
  have hs := ((hr.settled h.idle h.closed).resolve_error he).2
  refine ⟨⟨_, hr.later h.idle hs (later_of_resolve_error he), fun e he => ?_⟩, h.idle,
    cacheClosed_of_resolve_error h.closed he⟩
  exact (hheld e he).mono fun _ _ => .inl

/-- Writing uses the registry without the context. -/
private theorem frame (held : List (TypeRef × Converter)) (context : Context) :
    Frame (ofModules ms att) (fun _ s => ∃ held', (∀ e ∈ held, e ∈ held') ∧ Sound ms att held' ⟨s, context⟩)
      (fun _ => True) where
  mild _ _ := trivial
  drop h := h
  hold _ h := h
  binding _ h := h
  missing _ _ _ := trivial
  delegate h _ := h
  unset _ _ := trivial
  custom _ _ _ _ _ _ := trivial
  resolved := by
    rintro fuel ty c cs s s' ⟨held', hsub, hs⟩ hc
    exact ⟨(ty, c) :: held', fun e he => List.mem_cons_of_mem _ (hsub e he), hs.resolved hc⟩
  failed := by
    rintro fuel ty e cs s s' ⟨held', hsub, hs⟩ he
    exact ⟨⟨held', hsub, hs.failed he⟩, trivial⟩

private theorem of_subset {held' : List (TypeRef × Converter)} (hsub : ∀ e ∈ held, e ∈ held')
    (h : Sound ms att held' r) : Sound ms att held r := by
  obtain ⟨P, hr, hheld⟩ := h.placeholders
  exact ⟨⟨P, hr, fun e he => hheld e (hsub e he)⟩, h.idle, h.closed⟩

private theorem of_session (h : Session (ofModules ms att) r held) : Sound ms att held r := by
  induction h with
  | start => exact .start
  | resolvedIn _ hc ih => exact ih.resolvedIn hc
  | failedIn _ he hne ih => exact ih.failedIn he hne
  | resolved _ hc ih => exact ih.resolved hc
  | failed _ he ih => exact ih.failed he
  | @written fuel ty c v held context w w' _ _ hw ih =>
    have hrun := WriteM.respects_write (frame held context) fuel c [] v w ⟨held, fun _ => id, ih⟩
    rcases hw with hw | ⟨e, hw⟩
    · rw [hw] at hrun
      obtain ⟨held', hsub, hs⟩ := hrun
      exact hs.of_subset hsub
    · rw [hw] at hrun
      obtain ⟨⟨held', hsub, hs⟩, -⟩ := hrun
      exact hs.of_subset hsub

end Sound

/-- However calls share a context, and whatever fails between them: of the placeholders that a converter comes to only
those of types that do not resolve on their own are not bound, and the converter of a type that does resolve on its
own raises no violation, when it was given or later. -/
theorem session_converters (hms : ∀ m ∈ ms, ∃ model : Model, model.Generates m) (hatt : ∀ p ∈ att, p.2.Harmless)
    {r : Resolution} {held : List (TypeRef × Converter)} (h : Session (ofModules ms att) r held) {ty : TypeRef}
    {c : Converter} (hc : (ty, c) ∈ held) :
    (∀ id t, c.Reaches r.store.delegates (.placeholder id t) →
      (∃ d, r.store.delegates.find? id = some d) ∨ ¬Resolves (ofModules ms att) t) ∧
    (Resolves (ofModules ms att) ty →
      (∀ fuel doc e doc', c.read r.store.delegates fuel doc = .error e doc' → e.isViolation = false) ∧
      ∀ fuel v w e w', w.store = r.store → c.write (ofModules ms att) fuel v w = .error e w' →
        e.isViolation = false) := by
  have hsound := Sound.of_session h
  obtain ⟨P, hr, hheld⟩ := hsound.placeholders
  have hstands : Stands ms att P ty c := hheld (ty, c) hc
  constructor
  · intro id t hreach
    have hdelegates : ∀ id t d, P id t → r.store.delegates.find? id = some d → Converter.Safe P d := by
      intro id t d hid hd
      rcases hr.bound id t hid with ⟨d', hd', hbuilt⟩ | hflight | ⟨-, hnone, -⟩
      · obtain rfl := Option.some.inj (hd.symm.trans hd')
        exact hbuilt.1.safe hms hatt
      · rw [hsound.idle] at hflight
        cases hflight
      · rw [hnone] at hd
        cases hd
    cases (hstands.safe hms hatt).of_reaches_bound hdelegates hreach with
    | placeholder hid =>
      rcases hr.bound id t hid with ⟨d, hd, -⟩ | hflight | ⟨hnot, -⟩
      · exact .inl ⟨d, hd⟩
      · rw [hsound.idle] at hflight
        cases hflight
      · exact .inr fun hres => hnot ((resolves_iff t).1 hres)
  · intro hres
    have hsettled := hr.settled hsound.idle hsound.closed
    have hsafe := (hstands.resolvable ((resolves_iff ty).1 hres)).safe hms hatt
    refine ⟨fun fuel => Converter.mild_read (hsettled.safe_delegate hms hatt) fuel c hsafe, ?_⟩
    intro fuel v w e w' hw hwrite
    have hrespects :=
      WriteM.respects_write (frame_settled hms hatt) fuel c [] v w ⟨_, hw ▸ hsettled, by simpa using hsafe⟩
    rw [hwrite] at hrespects
    exact hrespects.2

/-! Two structures that hold each other, one of which also holds a type that nothing has a converter for, and a
structure apart. -/

def poisonModel : Model where
  types := [.plain "demo::A" (.structure [⟨"b", none, .named "demo::B" [], .none, none⟩,
      ⟨"x", none, .named "demo::Missing" [], .none, none⟩]),
    .plain "demo::B" (.structure [⟨"a", none, .named "demo::A" [], .none, none⟩]),
    .plain "demo::C" (.structure [⟨"n", none, .named "i32" [], .none, none⟩])]
  subtypeAdapters := []
  paths_nodup := by decide

def poisonModule : AdapterModule := (poisonModel.generate .standard).toOption.getD default

private theorem poisonModule_generates : ∀ m ∈ [poisonModule], ∃ model : Model, model.Generates m := by
  intro m hm
  obtain rfl := List.mem_singleton.1 hm
  have hgenerate : poisonModel.generate .standard = .ok poisonModule := by rfl
  exact ⟨poisonModel, .of_generate hgenerate⟩

/-- The first structure fails after the second one was finished.  Then the context has a converter for the second one,
which meets the placeholder of the first, and the structure apart can be resolved. -/
private theorem resolveIn_poison :
    ∃ e r, (ofModules [poisonModule] []).resolveIn 3 (.named "demo::A" []) ⟨.empty, .empty⟩ =
    .error e r ∧ e ≠ .outOfFuel ∧ r.context.inFlight = [] ∧
      (∃ c r', (ofModules [poisonModule] []).resolveIn 1 (.named "demo::B" []) r = .ok c r' ∧ ∃ doc doc',
        c.read r'.store.delegates 3 doc = .error (.violation (.unsetDelegate (.named "demo::A" []))) doc') ∧
      ∃ c r', (ofModules [poisonModule] []).resolveIn 3 (.named "demo::C" []) r = .ok c r' := by
  have hcheck : Effect.fails (fun e r => decide (e ≠ .outOfFuel) && r.context.inFlight.isEmpty &&
      Effect.succeeds (fun c r' =>
        Effect.fails (fun e _ => decide (e = .violation (.unsetDelegate (.named "demo::A" []))))
        (c.read r'.store.delegates 3 (Reader.ofText ['{', '"', 'a', '"', ':', '{', '}', '}'])))
        ((ofModules [poisonModule] []).resolveIn 1 (.named "demo::B" []) r) &&
      Effect.succeeds (fun _ _ => true) ((ofModules [poisonModule] []).resolveIn 3 (.named "demo::C" []) r))
      ((ofModules [poisonModule] []).resolveIn 3 (.named "demo::A" []) ⟨.empty, .empty⟩) = true := by decide +kernel
  obtain ⟨e, r, hA, hcheck⟩ := Effect.fails_iff.1 hcheck
  simp only [Bool.and_eq_true, decide_eq_true_eq, List.isEmpty_iff] at hcheck
  obtain ⟨⟨⟨hne, hidle⟩, hB⟩, hC⟩ := hcheck
  obtain ⟨c, r', hok, hB⟩ := Effect.succeeds_iff.1 hB
  obtain ⟨e', doc', hread, he'⟩ := Effect.fails_iff.1 hB
  obtain ⟨c', r'', hC, -⟩ := Effect.succeeds_iff.1 hC
  exact ⟨e, r, hA, hne, hidle, ⟨c, r', hok, _, doc', of_decide_eq_true he' ▸ hread⟩, c', r'', hC⟩

theorem session_converters_poison : ∃ c r, Session (ofModules [poisonModule] []) r [(.named "demo::C" [], c)] ∧
    ∀ fuel doc e doc', c.read r.store.delegates fuel doc = .error e doc' → e.isViolation = false := by
  obtain ⟨e, r, hA, hne, -, -, c, r', hC⟩ := resolveIn_poison
  have hsession : Session (ofModules [poisonModule] []) r' [(.named "demo::C" [], c)] :=
    .resolvedIn (.failedIn .start hA hne) hC
  have hresolves : Resolves (ofModules [poisonModule] []) (.named "demo::C" []) := ⟨3, _, _, rfl⟩
  refine ⟨c, r', hsession, ?_⟩
  exact ((session_converters poisonModule_generates (by simp) hsession (List.mem_singleton_self _)).2 hresolves).1

/-- A converter that a context gives after a failure may raise a violation: here the first call fails for want of a
type, the second one succeeds, and its converter meets the placeholder of the type of the first. -/
theorem not_forall_session_mild :
    ¬∀ ms : List AdapterModule, (∀ m ∈ ms, ∃ model : Model, model.Generates m) →
      ∀ r held, Session (ofModules ms []) r held → r.context.inFlight = [] →
        ∀ fuel ty c r', (ofModules ms []).resolveIn fuel ty r = .ok c r' →
          ∀ fuel doc e doc', c.read r'.store.delegates fuel doc = .error e doc' →
            ∀ t, e ≠ .violation (.unsetDelegate t) := by
  intro hall
  obtain ⟨e, r, hA, hne, hidle, ⟨c, r', hB, doc, doc', hread⟩, -⟩ := resolveIn_poison
  exact hall _ poisonModule_generates r [] (.failedIn .start hA hne) hidle 1 _ c r' hB 3 doc _ doc' hread _ rfl

end Registry

end Marshal
