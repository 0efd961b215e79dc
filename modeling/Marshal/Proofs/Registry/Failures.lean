import Marshal.Proofs.Registry.Contexts

/-!
# Failures in the middle of a construction

A resolution that fails leaves the types that it has entered, wherever it was called from, and nothing that was
finished on the way is lost or finished again (`Withdraws`).  A fault for want of a source bears the types that were
under construction when it was raised: those of the caller, and behind them a chain of types each of which needs the
next one.
-/

namespace Marshal

open Effect

namespace Registry

variable {ms : List AdapterModule} {att : List (String × Converter)}

/-! ### Contexts under way -/

/-- What a registry and a context come to, between calls or in the middle of a construction.  A call that runs out of
fuel has not returned. -/
inductive Reached (ms : List AdapterModule) (att : List (String × Converter)) : Resolution → Prop
  | start : Reached ms att ⟨.empty, .empty⟩
  /-- The next call has a context of its own. -/
  | anew {r : Resolution} (h : Reached ms att r) : Reached ms att ⟨r.store, .empty⟩
  | resolvedIn {fuel : Nat} {ty : TypeRef} {c : Converter} {r r' : Resolution} (h : Reached ms att r)
    (hc : (ofModules ms att).resolveIn fuel ty r = .ok c r') : Reached ms att r'
  | failedIn {fuel : Nat} {ty : TypeRef} {e : Error} {r r' : Resolution} (h : Reached ms att r)
    (he : (ofModules ms att).resolveIn fuel ty r = .error e r') (hne : e ≠ .outOfFuel) : Reached ms att r'
  /-- The registry is also used without the context. -/
  | resolved {fuel : Nat} {ty : TypeRef} {c : Converter} {r : Resolution} {s : Store} (h : Reached ms att r)
    (hc : (ofModules ms att).resolve fuel ty r.store = .ok c s) : Reached ms att { r with store := s }
  | failed {fuel : Nat} {ty : TypeRef} {e : Error} {r : Resolution} {s : Store} (h : Reached ms att r)
    (he : (ofModules ms att).resolve fuel ty r.store = .error e s) : Reached ms att { r with store := s }
  /-- The construction of a type begins. -/
  | entered {ty : TypeRef} {r : Resolution} (h : Reached ms att r) (hk : known? r ty = none) : Reached ms att
      (r.enter ty)
  /-- A construction takes a native converter. -/
  | allotted {r : Resolution} (h : Reached ms att r) : Reached ms att r.allot

private theorem Obtains.reached {ps : List Part} {cs : List Converter} {r r' : Resolution} {fuel : Nat}
    (h : Obtains ms att (fun ty r c r' => (ofModules ms att).resolveIn fuel ty r = .ok c r') ps r cs r')
    (hr : Reached ms att r) : Reached ms att r' := by
  induction h with
  | nil => exact hr
  | resolved hc _ ih => exact ih (hr.resolvedIn hc)
  | native _ ih => exact ih hr.allotted
  | attached _ _ ih => exact ih hr

/-- A construction is in its middle once some of the parts were obtained. -/
private theorem Reached.obtained {r r₁ : Resolution} (h : Reached ms att r) {ty : TypeRef} (hk : known? r ty = none)
    {fuel : Nat} {ps : List Part} {cs : List Converter}
    (hps : ps.mapM (·.obtain ((ofModules ms att).resolver fuel)) (r.enter ty) = .ok cs r₁) : Reached ms att r₁ :=
  (obtains_of_mapM ps _ cs r₁ hps).reached (h.entered hk)

/-! ### Failures -/

private theorem trace_enter (ty : TypeRef) (r : Resolution) :
    (r.enter ty).context.trace = r.context.trace ++ [ty] := by
  simp [Resolution.enter, Context.enter, Context.trace]

private theorem trace_congr {r r' : Resolution} (h : r'.context.inFlight = r.context.inFlight) :
    r'.context.trace = r.context.trace := by
  rw [Context.trace, Context.trace, h]

private theorem finishes_allot (N : TypeRef → Prop) (r : Resolution) : Finishes ms N [] r r.allot :=
  { Finishes.refl r with }

/-- What a failure comes to, where the types in `D` were to be resolved. -/
structure Withdraws (ms : List AdapterModule) (D : TypeRef → Prop) (r : Resolution) (e : Error) (r' : Resolution) :
    Prop where
  breaksOff : e.breaksOff = false
  inFlight : r'.context.inFlight = r.context.inFlight
  finishes : ∃ new, Finishes ms (fun t => ∃ d, D d ∧ t ∈ closure ms d) new r r'
  /-- The trace goes on from one of the types to the one that has no source. -/
  chain : ∀ t trace, e = .unsupportedType t trace → ∃ d rest, D d ∧ trace = r.context.trace ++ d :: rest ∧
    (d :: rest).IsChain (Needs ms) ∧ (d :: rest).getLast? = some t

namespace Withdraws

variable {D D' : TypeRef → Prop} {r r₁ r' : Resolution} {e : Error}

private theorem mono (hD : ∀ d, D d → D' d) (h : Withdraws ms D r e r') : Withdraws ms D' r e r' where
  breaksOff := h.breaksOff
  inFlight := h.inFlight
  finishes := by
    obtain ⟨new, hnew⟩ := h.finishes
    exact ⟨new, hnew.mono fun t ⟨d, hd, ht⟩ => ⟨d, hD d hd, ht⟩⟩
  chain t trace he := by
    obtain ⟨d, rest, hd, hchain⟩ := h.chain t trace he
    exact ⟨d, rest, hD d hd, hchain⟩

/-- Something succeeded first. -/
private theorem after {new : List (TypeRef × Converter)} (hext : Extends r r₁)
    (hnew : Finishes ms (fun t => ∃ d, D d ∧ t ∈ closure ms d) new r r₁) (h : Withdraws ms D r₁ e r') :
    Withdraws ms D r e r' where
  breaksOff := h.breaksOff
  inFlight := h.inFlight.trans hext.inFlight
  finishes := by
    obtain ⟨new', hnew'⟩ := h.finishes
    exact ⟨new ++ new', .trans hext hnew hnew'⟩
  chain := by
    rw [← trace_congr hext.inFlight]
    exact h.chain

/-- A construction fails with one of its parts, and its type is left. -/
private theorem construction {ty : TypeRef} {p : Recipe} (hp : recipe? ms ty = some p)
    (h : Withdraws ms (Part.resolved · ∈ p.parts) (r.enter ty) e r₁) : Withdraws ms (· = ty) r e (leave e r₁) := by
  have hneeds {d : TypeRef} (hd : Part.resolved d ∈ p.parts) : Needs ms ty d := ⟨p, hp, Recipe.mem_deps.2 hd⟩
  have hleave : leave e r₁ = r₁.exit := by rw [leave, h.breaksOff, if_neg Bool.false_ne_true]
  rw [hleave]
  constructor
  case breaksOff => exact h.breaksOff
  case inFlight =>
    show r₁.context.inFlight.tail = _
    rw [h.inFlight]
    rfl
  case finishes =>
    obtain ⟨new, hnew⟩ := h.finishes
    refine ⟨new, { hnew with needed := fun t ht => ?_, unknown := fun t ht => ?_ }⟩
    · obtain ⟨d, hd, htd⟩ := hnew.needed t ht
      exact ⟨ty, rfl, .head (hneeds hd) htd⟩
    · by_contra hne
      have hknown : (known? (r.enter ty) t).isSome := known?_enter (Option.isSome_iff_ne_none.2 hne)
      rw [hnew.unknown t ht] at hknown
      cases hknown
  case chain =>
    intro t trace he
    obtain ⟨d, rest, hd, rfl, hchain, hlast⟩ := h.chain t trace he
    refine ⟨ty, d :: rest, rfl, ?_, List.isChain_cons_cons.2 ⟨hneeds hd, hchain⟩, ?_⟩
    · rw [trace_enter, List.append_assoc, List.singleton_append]
    · rw [List.getLast?_cons_cons, hlast]

end Withdraws

private theorem Breaks.withdraws {ps : List Part} {e : Error} {r r' : Resolution}
    (h : Breaks ms att (fun ty r _ r' => (Fresh r → Fresh r') ∧ Completes ms ty r r')
      (fun ty r e r' => Fresh r → e ≠ .outOfFuel → Withdraws ms (· = ty) r e r') ps r e r') (hr : Fresh r)
    (hne : e ≠ .outOfFuel) : Withdraws ms (Part.resolved · ∈ ps) r e r' := by
  have htail {p : Part} {ps : List Part} (d : TypeRef) (hd : Part.resolved d ∈ ps) : Part.resolved d ∈ p :: ps :=
    List.mem_cons_of_mem p hd
  induction h with
  | here he =>
    refine (he hr hne).mono ?_
    rintro d rfl
    exact List.mem_cons_self ..
  | unknown => exact ⟨rfl, rfl, ⟨[], .refl _⟩, nofun⟩
  | @resolved ty ps c e r r₁ r' hc _ ih =>
    obtain ⟨hfresh, hext, new, hnew⟩ := hc
    exact ((ih (hfresh hr) hne).mono htail).after hext (hnew.mono fun t ht => ⟨ty, List.mem_cons_self .., ht⟩)
  | native _ ih =>
    exact ((ih (fresh_allot hr) hne).mono htail).after (extends_allot _) (finishes_allot _ _)
  | attached _ _ ih => exact (ih hr hne).mono htail

/-- A resolution that fails for another reason than want of fuel withdraws. -/
private theorem withdraws_of_resolveIn {fuel : Nat} {ty : TypeRef} {e : Error} {r r' : Resolution}
    (h : (ofModules ms att).resolveIn fuel ty r = .error e r') (hr : Fresh r) (hne : e ≠ .outOfFuel) :
    Withdraws ms (· = ty) r e r' := by
  refine resolveIn_error_induction (fun ty r _ r' => (Fresh r → Fresh r') ∧ Completes ms ty r r')
    (fun ty r e r' => Fresh r → e ≠ .outOfFuel → Withdraws ms (· = ty) r e r')
    (fun _ _ _ _ _ hok => ⟨(fresh_of_resolveIn hok).2, completes_of_resolveIn hok⟩) ?_ ?_ ?_ ?_ fuel ty r
      e r' h hr hne
  · exact fun _ _ _ hne => absurd rfl hne
  · intro ty r _ _ _ _
    refine ⟨rfl, rfl, ⟨[], { Finishes.refl r with }⟩, fun t trace he => ?_⟩
    obtain ⟨rfl, rfl⟩ := Error.unsupportedType.inj he
    exact ⟨ty, [], rfl, trace_enter ty r, List.isChain_singleton ty, rfl⟩
  · intro ty r p e r₁ _ hp hb hr hne
    exact (hb.withdraws (fresh_enter hr ty) hne).construction hp
  · intro ty r p cs r₁ tallies _ _ hcs hbound hr _
    -- the number of the type under construction is still free
    have hext : Extends (r.enter ty) r₁ := (hcs.mono fun _ _ _ _ h => h.2.1).extends
    exact absurd ((hext.delegates _ (Nat.lt_succ_self _)).trans (hr _ (Nat.le_refl _))) hbound

/-! ### The invariant of a context -/

/-- Numbers from `nextId` on are free, no type is under construction twice and none was finished twice. -/
structure Tidy (r : Resolution) : Prop where
  fresh : Fresh r
  trace : r.context.trace.Nodup
  finished : r.context.finished.Nodup

/-- What is finished on the way was not finished before. -/
private theorem Finishes.nodup_finished {N : TypeRef → Prop} {new : List (TypeRef × Converter)} {r r' : Resolution}
    (h : Finishes ms N new r r') (hr : r.context.finished.Nodup) : r'.context.finished.Nodup := by
  rw [Context.finished, h.pending, List.map_append, List.nodup_append]
  refine ⟨hr, h.nodup, ?_⟩
  rintro t ht _ ht' rfl
  have hknown : (known? r t).isSome := known?_isSome.2 (.inl (.inr (isSome_lookup.2 ht)))
  rw [h.unknown t ht'] at hknown
  cases hknown

private theorem Tidy.of_reached {r : Resolution} (h : Reached ms att r) : Tidy r := by
  induction h with
  | start => exact ⟨fun _ _ => rfl, List.nodup_nil, List.nodup_nil⟩
  | anew _ ih => exact ⟨ih.fresh, List.nodup_nil, List.nodup_nil⟩
  | resolvedIn _ hc ih =>
    obtain ⟨hext, new, hnew⟩ := completes_of_resolveIn hc
    exact ⟨(fresh_of_resolveIn hc).2 ih.fresh, trace_congr hext.inFlight ▸ ih.trace, hnew.nodup_finished ih.finished⟩
  | failedIn _ he hne ih =>
    obtain ⟨-, hin, ⟨new, hnew⟩, -⟩ := withdraws_of_resolveIn he ih.fresh hne
    exact ⟨(outOfFuel_of_resolveIn he ih.fresh).1, trace_congr hin ▸ ih.trace, hnew.nodup_finished ih.finished⟩
  | resolved _ hc ih =>
    refine ⟨?_, ih.trace, ih.finished⟩
    rcases resolve_ok hc with ⟨-, rfl⟩ | ⟨c, r, -, hr, rfl, -⟩
    · exact ih.fresh
    · obtain ⟨cache, hcommit⟩ := commitAll_eq r.context.pending r.store
      rw [hcommit]
      exact (fresh_of_resolveIn hr).2 ih.fresh
  | failed _ he ih =>
    obtain ⟨r, hr, rfl⟩ := resolve_error he
    exact ⟨(outOfFuel_of_resolveIn hr ih.fresh).1, ih.trace, ih.finished⟩
  | @entered ty r _ hk ih =>
    refine ⟨fresh_enter ih.fresh ty, ?_, ih.finished⟩
    rw [trace_enter, List.nodup_append]
    refine ⟨ih.trace, List.nodup_singleton ty, ?_⟩
    rintro t ht _ ht' rfl
    obtain rfl := List.mem_singleton.1 ht'
    have hknown : (known? r t).isSome := known?_isSome.2 (.inr (isSome_lookup.2 (List.mem_reverse.1 ht)))
    rw [hk] at hknown
    cases hknown
  | allotted _ ih => exact ⟨fresh_allot ih.fresh, ih.trace, ih.finished⟩

/-- Whatever a context was used for before, and in the middle of whatever construction: a resolution that fails leaves
the types under construction as they were, each of them once, and the cache too.  What was finished before is there
still, and more types may have been finished, but none again.  For want of a source the trace shows the types that
were under construction before and behind them a chain from the type to the one that has no source, in which each type
needs the next one. -/
theorem failed_resolveIn_withdraws {r : Resolution} (hr : Reached ms att r) {fuel : Nat} {ty : TypeRef} {e : Error}
    {r' : Resolution} (h : (ofModules ms att).resolveIn fuel ty r = .error e r') (hne : e ≠ .outOfFuel) :
    r'.context.inFlight = r.context.inFlight ∧ r'.context.trace = r.context.trace ∧ r.context.trace.Nodup ∧
      r'.store.cache = r.store.cache ∧
      (∀ t c, r.context.pending? t = some c → r'.context.pending? t = some c) ∧
      (∃ new, r'.context.finished = r.context.finished ++ new ∧ r'.context.finished.Nodup) ∧
      ∀ t trace, e = .unsupportedType t trace → ∃ rest, trace = r.context.trace ++ ty :: rest ∧
        Error.traceText trace = " (while resolving " ++
          " -> ".intercalate (r.context.trace.map TypeRef.plain ++ (ty :: rest).map TypeRef.plain) ++ ")" ∧
        (ty :: rest).IsChain (Needs ms) ∧ (ty :: rest).getLast? = some t := by
  have htidy := Tidy.of_reached hr
  obtain ⟨-, hin, ⟨new, hnew⟩, hchain⟩ := withdraws_of_resolveIn h htidy.fresh hne
  refine ⟨hin, trace_congr hin, htidy.trace, (keeps_of_resolveIn h).cache, fun t c hc => ?_,
    ⟨new.map (·.1), ?_, hnew.nodup_finished htidy.finished⟩, fun t trace he => ?_⟩
  · rw [Context.pending?] at hc
    rw [Context.pending?, hnew.pending, List.lookup_append, hc, Option.some_or]
  · rw [Context.finished, hnew.pending, List.map_append]
    rfl
  · obtain ⟨_, rest, rfl, rfl, hlinks, hlast⟩ := hchain t trace he
    refine ⟨rest, rfl, ?_, hlinks, hlast⟩
    rw [Error.traceText, if_neg (by simp), List.map_append]

def poisonList : TypeRef := .named "Vec" [.named "demo::A" []]

def poisonMap : TypeRef := .named "HashMap" [poisonList, .named "demo::C" []]

/-- In the middle of the construction of a map, whose values have a converter already, the sequences that are its keys
fail: of the structures that hold each other one is finished on the way, and the trace goes from the map to the type
that nothing has a converter for. -/
theorem failed_resolveIn_withdraws_poison : ∃ r e r', Reached [poisonModule] [] r ∧
    (ofModules [poisonModule] []).resolveIn 4 poisonList r = .error e r' ∧ e ≠ .outOfFuel ∧
    r.context.trace = [poisonMap] ∧ r'.context.trace = [poisonMap] ∧
    r.context.finished = [.named "demo::C" []] ∧ r'.context.finished = [.named "demo::C" [], .named "demo::B" []] ∧
    r'.context.finished.Nodup ∧ r'.store.cache = r.store.cache ∧
    ∃ rest trace, e = .unsupportedType (.named "demo::Missing" []) trace ∧
      trace = poisonMap :: poisonList :: rest ∧ (poisonList :: rest).IsChain (Needs [poisonModule]) ∧
      e.message = "no converter for `demo::Missing`" ++
        " (while resolving HashMap<Vec<demo::A>, demo::C> -> Vec<demo::A> -> demo::A -> demo::Missing)" := by
  have hcheck : Effect.succeeds (fun _ r => decide (r.context.trace = [poisonMap]) &&
      decide (r.context.finished = [.named "demo::C" []]) &&
      Effect.fails (fun e r' => decide (r'.context.finished = [.named "demo::C" [], .named "demo::B" []]) &&
          decide (e = .unsupportedType (.named "demo::Missing" []) [poisonMap, poisonList, .named "demo::A" [],
            .named "demo::Missing" []]))
        ((ofModules [poisonModule] []).resolveIn 4 poisonList r))
      ([Part.resolved (.named "demo::C" [])].mapM (·.obtain ((ofModules [poisonModule] []).resolver 3))
        (Resolution.enter poisonMap ⟨.empty, .empty⟩)) = true := by decide +kernel
  obtain ⟨cs, r, hC, hcheck⟩ := Effect.succeeds_iff.1 hcheck
  simp only [Bool.and_eq_true, decide_eq_true_eq] at hcheck
  obtain ⟨⟨htrace, hfinished⟩, hA⟩ := hcheck
  obtain ⟨e, r', hA, hcheck⟩ := Effect.fails_iff.1 hA
  simp only [Bool.and_eq_true, decide_eq_true_eq] at hcheck
  obtain ⟨hfinished', rfl⟩ := hcheck
  have hreached : Reached [poisonModule] [] r := Reached.start.obtained rfl hC
  obtain ⟨-, hsame, -, hcache, -, ⟨-, -, hnodup⟩, hchain⟩ := failed_resolveIn_withdraws hreached hA (by decide)
  obtain ⟨rest, heq, -, hlinks, -⟩ := hchain _ _ rfl
  refine ⟨r, _, r', hreached, hA,
    by decide, htrace, hsame.trans htrace, hfinished, hfinished', hnodup, hcache, rest, _, rfl,
    ?_, hlinks, by decide +kernel⟩
  rw [heq, htrace]
  rfl

end Registry

end Marshal
