import Marshal.Proofs.Adapter.Unattached
import Marshal.Proofs.Registry.Reruns

/-!
# Converters of one type

Two registries may build the converter of a type in different shapes: which of its parts are placeholders depends on
what was resolved before, and the recipes may differ by converters that are attached for one direction.  Where the
placeholders are bound, the two converters match all the same, part by part (`Matched`), and whatever one of them
reads, or writes, in the other direction, the other one reads or writes as well.  If both registries have the same
modules, they match in both directions (`Counterparts`).
-/

namespace Marshal

open Effect

/-- A converter without placeholders, as any converter is that comes from outside: a placeholder is bound in the store
of the registry that made it. -/
def Converter.Detached (c : Converter) : Prop := ∀ id ty, ¬c.Reaches [] (.placeholder id ty)

private theorem Converter.Detached.of_mem_bindings {b c : Converter} (h : c.Detached) (hb : b ∈ c.bindings) :
    b.Detached :=
  fun id ty hreach => h id ty (.binding hb hreach)

/-- Whatever is bound is bound to the same converter later. -/
def Delegates.Extended (ds ds' : Delegates) : Prop := ∀ id c, ds.find? id = some c → ds'.find? id = some c

namespace Registry

variable {ms ms' : List AdapterModule} {att : List (String × Converter)} {ds ds' : Delegates}

/-! ### Converters of a type -/

/-- A converter of the type, all of whose placeholders are bound. -/
def Denotes (ms : List AdapterModule) (att : List (String × Converter)) (ds : Delegates) (ty : TypeRef)
    (c : Converter) : Prop :=
  ∃ P : Nat → TypeRef → Prop, (∀ id t, P id t → ∃ d, ds.find? id = some d ∧ Built ms att P t d) ∧ Stands ms att P ty c

/-- What a part of a recipe has become. -/
def DenotesPart (ms : List AdapterModule) (att : List (String × Converter)) (ds : Delegates) : Part → Converter → Prop
  | .resolved t, c => Denotes ms att ds t c
  | .native kind, c => ∃ n, c = .native n kind
  | .attached path, c => (ofModules ms att).attached? path = some c

private theorem Settled.denotes {P : Nat → TypeRef → Prop} {s : Store} (hs : Settled ms att P s) {ty : TypeRef}
    {c : Converter} (hc : Stands ms att P ty c) : Denotes ms att s.delegates ty c := ⟨P, hs.bound, hc⟩

/-- A converter of a type that is no placeholder is built from converters of its parts. -/
theorem Denotes.parts {P : Nat → TypeRef → Prop}
    (hP : ∀ id t, P id t → ∃ d, ds.find? id = some d ∧ Built ms att P t d) {ty : TypeRef} {c : Converter}
    (h : Built ms att P ty c) :
    ∃ p id cs, recipe? ms ty = some p ∧ c = p.assemble id cs ∧ List.Forall₂ (DenotesPart ms att ds) p.parts cs := by
  obtain ⟨p, id, cs, hp, hcs, rfl⟩ := h.exists_recipe
  refine ⟨p, id, cs, hp, rfl, hcs.imp fun part c hc => ?_⟩
  cases part with
  | resolved t => exact ⟨P, hP, hc⟩
  | native kind => exact hc
  | attached path => exact hc

/-- A converter of a type is the placeholder of another one, which is none, or built from converters of its parts. -/
theorem Denotes.shape {ty : TypeRef} {c : Converter} (h : Denotes ms att ds ty c) :
    (∃ id d p n cs, c = .placeholder id ty ∧ ds.find? id = some d ∧ Denotes ms att ds ty d ∧ recipe? ms ty = some p ∧
        d = p.assemble n cs ∧ List.Forall₂ (DenotesPart ms att ds) p.parts cs) ∨
      ∃ p n cs, recipe? ms ty = some p ∧ c = p.assemble n cs ∧ List.Forall₂ (DenotesPart ms att ds) p.parts cs := by
  obtain ⟨P, hP, hstands⟩ := h
  cases hstands with
  | @placeholder id _ hid =>
    obtain ⟨d, hd, hbuilt⟩ := hP id ty hid
    obtain ⟨p, n, cs, hp, heq, hcs⟩ := Denotes.parts hP hbuilt
    exact .inl ⟨id, d, p, n, cs, rfl, hd, ⟨P, hP, hbuilt.1⟩, hp, heq, hcs⟩
  | @built _ p id cs hp hlen hresolved hnative hattached =>
    exact .inr (Denotes.parts hP ⟨.built id hp hlen hresolved hnative hattached, p.assemble_ne_placeholder id cs⟩)

/-! ### Recipes that are alike -/

/-- The two lists of modules have recipes for the same types, and they are alike but for converters that are attached
for the given use. -/
def AlikeRecipes (usage : ConverterUse) (att : List (String × Converter)) (ms ms' : List AdapterModule) : Prop :=
  ∀ ty, Option.Rel (Recipe.Alike (attaches att) usage) (recipe? ms ty) (recipe? ms' ty)

namespace AlikeRecipes

variable {usage : ConverterUse}

private theorem refl (usage : ConverterUse) (att : List (String × Converter)) (ms : List AdapterModule) :
    AlikeRecipes usage att ms ms := by
  intro ty
  cases recipe? ms ty with
  | none => exact .none
  | some p => exact .some (.same p)

theorem symm (h : AlikeRecipes usage att ms ms') : AlikeRecipes usage att ms' ms := by
  intro ty
  have hty := h ty
  generalize recipe? ms ty = p?, recipe? ms' ty = p'? at hty ⊢
  cases hty with
  | none => exact .none
  | some hp => exact .some hp.symm

private theorem needed_of_alike {p p' : Recipe} (h : p.Alike (attaches att) usage p') :
    p.needed att = p'.needed att := by
  cases h with
  | same => rfl
  | struct slot target args h =>
    have hneeded (bs : List Binding) : (bs.map (·.part args)).filter (fun part => !part.isGiven att) =
        (Binding.others (attaches att) bs).map (·.part args) := by
      have hgiven (b : Binding) : (b.part args).isGiven att = b.source.isAmong (attaches att) := by
        unfold Binding.part
        cases b.source <;> rfl
      rw [List.filter_map, Binding.others, List.map_map]
      simp only [Function.comp_def, hgiven, Binding.part_bare]
    simp only [Recipe.needed, Recipe.parts, hneeded, h.others]

private theorem sameNeeds (h : AlikeRecipes usage att ms ms') : SameNeeds att ms ms' := by
  intro ty
  have hty := h ty
  generalize recipe? ms ty = p?, recipe? ms' ty = p'? at hty ⊢
  cases hty with
  | none => rfl
  | some hp => exact congrArg some (needed_of_alike hp)

private theorem of_eq_some (h : AlikeRecipes usage att ms ms') {ty : TypeRef} {p p' : Recipe}
    (hp : recipe? ms ty = some p) (hp' : recipe? ms' ty = some p') : p.Alike (attaches att) usage p' := by
  have hty := h ty
  rw [hp, hp'] at hty
  cases hty with
  | some halike => exact halike

end AlikeRecipes

/-! ### Converters that match -/

/-- Two converters that stand for the same on either side. -/
inductive Matched (ms ms' : List AdapterModule) (att : List (String × Converter)) (ds ds' : Delegates) :
    Converter → Converter → Prop
  | typed {ty : TypeRef} {c c' : Converter} (h : Denotes ms att ds ty c) (h' : Denotes ms' att ds' ty c') :
    Matched ms ms' att ds ds' c c'
  | native (id id' : Nat) (kind : NativeKind) : Matched ms ms' att ds ds' (.native id kind) (.native id' kind)
  | same {c : Converter} (h : c.Detached) : Matched ms ms' att ds ds' c c

/-- Two converters that stand for the same on either side, where both registries have the same modules. -/
abbrev Counterparts (ms : List AdapterModule) (att : List (String × Converter)) (ds ds' : Delegates) :
    Converter → Converter → Prop := Matched ms ms att ds ds'

/-- Two converters, neither of them a placeholder, that were built for one type from converters of its parts, or that
are of one form over converters that match. -/
inductive Assembled (ms ms' : List AdapterModule) (att : List (String × Converter)) (ds ds' : Delegates) :
    Converter → Converter → Prop
  | built {ty : TypeRef} {p p' : Recipe} {cs cs' : List Converter} (id id' : Nat) (hp : recipe? ms ty = some p)
    (hp' : recipe? ms' ty = some p') (hcs : List.Forall₂ (DenotesPart ms att ds) p.parts cs)
    (hcs' : List.Forall₂ (DenotesPart ms' att ds') p'.parts cs') :
    Assembled ms ms' att ds ds' (p.assemble id cs) (p'.assemble id' cs')
  | form {c c' : Converter} (h : Converter.Form (Matched ms ms' att ds ds') c c') : Assembled ms ms' att ds ds' c c'

theorem Matched.symm {c c' : Converter} (h : Matched ms ms' att ds ds' c c') : Matched ms' ms att ds' ds c' c := by
  cases h with
  | typed h h' => exact .typed h' h
  | native id id' kind => exact .native id' id kind
  | same h => exact .same h

/-- What one part has become on either side. -/
private theorem matched_of_part (hatt : ∀ p ∈ att, p.2.Detached) {part : Part} {c c' : Converter}
    (h : DenotesPart ms att ds part c) (h' : DenotesPart ms' att ds' part c') : Matched ms ms' att ds ds' c c' := by
  cases part with
  | resolved t => exact .typed h h'
  | native kind =>
    obtain ⟨n, rfl⟩ := h
    obtain ⟨n', rfl⟩ := h'
    exact .native n n' kind
  | attached path =>
    obtain rfl := Option.some.inj (Eq.trans (Eq.symm h) h')
    obtain ⟨p, hp, rfl⟩ := mem_of_attached? h
    exact .same (hatt p hp)

private theorem matched_of_parts (hatt : ∀ p ∈ att, p.2.Detached) {ps : List Part} {cs cs' : List Converter}
    (h : List.Forall₂ (DenotesPart ms att ds) ps cs) (h' : List.Forall₂ (DenotesPart ms' att ds') ps cs') :
    List.Forall₂ (Matched ms ms' att ds ds') cs cs' := by
  induction h generalizing cs' with
  | nil =>
    cases h'
    exact .nil
  | cons hc _ ih =>
    cases h' with
    | cons hc' hcs' => exact .cons (matched_of_part hatt hc hc') (ih hcs')

/-- The converters at positions with the same part match. -/
private theorem matched_of_samePart (hatt : ∀ p ∈ att, p.2.Detached) {bs bs' : List Binding} {args : List TypeRef}
    {cs cs' : List Converter} (h : List.Forall₂ (DenotesPart ms att ds) (bs.map (·.part args)) cs)
    (h' : List.Forall₂ (DenotesPart ms' att ds') (bs'.map (·.part args)) cs') {i j : Nat}
    (hij : SamePart bs bs' i j) : ∃ c c', cs[i]? = some c ∧ cs'[j]? = some c' ∧ Matched ms ms' att ds ds' c c' := by
  obtain ⟨b, b', hb, hb', hpart⟩ := hij
  rcases forall₂_getElem? h i with ⟨hnone, -⟩ | ⟨part, c, hi, hc, hden⟩
  · rw [List.getElem?_map, hb] at hnone
    cases hnone
  rcases forall₂_getElem? h' j with ⟨hnone, -⟩ | ⟨part', c', hj, hc', hden'⟩
  · rw [List.getElem?_map, hb'] at hnone
    cases hnone
  rw [List.getElem?_map, hb] at hi
  rw [List.getElem?_map, hb'] at hj
  obtain rfl : b.part args = part := Option.some.inj hi
  obtain rfl : b'.part args = part' := Option.some.inj hj
  exact ⟨c, c', hc, hc', matched_of_part hatt hden (hpart args ▸ hden')⟩

private theorem form_assemble {A : Converter → Converter → Prop} (p : Recipe) (id id' : Nat) {cs cs' : List Converter}
    (h : List.Forall₂ A cs cs') : Converter.Form A (p.assemble id cs) (p.assemble id' cs') := by
  cases p with
  | struct slot a target args => exact .struct id id' rfl rfl target _ h
  | enum slot index a => exact .enum id id' a
  | dynamic => exact .dynamic id id' true
  | native kind => exact .native id id' kind
  | list element i => exact .codec id id' _ h
  | objectMap key value i => exact .codec id id' _ h
  | pairMap key value i => exact .codec id id' _ h

private theorem form_of_detached {c : Converter} (h : c.Detached) :
    Converter.Form (Matched ms ms' att ds ds') c c := by
  have hbs : List.Forall₂ (Matched ms ms' att ds ds') c.bindings c.bindings :=
    List.forall₂_same.2 fun b hb => .same (h.of_mem_bindings hb)
  cases c with
  | native id kind => exact .native id id kind
  | dynamic id linked => exact .dynamic id id linked
  | codec id k bs => exact .codec id id k hbs
  | enum id a => exact .enum id id a
  | struct id a target bs linked => exact .struct id id rfl rfl target linked hbs
  | placeholder id ty => exact absurd (.refl _) (h id ty)
  | custom id x => exact .custom id id x

/-- Converters that match were built alike once the placeholders among them are resolved. -/
private theorem Matched.assembled {c c' : Converter} (h : Matched ms ms' att ds ds' c c') :
    (∃ id ty d, c = .placeholder id ty ∧ ds.find? id = some d ∧ Matched ms ms' att ds ds' d c') ∨
      (∃ id ty d', c' = .placeholder id ty ∧ ds'.find? id = some d' ∧ Assembled ms ms' att ds ds' c d') ∨
      Assembled ms ms' att ds ds' c c' := by
  cases h with
  | native id id' kind => exact .inr (.inr (.form (.native id id' kind)))
  | same h => exact .inr (.inr (.form (form_of_detached h)))
  | @typed ty _ _ h h' =>
    rcases h.shape with ⟨id, d, p, n, cs, rfl, hd, hden, -⟩ | ⟨p, n, cs, hp, rfl, hcs⟩
    · exact .inl ⟨id, ty, d, rfl, hd, .typed hden h'⟩
    · rcases h'.shape with ⟨id', d', p', n', cs', rfl, hd', -, hp', rfl, hcs'⟩ | ⟨p', n', cs', hp', rfl, hcs'⟩
      · exact .inr (.inl ⟨id', ty, _, rfl, hd', .built n n' hp hp' hcs hcs'⟩)
      · exact .inr (.inr (.built n n' hp hp' hcs hcs'))

/-! ### Reading -/

section Reading

variable (hatt : ∀ p ∈ att, p.2.Detached) (hms : AlikeRecipes .write att ms ms')

include hatt hms

private theorem Assembled.follows_read {fuel : Nat}
    (ih : ∀ c c', Matched ms ms' att ds ds' c c' → ReadFollows (c.read ds fuel) fun k => c'.read ds' k)
    {c c' : Converter} (h : Assembled ms ms' att ds ds' c c') :
    ReadFollows (c.read ds (fuel + 1)) fun k => c'.read ds' (k + 1) := by
  cases h with
  | form h => exact h.follows_read ih
  | built id id' hp hp' hcs hcs' =>
    cases hms.of_eq_some hp hp' with
    | same => exact (form_assemble _ id id' (matched_of_parts hatt hcs hcs')).follows_read ih
    | struct slot target args halike =>
      refine (halike.read rfl).follows_read (fun i j hij => ?_) target
      obtain ⟨d, d', hd, hd', hmatched⟩ := matched_of_samePart hatt hcs hcs' hij
      simp only [Converter.callBinding, hd, hd']
      exact ih d d' hmatched

/-- Converters that match read the same, if the recipes differ by converters for writing at most. -/
theorem Matched.follows_read (fuel : Nat) : ∀ c c' : Converter, Matched ms ms' att ds ds' c c' →
    ReadFollows (c.read ds fuel) fun k => c'.read ds' k := by
  induction fuel with
  | zero => exact fun c c' _ => Follows.outOfFuel
  | succ fuel ih =>
    intro c c' h
    rcases h.assembled with ⟨id, ty, d, rfl, hd, hdc⟩ | ⟨id, ty, d', rfl, hd, hassembled⟩ | hassembled
    · simp only [Converter.read, hd]
      exact ih d c' hdc
    · refine Follows.of_succ ?_
      simp only [Converter.read, hd]
      exact Follows.of_succ (hassembled.follows_read hatt hms ih)
    · exact Follows.of_succ (hassembled.follows_read hatt hms ih)

end Reading

/-- Counterparts read the same. -/
theorem Counterparts.follows_read (hatt : ∀ p ∈ att, p.2.Detached) (fuel : Nat) (c c' : Converter)
    (h : Counterparts ms att ds ds' c c') : ReadFollows (c.read ds fuel) fun k => c'.read ds' k :=
  Matched.follows_read hatt (.refl .write att ms) fuel c c' h

/-! ### Writing -/

/-- The stores of two registries at the same stage of their lives, one for each list of modules, where all that was
bound is bound still. -/
structure MatchedStores (ms ms' : List AdapterModule) (att : List (String × Converter)) (ds ds' : Delegates)
    (s s' : Store) : Prop where
  healthy : Healthy ms att s
  healthy' : Healthy ms' att s'
  alive : s.alive = s'.alive
  extended : ds.Extended s.delegates
  extended' : ds'.Extended s'.delegates

abbrev Both (ms : List AdapterModule) (att : List (String × Converter)) (ds ds' : Delegates) : Store → Store → Prop :=
  MatchedStores ms ms att ds ds'

theorem Later.extended {s s' : Store} (h : Later s s') (hs : Healthy ms att s) :
    s.delegates.Extended s'.delegates := by
  intro id c hc
  refine (h.delegates id ?_).trans hc
  by_contra hle
  rw [hs.fresh id (Nat.le_of_not_lt hle)] at hc
  cases hc

theorem MatchedStores.symm {s s' : Store} (h : MatchedStores ms ms' att ds ds' s s') :
    MatchedStores ms' ms att ds' ds s' s :=
  ⟨h.healthy', h.healthy, h.alive.symm, h.extended', h.extended⟩

private theorem MatchedStores.later {s s' s₁ s₁' : Store} (h : MatchedStores ms ms' att ds ds' s s')
    (hs : Healthy ms att s₁) (hs' : Healthy ms' att s₁') (hl : Later s s₁) (hl' : Later s' s₁') :
    MatchedStores ms ms' att ds ds' s₁ s₁' where
  healthy := hs
  healthy' := hs'
  alive := by rw [hl.alive, hl'.alive, h.alive]
  extended id c hc := hl.extended h.healthy id c (h.extended id c hc)
  extended' id c hc := hl'.extended h.healthy' id c (h.extended' id c hc)

theorem Healthy.denotes {s s' : Store} (hs : Healthy ms att s) {fuel : Nat} {ty : TypeRef} {c : Converter}
    (h : (ofModules ms att).resolve fuel ty s = .ok c s') : Denotes ms att s'.delegates ty c := by
  obtain ⟨P, hP⟩ := hs.settled
  obtain ⟨P', -, hP', hstands⟩ := hP.resolve h
  exact hP'.denotes hstands

/-- What the registries give out for the type of a value. -/
private theorem MatchedStores.resolveIfAlive (hms : SameNeeds att ms ms') {s s' : Store}
    (h : MatchedStores ms ms' att ds ds' s s') (fuel : Nat) (ty : TypeRef) :
    (∃ s₁, (ofModules ms att).resolveIfAlive fuel ty s = .error .outOfFuel s₁) ∨
      (∃ e s₁ s₁' n, (ofModules ms att).resolveIfAlive fuel ty s = .error e s₁ ∧
        (∀ k ≥ n, (ofModules ms' att).resolveIfAlive k ty s' = .error e s₁') ∧
          MatchedStores ms ms' att ds ds' s₁ s₁') ∨
      ∃ c c' s₁ s₁' n, (ofModules ms att).resolveIfAlive fuel ty s = .ok c s₁ ∧
        (∀ k ≥ n, (ofModules ms' att).resolveIfAlive k ty s' = .ok c' s₁') ∧ MatchedStores ms ms' att ds ds' s₁ s₁' ∧
        Matched ms ms' att s₁.delegates s₁'.delegates c c' := by
  by_cases halive : s.alive = true
  case neg =>
    have hdropped {ms : List AdapterModule} {s : Store} (hs : ¬s.alive = true) (k : Nat) :
        (ofModules ms att).resolveIfAlive k ty s = .error .registryDropped s := by
      rw [resolveIfAlive_apply, if_neg hs]
    exact .inr (.inl ⟨_, s, s', 0, hdropped halive fuel, fun k _ => hdropped (h.alive ▸ halive) k, h⟩)
  have heq {ms : List AdapterModule} {s : Store} (hs : s.alive = true) (k : Nat) :
      (ofModules ms att).resolveIfAlive k ty s = (ofModules ms att).resolve k ty s := by
    rw [resolveIfAlive_apply, if_pos hs]
  rw [heq halive]
  simp only [heq (h.alive ▸ halive : s'.alive = true)]
  rcases follows_resolve_needs hms fuel ty s s' ⟨h.healthy, h.healthy'⟩ with hout | ⟨n, x, hx, hagree⟩
  · exact .inl hout
  right
  have hx₀ := hx n (Nat.le_refl n)
  cases hres : (ofModules ms att).resolve fuel ty s with
  | error e s₁ =>
    rw [hres] at hagree
    obtain ⟨s₁', rfl, hs₁, hs₁'⟩ := hagree.of_error
    exact .inl ⟨e, s₁, s₁', n, rfl, hx, h.later hs₁ hs₁' (later_of_resolve_error hres) (later_of_resolve_error hx₀)⟩
  | ok c s₁ =>
    rw [hres] at hagree
    obtain ⟨c', s₁', rfl, -, hs₁, hs₁'⟩ := hagree.of_ok
    exact .inr ⟨c, c', s₁, s₁', n, rfl, hx, h.later hs₁ hs₁' (later_of_resolve hres) (later_of_resolve hx₀),
      .typed (h.healthy.denotes hres) (h.healthy'.denotes hx₀)⟩

section Writing

variable {fuel : Nat}
  (ih : ∀ (ds ds' : Delegates) (c c' : Converter), Matched ms ms' att ds ds' c c' → ∀ v,
    WriteFollows (MatchedStores ms ms' att ds ds') (c.write (ofModules ms att) fuel v) fun k =>
      c'.write (ofModules ms' att) k v)

include ih

private theorem follows_writeResolved (hms : SameNeeds att ms ms') (ds ds' : Delegates) (ty : TypeRef) (v : Value) :
    WriteFollows (MatchedStores ms ms' att ds ds')
      (Converter.writeResolved (ofModules ms att) fuel (Converter.write (ofModules ms att) fuel) ty v) fun k =>
        Converter.writeResolved (ofModules ms' att) k (Converter.write (ofModules ms' att) k) ty v := by
  rintro w w' ⟨hwriter, hstores⟩
  rcases hstores.resolveIfAlive hms fuel ty with ⟨s₁, hout⟩ | ⟨e, s₁, s₁', n, he, he', hlater⟩ |
    ⟨c, c', s₁, s₁', n, hc, hc', hlater, hmatched⟩
  · exact .inl ⟨_, bind_of_error (registry_error hout)⟩
  · refine .inr ⟨n, _, fun k hk => bind_of_error (registry_error (he' k hk)), ?_⟩
    rw [Converter.writeResolved, bind_of_error (registry_error he)]
    exact ⟨rfl, hwriter, hlater⟩
  · have hnow : MatchedStores ms ms' att s₁.delegates s₁'.delegates s₁ s₁' :=
      ⟨hlater.healthy, hlater.healthy', hlater.alive, fun _ _ => id, fun _ _ => id⟩
    rw [Converter.writeResolved, bind_of_ok (registry_ok hc)]
    rcases ih _ _ c c' hmatched (some v) { w with store := s₁ } { w' with store := s₁' } ⟨hwriter, hnow⟩ with
      hout | ⟨n', y, hy, hagree⟩
    · exact .inl hout
    -- what was bound before is bound still, also after the value was written
    have hback (w w' : Writing) (h : Beside (MatchedStores ms ms' att s₁.delegates s₁'.delegates) w w') :
        Beside (MatchedStores ms ms' att ds ds') w w' :=
      ⟨h.1, h.2.healthy, h.2.healthy', h.2.alive, fun id d hd => h.2.extended id d (hlater.extended id d hd),
        fun id d hd => h.2.extended' id d (hlater.extended' id d hd)⟩
    refine .inr ⟨max n n', y, fun k hk => ?_, hagree.mono hback hback⟩
    exact (bind_of_ok (registry_ok (hc' k (le_trans (le_max_left _ _) hk)))).trans
      (hy k (le_trans (le_max_right _ _) hk))

variable (hatt : ∀ p ∈ att, p.2.Detached) (hms : AlikeRecipes .read att ms ms')

include hatt hms

private theorem Assembled.follows_write {c c' : Converter} (h : Assembled ms ms' att ds ds' c c') (v : Option Value) :
    WriteFollows (MatchedStores ms ms' att ds ds') (c.write (ofModules ms att) (fuel + 1) v) fun k =>
      c'.write (ofModules ms' att) (k + 1) v := by
  have hresolved := follows_writeResolved ih hms.sameNeeds ds ds'
  cases h with
  | form h => exact h.follows_write (ih ds ds') hresolved v
  | built id id' hp hp' hcs hcs' =>
    cases hms.of_eq_some hp hp' with
    | same => exact (form_assemble _ id id' (matched_of_parts hatt hcs hcs')).follows_write (ih ds ds') hresolved v
    | struct slot target args halike =>
      simp only [Recipe.assemble, Converter.write, halike.needsRegistry]
      refine StructAdapter.follows_writeInstance (Converter.follows_typed hresolved _) (fun i j hij v => ?_)
        (halike.write rfl) target v
      obtain ⟨d, d', hd, hd', hmatched⟩ := matched_of_samePart hatt hcs hcs' hij
      simp only [Converter.writeBinding, hd, hd']
      exact ih ds ds' d d' hmatched v

end Writing

theorem write_placeholder {reg : Registry} {id fuel : Nat} {ty : TypeRef} {c : Converter} {w : Writing}
    (h : w.store.delegates.find? id = some c) (v : Option Value) :
    (Converter.placeholder id ty).write reg (fuel + 1) v w = c.write reg fuel v w := by
  rw [Converter.write, bind_of_ok (get_apply w)]
  simp only [h]

/-- Converters that match write the same, if the recipes differ by converters for reading at most. -/
theorem Matched.follows_write (hatt : ∀ p ∈ att, p.2.Detached) (hms : AlikeRecipes .read att ms ms') (fuel : Nat) :
    ∀ (ds ds' : Delegates) (c c' : Converter), Matched ms ms' att ds ds' c c' → ∀ v,
      WriteFollows (MatchedStores ms ms' att ds ds') (c.write (ofModules ms att) fuel v) fun k =>
        c'.write (ofModules ms' att) k v := by
  induction fuel with
  | zero => exact fun ds ds' c c' _ v => Follows.outOfFuel
  | succ fuel ih =>
    intro ds ds' c c' h v
    rcases h.assembled with ⟨id, ty, d, rfl, hd, hdc⟩ | ⟨id, ty, d', rfl, hd, hassembled⟩ | hassembled
    · refine Follows.congr (fun w w' hw => write_placeholder (hw.2.extended id d hd) v) (fun _ _ _ _ => rfl) ?_
      exact ih ds ds' d c' hdc v
    · refine Follows.of_succ (Follows.congr (fun _ _ _ => rfl)
        (fun w w' hw k => write_placeholder (hw.2.extended' id d' hd) v) ?_)
      exact Follows.of_succ (hassembled.follows_write ih hatt hms v)
    · exact Follows.of_succ (hassembled.follows_write ih hatt hms v)

/-- Counterparts write the same. -/
theorem Counterparts.follows_write (hatt : ∀ p ∈ att, p.2.Detached) (fuel : Nat) (ds ds' : Delegates)
    (c c' : Converter) (h : Counterparts ms att ds ds' c c') (v : Option Value) :
    WriteFollows (Both ms att ds ds') (c.write (ofModules ms att) fuel v) fun k => c'.write (ofModules ms att) k v :=
  Matched.follows_write hatt (.refl .read att ms) fuel ds ds' c c' h v

end Registry

end Marshal
