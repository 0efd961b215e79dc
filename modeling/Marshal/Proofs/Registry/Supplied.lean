import Marshal.Proofs.Adapter.Grounded
import Marshal.Proofs.Registry.Resolvable
import Marshal.Proofs.Registry.Sources

/-!
# Supplied registries

A generated module says which types it takes from elsewhere.  A registry with the module resolves the declared types
if other sources supply what the module requires, the types marked as having an adapter of a subtype, and the attached
converters; but generation looks at the type of a leaf only and not into its arguments, so what is reached through an
argument must be supplied too unless it is declared or standard (`resolve_of_supplied`).
-/

namespace Marshal

open Effect

/-- The types that a recipe takes by way of type arguments: those that the parameters of a structure lead to, and what
a container holds. -/
def Recipe.arguments : Recipe → List TypeRef
  | .struct _ a _ args => (a.bindings.filter fun b => !b.source.isRegistry).filterMap fun b => (b.part args).resolved?
  | p => p.deps

namespace Source

/-- The position of a module matters to its counts only. -/
private theorem parts_moduleRecipe? (slot slot' : Nat) (m : AdapterModule) (ty : TypeRef) :
    (moduleRecipe? slot m ty).map Recipe.parts = (moduleRecipe? slot' m ty).map Recipe.parts := by
  unfold moduleRecipe?
  cases dispatch? m ty with
  | none => rfl
  | some found =>
    obtain ⟨entry, hit⟩ := found
    dsimp only
    cases m.adapters[hit.adapter]? with
    | none => rfl
    | some a => cases a <;> rfl

theorem standardRecipe?_eq_some {ty : TypeRef} {p : Recipe} (h : standardRecipe? ty = some p) :
    p = .dynamic ∨ (∃ kind, p = .native kind) ∨ (∃ element i, ty.shape = .list element i ∧ p = .list element i) ∨
      ∃ key value i, ty.shape = .map key value i ∧
        (p = .pairMap key value i ∨ ∃ kind, p = .objectMap kind value i) := by
  unfold standardRecipe? at h
  by_cases hany : ty.isAny = true
  · rw [if_pos hany] at h
    exact .inl (Option.some.inj h).symm
  rw [if_neg hany] at h
  cases hs : ty.shape with
  | native kind =>
    simp only [hs, Option.some.injEq] at h
    exact .inr (.inl ⟨kind, h.symm⟩)
  | list element i =>
    simp only [hs, Option.some.injEq] at h
    exact .inr (.inr (.inl ⟨element, i, rfl, h.symm⟩))
  | map key value i =>
    refine .inr (.inr (.inr ⟨key, value, i, rfl, ?_⟩))
    cases hk : key.native?.filter (·.isKey) with
    | none =>
      simp only [hs, hk, Option.some.injEq] at h
      exact .inl h.symm
    | some kind =>
      simp only [hs, hk, Option.some.injEq] at h
      exact .inr ⟨kind, h.symm⟩
  | other => simp [hs] at h

/-- A standard recipe takes what its type holds. -/
private theorem filled_of_standardRecipe? {model : Model} {ty : TypeRef} {p : Recipe} (hty : ty.Filled model)
    (hp : standardRecipe? ty = some p) : (∀ u ∈ p.deps, u.Filled model) ∧ p.arguments = p.deps := by
  rcases standardRecipe?_eq_some hp with rfl | ⟨kind, rfl⟩ | ⟨element, i, hs, rfl⟩ | ⟨key, value, i, hs, hp⟩
  · exact ⟨nofun, rfl⟩
  · exact ⟨nofun, rfl⟩
  · refine ⟨fun u hu => ?_, rfl⟩
    obtain rfl : u = element := by simpa [Recipe.deps, Recipe.parts, Part.resolved?] using hu
    exact hty.of_list hs
  · obtain ⟨hkey, hvalue⟩ := hty.of_map hs
    rcases hp with rfl | ⟨kind, rfl⟩
    · refine ⟨fun u hu => ?_, rfl⟩
      obtain rfl | rfl : u = value ∨ u = key := by simpa [Recipe.deps, Recipe.parts, Part.resolved?] using hu
      · exact hvalue
      · exact hkey
    · refine ⟨fun u hu => ?_, rfl⟩
      obtain rfl : u = value := by simpa [Recipe.deps, Recipe.parts, Part.resolved?] using hu
      exact hvalue

end Source

namespace Registry

variable {model : Model} {m : AdapterModule}

private theorem recipe?_singleton (m : AdapterModule) (ty : TypeRef) :
    recipe? [m] ty = (Source.moduleRecipe? 0 m ty).or (Source.standardRecipe? ty) := by
  unfold recipe?
  cases h : Source.moduleRecipe? 0 m ty <;> simp [List.zipIdx, h]

/-! ### What a type takes -/

/-- A recipe of the module or of the standard source: that of a declared structure, whose bindings are grounded, or
one without bindings. -/
private theorem recipe?_grounded (hgen : model.Generates m)
    (hfilled : ∀ d ∈ model.types, ∀ f ∈ d.fields, f.ty.Filled model) :
    ∃ catalog : Catalog, m.required = catalog.required model ∧ ∀ t p, recipe? [m] t = some p →
      (∃ d ∈ model.types, ∃ a target args, p = .struct 0 a target args ∧ (args = t.args ∨ ∀ u ∈ args, u = .any) ∧
        ∀ b ∈ a.bindings, b.Fits d.params ∧ b.Grounded model d catalog) ∨
      (∃ i a, p = .enum 0 i a) ∨ Source.standardRecipe? t = some p := by
  obtain ⟨accessor, options, h⟩ := hgen
  obtain ⟨hdispatch, hserves⟩ := Model.generateWith_ok h
  obtain ⟨catalog, hrequired, hgrounded⟩ := Model.generateWith_grounded hfilled h
  refine ⟨catalog, hrequired, fun t p hp => ?_⟩
  rw [recipe?_singleton] at hp
  rcases Option.or_eq_some_iff.1 hp with hp | ⟨-, hp⟩
  · obtain ⟨path, args, a, -, ha, -, ⟨-, hargs⟩, ⟨x, rfl, rfl⟩ | ⟨x, i, rfl, rfl⟩⟩ :=
      Source.moduleRecipe?_eq_some hdispatch hp
    · obtain ⟨d, hd, htarget, hbindings⟩ := hgrounded x ha
      obtain ⟨d', hd', hserve⟩ := hserves _ ha
      obtain rfl : d' = d := by
        refine List.inj_on_of_nodup_map model.paths_nodup hd' hd ?_
        have heq : d'.selfType = d.selfType := hserve.target.symm.trans htarget
        exact (TypeRef.named.inj heq).1
      refine .inl ⟨d', hd, x, _, args, rfl, ?_, fun b hb => ?_⟩
      · rcases hargs with rfl | ⟨-, rfl⟩
        · exact .inl rfl
        · exact .inr fun u hu => List.eq_of_mem_replicate hu
      · cases hserve with
        | struct _ hx => exact ⟨hx.fits b hb, hbindings b hb⟩
    · exact .inr (.inl ⟨i, x, rfl⟩)
  · exact .inr (.inr hp)

section Takes

variable (hgen : model.Generates m) (hfilled : ∀ d ∈ model.types, ∀ f ∈ d.fields, f.ty.Filled model) {t : TypeRef}
  {p : Recipe} (hp : recipe? [m] t = some p)

include hgen hfilled hp

/-- What a recipe takes is reached by way of an argument, required from elsewhere, or declared and not without an
adapter. -/
private theorem dep_of_recipe? (ht : t.Filled model) {u : TypeRef} (hu : u ∈ p.deps) : u.Filled model ∧
    (u ∈ p.arguments ∨ u ∈ m.required ∨
      ∃ d ∈ model.types, u.path? = some d.path ∧ (d.isAbstract = true → model.hasSubtypeAdapter d.path = true)) := by
  obtain ⟨catalog, hrequired, hall⟩ := recipe?_grounded hgen hfilled
  rcases hall t p hp with ⟨d, -, a, target, args, rfl, hargs, hbindings⟩ | ⟨i, a, rfl⟩ | hstandard
  · obtain ⟨b, hb, hpart⟩ := List.mem_map.1 (Recipe.mem_deps.1 hu)
    obtain ⟨hfits, hgrounded⟩ := hbindings b hb
    have hsource : b.source.isAttached = false := by
      cases hs : b.source with
      | attached path => simp [Binding.part, hs] at hpart
      | known | registry | param | discover => rfl
    have hfill := hgrounded.filled hsource
    constructor
    · have hargs : ∀ v ∈ args, v.Filled model := by
        rcases hargs with rfl | hany
        · exact ht.of_args
        · exact fun v hv => hany v hv ▸ .any
      rcases hfits.part_eq hsource args with hres | ⟨kind, -, hnative⟩
      · obtain rfl : b.ty.substitute d.params args = u := Part.resolved.inj (hres.symm.trans hpart)
        exact hfill.substitute d.params hargs
      · rw [hnative] at hpart
        cases hpart
    · cases hregistry : b.source.isRegistry with
      | false =>
        have hmem : b ∈ a.bindings.filter fun b => !b.source.isRegistry :=
          List.mem_filter.2 ⟨hb, by rw [hregistry]; rfl⟩
        exact .inl (List.mem_filterMap.2 ⟨b, hmem, by rw [hpart]; rfl⟩)
      | true =>
        cases hs : b.source with
        | known | param | discover | attached =>
          rw [hs] at hregistry
          cases hregistry
        | registry getter =>
          obtain rfl : b.ty = u := by simpa [Binding.part, hs] using hpart
          rw [Binding.Grounded, hs] at hgrounded
          obtain ⟨-, htypes, hadapter⟩ := hgrounded
          right
          by_cases hscanned : Catalog.isScanned model b.ty = true
          · unfold Catalog.isScanned at hscanned
            cases hpath : b.ty.path? with
            | none => simp [hpath] at hscanned
            | some path =>
              simp only [hpath, Model.contains, Model.paths, List.contains_iff_mem] at hscanned
              obtain ⟨d', hd', rfl⟩ := List.mem_map.1 hscanned
              exact .inr ⟨d', hd', rfl, hadapter d' hd' hpath⟩
          · left
            rw [hrequired]
            exact List.mem_filter.2 ⟨htypes, by simpa using hscanned⟩
  · exact absurd hu List.not_mem_nil
  · obtain ⟨hdeps, harguments⟩ := Source.filled_of_standardRecipe? ht hstandard
    exact ⟨hdeps u hu, .inl (harguments ▸ hu)⟩

/-- An attached converter that a recipe takes is that of a field. -/
private theorem attached_of_recipe? {path : String} (hpath : Part.attached path ∈ p.parts) :
    ∃ d ∈ model.types, ∃ f ∈ d.fields, ∃ x, f.converter = some x ∧ x.path = path := by
  obtain ⟨catalog, -, hall⟩ := recipe?_grounded hgen hfilled
  rcases hall t p hp with ⟨d, hd, a, target, args, rfl, -, hbindings⟩ | ⟨i, a, rfl⟩ | hstandard
  · obtain ⟨b, hb, hpart⟩ := List.mem_map.1 hpath
    obtain ⟨-, hgrounded⟩ := hbindings b hb
    cases hs : b.source with
    | attached path' =>
      obtain rfl : path' = path := by simpa [Binding.part, hs] using hpart
      rw [Binding.Grounded, hs] at hgrounded
      exact ⟨d, hd, hgrounded⟩
    | known | registry | param | discover => simp [Binding.part, hs] at hpart
  · exact absurd hpath List.not_mem_nil
  · rcases Source.standardRecipe?_eq_some hstandard with
      rfl | ⟨kind, rfl⟩ | ⟨element, i, -, rfl⟩ | ⟨key, value, i, -, rfl | ⟨kind, rfl⟩⟩ <;>
      simp [Recipe.parts] at hpath

end Takes

/-! ### What other sources supply -/

/-- One of the sources always has a converter for the type. -/
def Supplies (reg : Registry) (srcs : List Source) (ty : TypeRef) : Prop :=
  ∃ src ∈ srcs, ∀ r, Answers reg r src ty (·.isSome)

/-- The registry has what the module does not bring along: other sources, which always answer, for the types that the
module requires and for those marked as having an adapter of a subtype, and the converters attached to fields. -/
structure Supplied (reg : Registry) (others : List Source) (model : Model) (m : AdapterModule) : Prop where
  answers : ∀ src ∈ others, ∀ ty r, Answers reg r src ty fun _ => True
  required : ∀ ty ∈ m.required, Supplies reg others ty
  marked : ∀ ty path, ty.path? = some path → model.hasSubtypeAdapter path = true → Supplies reg others ty
  attached : ∀ d ∈ model.types, ∀ f ∈ d.fields, ∀ x, f.converter = some x → (reg.attached? x.path).isSome

section Construction

variable {reg : Registry} {slot : Nat} {t : TypeRef} {r : Resolution}

/-- The module answers once the parts of its recipe can be obtained. -/
private theorem answers_module (slot : Nat)
    (hparts : ∀ p, recipe? [m] t = some p → ∀ part ∈ p.parts, Obtainable reg r part) :
    Answers reg r (.ofModule slot m) t fun o => (Source.moduleRecipe? slot m t).isSome → o.isSome := by
  refine answers_of_recipe (fun resolver => Source.createFrom_eq slot m resolver t) fun p hp => ?_
  have hslot := Source.parts_moduleRecipe? slot 0 m t
  rw [hp] at hslot
  obtain ⟨p', hp', hparts'⟩ := Option.map_eq_some_iff.1 hslot.symm
  rw [← hparts']
  exact hparts p' (by rw [recipe?_singleton, hp', Option.some_or])

private theorem recipe?_of_none (hnone : Source.moduleRecipe? slot m t = none) :
    recipe? [m] t = Source.standardRecipe? t := by
  have hslot := Source.parts_moduleRecipe? slot 0 m t
  rw [hnone, Option.map_none, eq_comm, Option.map_eq_none_iff] at hslot
  rw [recipe?_singleton, hslot, Option.none_or]

private theorem answers_standard
    (hparts : ∀ p, Source.standardRecipe? t = some p → ∀ part ∈ p.parts, Obtainable reg r part) :
    Answers reg r .standard t fun o => (Source.standardRecipe? t).isSome → o.isSome :=
  answers_of_recipe (fun resolver => Source.createStandard_eq resolver t) hparts

variable {before after : List Source}

/-- Constructing a type comes to a converter if the type has a recipe whose parts can be obtained, or is supplied. -/
private theorem create_yields (hchain : reg.chain = before ++ .ofModule slot m :: after)
    (hdiscovery : reg.discovery = [.standard])
    (hanswers : ∀ src ∈ before ++ after, ∀ ty r, Answers reg r src ty fun _ => True)
    (hhandled : (recipe? [m] t).isSome ∨ Supplies reg (before ++ after) t)
    (hparts : ∀ p, recipe? [m] t = some p → ∀ part ∈ p.parts, Obtainable reg r part) (hr : Fresh r) :
    Yields (fun fuel => reg.create (reg.resolveIn fuel) t) r fun _ => True := by
  have hmodule := answers_module slot hparts
  have hsplit : reg.chain ++ reg.discovery = (before ++ [.ofModule slot m]) ++ (after ++ [.standard]) := by
    simp [hchain, hdiscovery]
  have happend (fuel : Nat) :=
    firstOf_append (reg.resolver fuel) t (before ++ [.ofModule slot m]) (after ++ [.standard])
  have hsome : Yields (fun fuel => firstOf (reg.resolver fuel) t (reg.chain ++ reg.discovery)) r (·.isSome) := by
    simp only [hsplit, happend]
    have hbefore : ∀ src ∈ before ++ [.ofModule slot m], Answers reg r src t fun _ => True := by
      intro src hsrc
      rcases List.mem_append.1 hsrc with hmem | hmem
      · exact hanswers src (List.mem_append_left _ hmem) t r
      · obtain rfl := List.mem_singleton.1 hmem
        exact hmodule.mono fun _ _ => trivial
    refine (firstOf_yields _ hbefore (.refl r) hr).bind fun o r₁ hext hr₁ ho => ?_
    cases o with
    | some c => exact .pure hr₁ rfl
    | none =>
      have hnot (src : Source) (hsrc : src ∈ before ++ [.ofModule slot m]) : ¬Answers reg r src t (·.isSome) :=
        fun hsome => absurd (ho ⟨src, hsrc, hsome⟩) nofun
      -- the module has no recipe, or it would have answered
      have hnone : Source.moduleRecipe? slot m t = none := by
        by_contra hsome
        refine hnot _ (List.mem_append_right _ (List.mem_singleton_self _)) (hmodule.mono fun o ho => ho ?_)
        exact Option.isSome_iff_ne_none.2 hsome
      have hrecipe := recipe?_of_none hnone
      rw [hrecipe] at hparts hhandled
      have hstandard := answers_standard hparts
      have hafter : ∀ src ∈ after ++ [.standard], Answers reg r src t fun _ => True := by
        intro src hsrc
        rcases List.mem_append.1 hsrc with hmem | hmem
        · exact hanswers src (List.mem_append_right _ hmem) t r
        · obtain rfl := List.mem_singleton.1 hmem
          exact hstandard.mono fun _ _ => trivial
      refine (firstOf_yields _ hafter hext hr₁).mono fun o ho => ho ?_
      rcases hhandled with hsome | ⟨src, hsrc, hsupplies⟩
      · exact ⟨.standard, List.mem_append_right _ (List.mem_singleton_self _), hstandard.mono fun o ho => ho hsome⟩
      · rcases List.mem_append.1 hsrc with hmem | hmem
        · exact absurd (hsupplies r) (hnot src (List.mem_append_left _ hmem))
        · exact ⟨src, List.mem_append_left _ hmem, hsupplies r⟩
  refine hsome.bind fun o r' _ hr' ho => ?_
  cases o with
  | none => cases ho
  | some c => exact .pure hr' trivial

end Construction

/-! ### Declared types -/

section Supplied

variable (hgen : model.Generates m) (hfilled : ∀ d ∈ model.types, ∀ f ∈ d.fields, f.ty.Filled model)

omit hfilled in
include hgen in
private theorem isSome_recipe?_of_declared {t : TypeRef} (ht : t.Filled model) {d : Declaration}
    (hd : d ∈ model.types) (hpath : t.path? = some d.path) (habstract : d.isAbstract = false) :
    (recipe? [m] t).isSome := by
  cases t with
  | array | var => cases hpath
  | named path args =>
    obtain rfl : path = d.path := Option.some.inj hpath
    have hargs : args = [] ∨ args.length = d.params.length := ht.arity hd rfl
    obtain ⟨p, hp⟩ : ∃ p, Source.moduleRecipe? 0 m (.named d.path args) = some p :=
      hgen.exists_moduleRecipe? hd habstract hargs
    rw [recipe?_singleton, hp]
    rfl

variable {reg : Registry} {others : List Source} (hsupplied : Supplied reg others model m) {root : TypeRef}
  (hroot : root.Filled model ∧ ((recipe? [m] root).isSome ∨ Supplies reg others root))
  (harguments : ∀ t ∈ closure [m] root, ∀ p, recipe? [m] t = some p → ∀ u ∈ p.arguments,
    Source.standardRecipe? u = none →
    (∀ d ∈ model.types, u.path? = some d.path → d.isAbstract = true) → Supplies reg others u)

include hgen hfilled hsupplied hroot harguments

/-- Whatever a type needs has a recipe or is supplied. -/
private theorem handled_of_mem_closure {t : TypeRef} (ht : t ∈ closure [m] root) :
    t.Filled model ∧ ((recipe? [m] t).isSome ∨ Supplies reg others t) := by
  induction ht with
  | refl => exact hroot
  | @tail t u ht hneed ih =>
    obtain ⟨p, hp, hu⟩ := hneed
    obtain ⟨hfill, hcases⟩ := dep_of_recipe? hgen hfilled hp ih.1 hu
    refine ⟨hfill, ?_⟩
    rcases hcases with hargument | hrequired | ⟨d, hd, hpath, hadapter⟩
    · cases hstandard : Source.standardRecipe? u with
      | some q =>
        left
        rw [recipe?_singleton, hstandard]
        simp
      | none =>
        by_cases hall : ∀ d ∈ model.types, u.path? = some d.path → d.isAbstract = true
        · exact .inr (harguments t ht p hp u hargument hstandard hall)
        · push Not at hall
          obtain ⟨d, hd, hpath, hnot⟩ := hall
          exact .inl (isSome_recipe?_of_declared hgen hfill hd hpath (Bool.eq_false_iff.2 hnot))
    · exact .inr (hsupplied.required u hrequired)
    · cases habstract : d.isAbstract with
      | false => exact .inl (isSome_recipe?_of_declared hgen hfill hd hpath habstract)
      | true => exact .inr (hsupplied.marked u d.path hpath (hadapter habstract))

end Supplied

/-- A registry with the module that is supplied resolves the declared types that are not abstract.  A type that is
reached by way of an argument must be supplied too, unless it is a standard one or declared and not abstract. -/
theorem resolve_of_supplied (hgen : model.Generates m)
    (hfilled : ∀ d ∈ model.types, ∀ f ∈ d.fields, f.ty.Filled model) {reg : Registry} {before after : List Source}
    {slot : Nat} (hchain : reg.chain = before ++ .ofModule slot m :: after) (hdiscovery : reg.discovery = [.standard])
    (hsupplied : Supplied reg (before ++ after) model m) {d : Declaration} (hd : d ∈ model.types)
    (habstract : d.isAbstract = false) {args : List TypeRef} (hargs : (TypeRef.named d.path args).Filled model)
    (hfin : (closure [m] (.named d.path args)).Finite)
    (harguments : ∀ t ∈ closure [m] (.named d.path args), ∀ p, recipe? [m] t = some p → ∀ u ∈ p.arguments,
      Source.standardRecipe? u = none → (∀ d' ∈ model.types, u.path? = some d'.path → d'.isAbstract = true) →
        Supplies reg (before ++ after) u) :
    ∃ n c s, ∀ fuel ≥ n, reg.resolve fuel (.named d.path args) .empty = .ok c s := by
  have hroot := isSome_recipe?_of_declared hgen hargs hd rfl habstract
  have hhandled {t : TypeRef} (ht : t ∈ closure [m] (.named d.path args)) :=
    handled_of_mem_closure hgen hfilled hsupplied ⟨hargs, .inl hroot⟩ harguments ht
  have hmem {t : TypeRef} : t ∈ hfin.toFinset ↔ t ∈ closure [m] (.named d.path args) := hfin.mem_toFinset
  have hcreate (t : TypeRef) (ht : t ∈ hfin.toFinset) (r : Resolution) (hr : Fresh r)
      (hobtainable : ∀ u ∈ hfin.toFinset, Obtainable reg r (.resolved u)) :
      Yields (fun fuel => reg.create (reg.resolveIn fuel) t) r fun _ => True := by
    refine create_yields hchain hdiscovery hsupplied.answers (hhandled (hmem.1 ht)).2 (fun p hp part hpart => ?_) hr
    cases part with
    | resolved u => exact hobtainable u (hmem.2 (closure_trans (hmem.1 ht) ⟨p, hp, Recipe.mem_deps.2 hpart⟩))
    | native kind => trivial
    | attached path =>
      obtain ⟨d', hd', f, hf, x, hx, rfl⟩ := attached_of_recipe? hgen hfilled hp hpart
      exact hsupplied.attached d' hd' f hf x hx
  obtain ⟨n, c, r, hn, -⟩ := resolveIn_yields hcreate _ _ ⟨.empty, .empty⟩ rfl (hmem.2 .refl) fun _ _ => rfl
  exact exists_resolve ⟨n, c, r, hn⟩

/-! ### A holder -/

/-- A source that reads and writes the types of some paths as texts. -/
def textsOf (paths : List String) : Source where
  name := "texts"
  create _ ty :=
    if ty.path?.any paths.contains then return some (.native (← ResolveM.fresh) .string) else return none

private theorem answers_textsOf (reg : Registry) (paths : List String) (ty : TypeRef) (r : Resolution) :
    Answers reg r (textsOf paths) ty fun o => ty.path?.any paths.contains = true → o.isSome := by
  intro r' _ hr'
  unfold textsOf
  by_cases hpath : ty.path?.any paths.contains = true
  · simp only [if_pos hpath]
    exact (fresh_yields hr').bind fun id r₁ _ hr₁ _ => .pure hr₁ fun _ => rfl
  · simp only [if_neg hpath]
    exact .pure hr' fun h => absurd h hpath

private theorem supplies_textsOf {reg : Registry} {paths : List String} {ty : TypeRef}
    (hpath : ty.path?.any paths.contains = true) : Supplies reg [textsOf paths] ty :=
  ⟨_, List.mem_singleton_self _, fun r => (answers_textsOf reg paths ty r).mono fun _ h => h hpath⟩

/-- A structure with a type from elsewhere, an abstract one, a box of a type from elsewhere, and a converter of its
own. -/
def holderDeclaration : Declaration :=
  .plain "demo::Holder" (.structure [
    ⟨"ext", none, .named "demo::Ext" [], .none, none⟩,
    ⟨"shape", none, .named "demo::Shape" [], .none, none⟩,
    ⟨"boxed", none, .named "demo::Box" [.named "Vec" [.named "demo::Inner" []]], .none, none⟩,
    ⟨"price", none, .named "demo::Money" [], .none, some ⟨"money", false, .both⟩⟩])

def boxDeclaration : Declaration :=
  ⟨"demo::Box", ["T"], .structure [⟨"value", none, .var "T", .none, none⟩], List.nodup_singleton "T"⟩

def holderModel : Model :=
  ⟨[holderDeclaration, boxDeclaration, .plain "demo::Shape" .abstract], ["demo::Shape"], by decide⟩

def holderModule : AdapterModule := (holderModel.generate .standard).toOption.getD default

def holderTexts : Source := textsOf ["demo::Ext", "demo::Shape", "demo::Inner"]

def holderRegistry : Registry :=
  ⟨[.ofModule 0 holderModule, holderTexts], [.standard], [("money", .native 0 .string)]⟩

private theorem holderModule_generates : holderModel.Generates holderModule := by
  have hgenerate : holderModel.generate .standard = .ok holderModule := by rfl
  exact .of_generate hgenerate

private theorem holderRegistry_supplied : Supplied holderRegistry [holderTexts] holderModel holderModule where
  answers src hsrc ty r := by
    obtain rfl := List.mem_singleton.1 hsrc
    exact (answers_textsOf holderRegistry _ ty r).mono fun _ _ => trivial
  required ty hty := by
    have hrequired : holderModule.required = [.named "demo::Ext" []] := by rfl
    rw [hrequired, List.mem_singleton] at hty
    exact supplies_textsOf (by rw [hty]; decide)
  marked ty path hpath hmarked := by
    have hshape : path = "demo::Shape" := by simpa [Model.hasSubtypeAdapter, holderModel] using hmarked
    exact supplies_textsOf (by rw [hpath, hshape]; decide)
  attached d hd f hf x hx := by
    have hpaths : ∀ d ∈ holderModel.types, ∀ f ∈ d.fields, f.converter.all (·.path == "money") = true := by decide
    have hmoney : x.path = "money" := by simpa [hx] using hpaths d hd f hf
    rw [hmoney]
    rfl

private theorem filled_nil (model : Model) (path : String) : (TypeRef.named path []).Filled model :=
  .named (.inl rfl) nofun

private theorem filled_box {model : Model} {t : TypeRef} (ht : t.Filled model)
    (hbox : ∀ d ∈ model.types, d.path = "demo::Box" → d.params.length = 1) :
    (TypeRef.named "demo::Box" [t]).Filled model :=
  .named (.inr fun d hd hpath => (hbox d hd hpath).symm) fun _ hu => List.mem_singleton.1 hu ▸ ht

private theorem holderModel_filled : ∀ d ∈ holderModel.types, ∀ f ∈ d.fields, f.ty.Filled holderModel := by
  intro d hd f hf
  have hvec : (TypeRef.named "Vec" [.named "demo::Inner" []]).Filled holderModel :=
    .named (.inr (by decide)) fun _ hu => List.mem_singleton.1 hu ▸ filled_nil _ _
  obtain rfl | rfl | rfl : d = holderDeclaration ∨ d = boxDeclaration ∨ d = .plain "demo::Shape" .abstract := by
    simpa [holderModel] using hd
  · obtain rfl | rfl | rfl | rfl : f = _ ∨ f = _ ∨ f = _ ∨ f = _ := by
      simpa [holderDeclaration, Declaration.plain, Declaration.bindKind, Declaration.fields] using hf
    · exact filled_nil _ _
    · exact filled_nil _ _
    · exact filled_box hvec (by decide)
    · exact filled_nil _ _
  · obtain rfl : f = _ := by simpa [boxDeclaration, Declaration.fields] using hf
    exact .var "T"
  · cases hf

/-- The types that the holder leads to. -/
def holderTypes : List TypeRef :=
  [.named "demo::Holder" [], .named "demo::Ext" [], .named "demo::Shape" [],
    .named "demo::Box" [.named "Vec" [.named "demo::Inner" []]], .named "Vec" [.named "demo::Inner" []],
    .named "demo::Inner" []]

theorem resolve_of_supplied_holder :
    ∃ n c s, ∀ fuel ≥ n, holderRegistry.resolve fuel (.named "demo::Holder" []) .empty = .ok c s := by
  have hdeps : ∀ t ∈ holderTypes, (recipe? [holderModule] t).all (·.deps.all holderTypes.contains) = true := by
    decide +kernel
  have hsubset := closure_subset (List.mem_cons_self ..) hdeps
  have harguments : ∀ t ∈ holderTypes, (recipe? [holderModule] t).all (fun p => p.arguments.all fun u =>
      (Source.standardRecipe? u).isSome || u.path?.any ["demo::Ext", "demo::Shape", "demo::Inner"].contains) =
        true := by
    decide +kernel
  have hchain : holderRegistry.chain = [] ++ .ofModule 0 holderModule :: [holderTexts] := rfl
  have hd : holderDeclaration ∈ holderModel.types := List.mem_cons_self ..
  refine resolve_of_supplied holderModule_generates holderModel_filled hchain rfl holderRegistry_supplied hd rfl
    (filled_nil _ _) ((List.finite_toSet _).subset hsubset) ?_
  intro t ht p hp u hu hnone _
  have hall := harguments t (hsubset ht)
  rw [hp, Option.all_some, List.all_eq_true] at hall
  have hpath := hall u hu
  rw [hnone] at hpath
  exact supplies_textsOf hpath

/-! ### Where the requirements are not enough -/

/-- A structure with a box of a type that is nowhere. -/
def missingDeclaration : Declaration :=
  .plain "demo::Holder" (.structure [⟨"x", none, .named "demo::Box" [.named "demo::Missing" []], .none, none⟩])

def missingModel : Model := ⟨[missingDeclaration, boxDeclaration], [], by decide⟩

def missingModule : AdapterModule := (missingModel.generate .standard).toOption.getD default

private theorem missingModel_filled : ∀ d ∈ missingModel.types, ∀ f ∈ d.fields, f.ty.Filled missingModel := by
  intro d hd f hf
  obtain rfl | rfl : d = missingDeclaration ∨ d = boxDeclaration := by simpa [missingModel] using hd
  · obtain rfl : f = _ := by
      simpa [missingDeclaration, Declaration.plain, Declaration.bindKind, Declaration.fields] using hf
    exact filled_box (filled_nil _ _) (by decide)
  · obtain rfl : f = _ := by simpa [boxDeclaration, Declaration.fields] using hf
    exact .var "T"

private theorem missingModule_supplied :
    Supplied (ofModules [missingModule] []) ([] ++ []) missingModel missingModule where
  answers := nofun
  required ty hty := by
    have hrequired : missingModule.required = [] := by rfl
    rw [hrequired] at hty
    cases hty
  marked ty path _ hmarked := by
    have hnone : missingModel.subtypeAdapters = [] := rfl
    rw [Model.hasSubtypeAdapter, hnone] at hmarked
    cases hmarked
  attached d hd f hf x hx := by
    have hnone : ∀ d ∈ missingModel.types, ∀ f ∈ d.fields, f.converter = none := by decide
    rw [hnone d hd f hf] at hx
    cases hx

/-- The types that the two declarations lead to. -/
def missingTypes : List TypeRef :=
  [missingDeclaration.selfType, .named "demo::Box" [.named "demo::Missing" []], .named "demo::Missing" [],
    boxDeclaration.selfType, .var "T"]

/-- Generation does not require the argument of a declared type, so a module may require nothing and still lack a
type. -/
theorem not_forall_resolve_of_required :
    ¬∀ (model : Model) (options : GeneratorOptions) (m : AdapterModule) (reg : Registry) (before after : List Source)
      (d : Declaration), model.generate options = .ok m → (∀ d ∈ model.types, ∀ f ∈ d.fields, f.ty.Filled model) →
        reg.chain = before ++ .ofModule 0 m :: after → reg.discovery = [.standard] →
        Supplied reg (before ++ after) model m →
          (∀ d ∈ model.types, (closure [m] d.selfType).Finite) → d ∈ model.types → d.isAbstract = false →
            d.params = [] → ∃ fuel c s, reg.resolve fuel d.selfType .empty = .ok c s := by
  intro hall
  have hgenerate : missingModel.generate .standard = .ok missingModule := by rfl
  have hdeps : ∀ t ∈ missingTypes, (recipe? [missingModule] t).all (·.deps.all missingTypes.contains) = true := by
    decide +kernel
  have hroots : ∀ d ∈ missingModel.types, d.selfType ∈ missingTypes := by decide
  have hfinite (d : Declaration) (hd : d ∈ missingModel.types) : (closure [missingModule] d.selfType).Finite :=
    (List.finite_toSet _).subset (closure_subset (hroots d hd) hdeps)
  have hresolves : Resolves (ofModules [missingModule] []) missingDeclaration.selfType :=
    hall missingModel .standard missingModule (ofModules [missingModule] []) [] [] missingDeclaration hgenerate
      missingModel_filled rfl rfl missingModule_supplied hfinite (List.mem_cons_self ..) rfl rfl
  -- the box takes the missing type, which has no recipe
  have hbox : Needs [missingModule] missingDeclaration.selfType (.named "demo::Box" [.named "demo::Missing" []]) :=
    ⟨_, rfl, List.mem_singleton_self _⟩
  have hmissing :
      Needs [missingModule] (.named "demo::Box" [.named "demo::Missing" []]) (.named "demo::Missing" []) :=
    ⟨_, rfl, List.mem_singleton_self _⟩
  obtain ⟨p, hp, -⟩ := ((resolves_iff _).1 hresolves).supported _ (.tail (.single hbox) hmissing)
  have hnone : recipe? [missingModule] (.named "demo::Missing" []) = none := by rfl
  rw [hnone] at hp
  cases hp

end Registry

end Marshal
