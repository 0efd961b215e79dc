import Marshal.Proofs.Registry.Twins

/-!
# Declarations in several models

Where no declaration is abstract it does not matter how the declarations are divided among models: modules are
generated from all of the models or one of them fails in any case, and a registry of the modules, in whatever order,
does the same.  The recipe of a type comes from the one declaration with the path of the type, wherever that stands.
-/

namespace Marshal

/-! ### Recipes of declarations -/

namespace Declaration

variable {d : Declaration} {accessor : Accessor} {ty : TypeRef}

/-- The arguments that an adapter of the declaration is constructed with: those of the type, or if it has none as many
as are needed. -/
def arguments? (d : Declaration) (ty : TypeRef) : Option (List TypeRef) :=
  if ty.args.length = d.params.length then some ty.args
  else if ty.args.isEmpty then some (List.replicate d.params.length .any)
  else none

/-- The recipe, without names, that the declaration by itself gives a type with its path. -/
def ownRecipe? (accessor : Accessor) (ty : TypeRef) (d : Declaration) : Option Recipe :=
  if ty.path? = some d.path then
    (d.arguments? ty).bind fun args =>
      match d.ownAdapter accessor with
      | .ok (.struct a) => some (.struct 0 a (.named d.path args) args)
      | .ok (.enum a) => some (.enum 0 0 a)
      | .error _ => none
  else none

private theorem arguments?_of_applies {a : Adapter} {args : List TypeRef} (ha : a.target = d.selfType)
    (h : Source.Applies ty a args) : d.arguments? ty = some args := by
  obtain ⟨hlength, happlies⟩ := h
  have hparams : a.target.args.length = d.params.length := by
    rw [ha]
    exact List.length_map ..
  rw [hparams] at hlength happlies
  unfold arguments?
  rcases happlies with rfl | ⟨hnil, rfl⟩
  · exact if_pos hlength
  · by_cases hzero : ty.args.length = d.params.length
    · rw [hnil, List.length_nil] at hzero
      rw [hnil, ← hzero]
      rfl
    · rw [if_neg hzero, if_pos (by rw [hnil]; rfl)]

private theorem args_of_arguments? {args : List TypeRef} (h : d.arguments? ty = some args) :
    ty.args = [] ∨ ty.args.length = d.params.length := by
  unfold arguments? at h
  by_cases hlength : ty.args.length = d.params.length
  · exact .inr hlength
  · rw [if_neg hlength] at h
    by_cases hempty : ty.args.isEmpty = true
    · exact .inl (List.isEmpty_iff.1 hempty)
    · rw [if_neg hempty] at h
      cases h

private theorem path?_of_ownRecipe? {p : Recipe} (h : d.ownRecipe? accessor ty = some p) :
    ty.path? = some d.path := by
  unfold ownRecipe? at h
  by_contra hpath
  rw [if_neg hpath] at h
  cases h

private theorem exists_arguments_of_ownRecipe? {p : Recipe} (h : d.ownRecipe? accessor ty = some p) :
    ∃ args, ty = .named d.path args ∧ (args = [] ∨ args.length = d.params.length) := by
  have hpath := path?_of_ownRecipe? h
  unfold ownRecipe? at h
  rw [if_pos hpath, Option.bind_eq_some_iff] at h
  obtain ⟨args, hargs, -⟩ := h
  cases ty with
  | named path args =>
    obtain rfl := Option.some.inj hpath
    exact ⟨args, rfl, args_of_arguments? hargs⟩
  | _ => cases hpath

/-- Of declarations with different paths at most one has a recipe for a type. -/
private theorem findSome?_ownRecipe? {ds : List Declaration} (hnodup : (ds.map (·.path)).Nodup) {p : Recipe} :
    ds.findSome? (ownRecipe? accessor ty) = some p ↔ ∃ d ∈ ds, d.ownRecipe? accessor ty = some p := by
  constructor
  · exact List.exists_of_findSome?_eq_some
  · rintro ⟨d, hd, hp⟩
    cases hfound : ds.findSome? (ownRecipe? accessor ty) with
    | none =>
      rw [List.findSome?_eq_none_iff.1 hfound d hd] at hp
      cases hp
    | some q =>
      obtain ⟨d', hd', hq⟩ := List.exists_of_findSome?_eq_some hfound
      have hpath : d'.path = d.path := Option.some.inj ((path?_of_ownRecipe? hq).symm.trans (path?_of_ownRecipe? hp))
      obtain rfl := List.inj_on_of_nodup_map hnodup hd' hd hpath
      exact hq.symm.trans hp

/-- The order of the declarations does not matter. -/
private theorem findSome?_ownRecipe?_perm {ds ds' : List Declaration} (h : ds.Perm ds')
    (hnodup : (ds.map (·.path)).Nodup) :
    ds.findSome? (ownRecipe? accessor ty) = ds'.findSome? (ownRecipe? accessor ty) := by
  have hnodup' : (ds'.map (·.path)).Nodup := (h.map _).nodup_iff.1 hnodup
  refine Option.ext fun p => ?_
  rw [findSome?_ownRecipe? hnodup, findSome?_ownRecipe? hnodup']
  simp only [h.mem_iff]

end Declaration

/-! ### Recipes of models -/

section Modules

variable {accessor : Accessor}

/-- A generated module has the recipes of the declarations by themselves. -/
private theorem Model.bare_moduleRecipe? {model : Model} (h : ∀ d ∈ model.types, d.isAbstract = false)
    {options : GeneratorOptions} {m : AdapterModule} (hm : model.generateWith accessor options = .ok m) (slot : Nat)
    (ty : TypeRef) :
    (Source.moduleRecipe? slot m ty).map Recipe.bare =
    model.types.findSome? (Declaration.ownRecipe? accessor ty) := by
  have hgen : model.Generates m := ⟨accessor, options, hm⟩
  cases hrecipe : Source.moduleRecipe? slot m ty with
  | some p =>
    obtain ⟨path, args, a, hpath, ha, htarget, happlies, hbuilds⟩ :=
      Source.moduleRecipe?_eq_some (generateWith_forall₂ hm).1 hrecipe
    obtain ⟨d, hd, ha⟩ := forall₂_of_mem_right (generateWith_own h hm) ha
    have htarget' : a.target = d.selfType := a.target_bare ▸ Declaration.ownAdapter_target ha
    rw [htarget'] at htarget
    obtain rfl : d.path = path := Option.some.inj htarget
    have hargs := Declaration.arguments?_of_applies htarget' happlies
    refine ((Declaration.findSome?_ownRecipe? model.paths_nodup).2 ⟨d, hd, ?_⟩).symm
    unfold Declaration.ownRecipe?
    rw [if_pos hpath, hargs, Option.bind_some, ha]
    rcases hbuilds with ⟨x, rfl, rfl⟩ | ⟨x, i, rfl, rfl⟩ <;> rfl
  | none =>
    refine (List.findSome?_eq_none_iff.2 fun d hd => Option.eq_none_iff_forall_ne_some.2 fun p hp => ?_).symm
    obtain ⟨args, rfl, hargs⟩ := Declaration.exists_arguments_of_ownRecipe? hp
    obtain ⟨q, hq⟩ := hgen.exists_moduleRecipe? hd (h d hd) hargs
    rw [hrecipe] at hq
    cases hq

/-- Modules in a row have the recipes of all declarations of their models. -/
private theorem bare_findSome? {models : List Model} (h : ∀ model ∈ models, ∀ d ∈ model.types, d.isAbstract = false)
    {options : Model → GeneratorOptions} {ms : List AdapterModule}
    (hms : List.Forall₂ (fun model m => model.generateWith accessor (options model) = .ok m) models ms) (ty : TypeRef)
    (n : Nat) :
    ((ms.zipIdx n).findSome? fun p => Source.moduleRecipe? p.2 p.1 ty).map Recipe.bare =
      (models.flatMap (·.types)).findSome? (Declaration.ownRecipe? accessor ty) := by
  induction hms generalizing n with
  | nil => rfl
  | @cons model m models ms hm _ ih =>
    obtain ⟨hmodel, hmodels⟩ := List.forall_mem_cons.1 h
    have hfirst := model.bare_moduleRecipe? hmodel hm n ty
    rw [List.zipIdx_cons, List.findSome?_cons, List.flatMap_cons, List.findSome?_append, ← hfirst,
      ← ih hmodels (n + 1)]
    cases Source.moduleRecipe? n m ty <;> rfl

end Modules

/-! ### Models -/

namespace Model

/-- The declarations of the model are divided among the parts. -/
def DividedInto (model : Model) (parts : List Model) : Prop := (parts.flatMap (·.types)).Perm model.types

/-- Modules that are generated from the models, one from each. -/
def GenerateAll (accessor : Accessor) (options : Model → GeneratorOptions) (models : List Model)
    (ms : List AdapterModule) : Prop :=
  List.Forall₂ (fun model m => model.generateWith accessor (options model) = .ok m) models ms

namespace DividedInto

variable {model : Model} {parts : List Model} {accessor : Accessor} {options : Model → GeneratorOptions}

/-- All declarations may stand in one model. -/
private theorem whole (model : Model) : model.DividedInto [model] := by
  unfold DividedInto
  rw [List.flatMap_singleton]

private theorem mem_types (h : model.DividedInto parts) {d : Declaration} :
    d ∈ model.types ↔ ∃ part ∈ parts, d ∈ part.types := by
  rw [← List.Perm.mem_iff h, List.mem_flatMap]

private theorem concrete (h : model.DividedInto parts) (hmodel : ∀ d ∈ model.types, d.isAbstract = false) :
    ∀ part ∈ parts, ∀ d ∈ part.types, d.isAbstract = false :=
  fun part hpart d hd => hmodel d (h.mem_types.2 ⟨part, hpart, hd⟩)

/-- Modules are generated from all parts if every declaration has an adapter by itself. -/
private theorem generates_iff (h : model.DividedInto parts) (hmodel : ∀ d ∈ model.types, d.isAbstract = false) :
    (∀ part ∈ parts, ∃ m, part.generateWith accessor (options part) = .ok m) ↔
      ∀ d ∈ model.types, ∃ a, d.ownAdapter accessor = .ok a := by
  have hpart (part : Model) (hmem : part ∈ parts) : (∃ m, part.generateWith accessor (options part) = .ok m) ↔
      ∀ d ∈ part.types, ∃ a, d.ownAdapter accessor = .ok a :=
    exists_generateWith_iff (h.concrete hmodel part hmem) (options part)
  constructor
  · intro hall d hd
    obtain ⟨part, hmem, hd⟩ := h.mem_types.1 hd
    exact (hpart part hmem).1 (hall part hmem) d hd
  · intro hall part hmem
    exact (hpart part hmem).2 fun d hd => hall d (h.mem_types.2 ⟨part, hmem, hd⟩)

/-- The modules of the parts have the recipes of the declarations of the model. -/
private theorem bare_recipe? (h : model.DividedInto parts) (hmodel : ∀ d ∈ model.types, d.isAbstract = false)
    {ms : List AdapterModule} (hms : GenerateAll accessor options parts ms) (ty : TypeRef) :
    (Registry.recipe? ms ty).map Recipe.bare = (model.types.findSome? (Declaration.ownRecipe? accessor ty)).or
      ((Source.standardRecipe? ty).map Recipe.bare) := by
  have hnodup : ((parts.flatMap (·.types)).map (·.path)).Nodup := (h.map _).nodup_iff.2 model.paths_nodup
  rw [Registry.recipe?, Option.map_or, bare_findSome? (h.concrete hmodel) hms ty,
    Declaration.findSome?_ownRecipe?_perm h hnodup]

end DividedInto

end Model

namespace Registry

/-- However the declarations of a model without abstract ones are divided among models: modules are generated from all
parts of the one division exactly if from all parts of the other one, and then the registries of the modules do the
same for every type. -/
theorem generate_divided {model : Model} (h : ∀ d ∈ model.types, d.isAbstract = false) {parts parts' : List Model}
    (hparts : model.DividedInto parts) (hparts' : model.DividedInto parts') (accessor : Accessor)
    (options options' : Model → GeneratorOptions) :
    ((∀ part ∈ parts, ∃ m, part.generateWith accessor (options part) = .ok m) ↔
        ∀ part ∈ parts', ∃ m, part.generateWith accessor (options' part) = .ok m) ∧
      ∀ ms ms', Model.GenerateAll accessor options parts ms → Model.GenerateAll accessor options' parts' ms' →
        ∀ att ty, ActsAs (ofModules ms att) (ofModules ms' att) ty := by
  refine ⟨(hparts.generates_iff h).trans (hparts'.generates_iff h).symm, fun ms ms' hms hms' att ty => ?_⟩
  have hrecipes : SameRecipes ms ms' :=
    fun ty => (hparts.bare_recipe? h hms ty).trans (hparts'.bare_recipe? h hms' ty).symm
  exact hrecipes.actsAs ty

/-! Two structures that hold each other, in a model each. -/

def ringFirst : Model where
  types := [.plain "demo::A" (.structure [⟨"b", none, .named "demo::B" [], .none, none⟩])]
  subtypeAdapters := []
  paths_nodup := by decide

def ringSecond : Model where
  types := [.plain "demo::B" (.structure [⟨"a", none, .named "demo::A" [], .none, none⟩,
    ⟨"at", none, .named "i64" [], .none, some ⟨"demo::millis", true, .both⟩⟩])]
  subtypeAdapters := []
  paths_nodup := by decide

theorem generate_divided_ring : ∃ first second, ringFirst.generate .standard = .ok first ∧
    ringSecond.generate .standard = .ok second ∧
    (∃ c s, (ofModules [ringModule] ringAttached).resolve 3 (.named "demo::A" []) .empty = .ok c s) ∧
    ActsAs (ofModules [ringModule] ringAttached) (ofModules [first, second] ringAttached) (.named "demo::A" []) ∧
    ActsAs (ofModules [ringModule] ringAttached) (ofModules [second, first] ringAttached) (.named "demo::A" []) ∧
    ActsAs (ofModules [first, second] ringAttached) (ofModules [second, first] ringAttached)
      (.named "demo::A" []) := by
  have h : ∀ d ∈ ringModel.types, d.isAbstract = false := by decide
  have hwhole : ringModel.generate .standard = .ok ringModule := by rfl
  have hforward : ringModel.DividedInto [ringFirst, ringSecond] := .refl _
  have hbackward : ringModel.DividedInto [ringSecond, ringFirst] := .swap _ _ _
  obtain ⟨first, hfirst⟩ : ∃ m, ringFirst.generate .standard = .ok m := ⟨_, rfl⟩
  obtain ⟨second, hsecond⟩ : ∃ m, ringSecond.generate .standard = .ok m := ⟨_, rfl⟩
  have hdivided {parts parts' : List Model} (hparts : ringModel.DividedInto parts)
      (hparts' : ringModel.DividedInto parts') :=
    (generate_divided h hparts hparts' GeneratorOptions.standard.access.accessor (fun _ => .standard) fun _ =>
      .standard).2
  refine ⟨first, second, hfirst, hsecond, ⟨_, _, rfl⟩, ?_, ?_, ?_⟩
  · exact hdivided (.whole ringModel) hforward _ _ (.cons hwhole .nil) (.cons hfirst (.cons hsecond .nil)) _ _
  · exact hdivided (.whole ringModel) hbackward _ _ (.cons hwhole .nil) (.cons hsecond (.cons hfirst .nil)) _ _
  · exact hdivided hforward hbackward _ _ (.cons hfirst (.cons hsecond .nil)) (.cons hsecond (.cons hfirst .nil)) _ _

end Registry

end Marshal
