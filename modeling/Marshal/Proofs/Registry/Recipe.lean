import Marshal.Proofs.Effect
import Marshal.Registry.Source

/-!
# Recipes

How the converter of a type is built in a registry of generated modules: the converters it takes as parts, in the
order in which they are obtained, and what is assembled from them.  The recipe of a type depends on the modules alone
(`recipe?`), and constructing a converter is obtaining the parts and assembling them (`create_eq`).
-/

namespace Marshal

open Effect

/-- A converter that another one is built from. -/
inductive Part where
  /-- The registry's converter of a type. -/
  | resolved (ty : TypeRef)
  /-- A new built-in converter. -/
  | native (kind : NativeKind)
  | attached (path : String)
deriving Repr, DecidableEq

namespace Part

def resolved? : Part → Option TypeRef
  | resolved ty => some ty
  | _ => none

def obtain (resolver : Resolver) : Part → ResolveM Converter
  | resolved ty => resolver.resolve ty
  | native kind => return .native (← ResolveM.fresh) kind
  | attached path => resolver.attached path

end Part

/-- What a binding takes for the given arguments. -/
def Binding.part (args : List TypeRef) (b : Binding) : Part :=
  match b.source with
  | .known kind _ => .native kind
  | .registry _ => .resolved b.ty
  | .param index => .resolved (TypeRef.argOrAny args index)
  | .discover token => .resolved (token.resolve args)
  | .attached path => .attached path

/-- How a converter is built. -/
inductive Recipe where
  | struct (slot : Nat) (adapter : StructAdapter) (target : TypeRef) (args : List TypeRef)
  | enum (slot index : Nat) (adapter : EnumAdapter)
  | dynamic
  | native (kind : NativeKind)
  | list (element : TypeRef) (instantiator : Instantiator)
  | objectMap (key : NativeKind) (value : TypeRef) (instantiator : Instantiator)
  | pairMap (key value : TypeRef) (instantiator : Instantiator)

namespace Recipe

def parts : Recipe → List Part
  | struct _ a _ args => a.bindings.map (·.part args)
  | list element _ => [.resolved element]
  | objectMap _ value _ => [.resolved value]
  | pairMap key value _ => [.resolved value, .resolved key]
  | enum .. | dynamic | native _ => []

/-- The types whose converters a recipe takes. -/
def deps (p : Recipe) : List TypeRef := p.parts.filterMap Part.resolved?

/-- The converter, under the number `id`, that is built from the parts. -/
def assemble (id : Nat) (parts : List Converter) : Recipe → Converter
  | struct _ a target _ => .struct id a target parts a.requirements.needsRegistry
  | enum _ _ a => .enum id a
  | dynamic => .dynamic id true
  | native kind => .native id kind
  | list _ i => .codec id (.sequence (.binding 0) i) parts
  | objectMap kind _ i => .codec id (.objectMap kind (.binding 0) i) parts
  | pairMap _ _ i => .codec id (.pairMap (.binding 1) (.binding 0) i) parts

theorem assemble_ne_placeholder (p : Recipe) (id : Nat) (cs : List Converter) (id' : Nat) (ty : TypeRef) :
    p.assemble id cs ≠ .placeholder id' ty := by
  cases p <;> simp [assemble]

/-- What a module notes about a construction. -/
def count : Recipe → ResolveM Unit
  | struct slot .. => Source.countConstructed slot
  | enum slot index _ => do
    Source.countTables slot index
    Source.countConstructed slot
  | _ => return

def build (resolver : Resolver) (p : Recipe) : ResolveM Converter := do
  let cs ← p.parts.mapM (·.obtain resolver)
  p.count
  return p.assemble (← ResolveM.fresh) cs

end Recipe

namespace Source

/-- The recipe of a type that only the standard source handles. -/
def standardRecipe? (ty : TypeRef) : Option Recipe :=
  if ty.isAny then some .dynamic
  else match ty.shape with
    | .native kind => some (.native kind)
    | .list element i => some (.list element i)
    | .map key value i =>
      match key.native?.filter (·.isKey) with
      | some kind => some (.objectMap kind value i)
      | none => some (.pairMap key value i)
    | .other => none

/-- The recipe of a type that a generated module handles. -/
def moduleRecipe? (slot : Nat) (m : AdapterModule) (ty : TypeRef) : Option Recipe :=
  match dispatch? m ty with
  | none => none
  | some (entry, hit) =>
    match m.adapters[hit.adapter]? with
    | none => none
    | some (.struct a) => some (.struct slot a (.named entry.path hit.args) hit.args)
    | some (.enum a) => some (.enum slot hit.adapter a)

/-- Builds by a recipe, if there is one. -/
def buildSome (resolver : Resolver) : Option Recipe → ResolveM (Option Converter)
  | none => return none
  | some p => return some (← p.build resolver)

theorem createStandard_eq (resolver : Resolver) (ty : TypeRef) :
    createStandard resolver ty = buildSome resolver (standardRecipe? ty) := by
  unfold createStandard standardRecipe?
  by_cases hany : ty.isAny = true
  · simp [hany, buildSome, Recipe.build, Recipe.parts, Recipe.count, Recipe.assemble]
  · rw [if_neg hany, if_neg hany]
    cases ty.shape with
    | native kind => simp [buildSome, Recipe.build, Recipe.parts, Recipe.count, Recipe.assemble]
    | list element i =>
      simp [buildSome, Recipe.build, Recipe.parts, Recipe.count, Recipe.assemble, Part.obtain]
    | map key value i =>
      cases hk : key.native?.filter (·.isKey) with
      | none => simp [hk, buildSome, Recipe.build, Recipe.parts, Recipe.count, Recipe.assemble, Part.obtain]
      | some kind => simp [hk, buildSome, Recipe.build, Recipe.parts, Recipe.count, Recipe.assemble, Part.obtain]
    | other => simp [buildSome]

private theorem bindingConverter_eq (resolver : Resolver) (args : List TypeRef) (b : Binding) :
    bindingConverter resolver args b = (b.part args).obtain resolver := by
  unfold bindingConverter Binding.part
  cases b.source <;> rfl

private theorem construct_eq (slot : Nat) (resolver : Resolver) (a : StructAdapter) (target : TypeRef)
    (args : List TypeRef) :
    (do
      let c ← construct resolver a target args
      countConstructed slot
      return some c) = buildSome resolver (some (.struct slot a target args)) := by
  have hparts : a.bindings.mapM (bindingConverter resolver args) =
      (a.bindings.map (·.part args)).mapM (·.obtain resolver) := by
    rw [List.mapM_map]
    congr 1
    funext b
    exact bindingConverter_eq resolver args b
  unfold construct
  simp only [hparts, buildSome, Recipe.build, Recipe.parts, Recipe.count, Recipe.assemble, bind_assoc, pure_bind]
  congr 1

theorem createFrom_eq (slot : Nat) (m : AdapterModule) (resolver : Resolver) (ty : TypeRef) :
    createFrom slot m resolver ty = buildSome resolver (moduleRecipe? slot m ty) := by
  unfold createFrom moduleRecipe?
  cases dispatch? m ty with
  | none => rfl
  | some found =>
    obtain ⟨entry, hit⟩ := found
    dsimp only
    cases m.adapters[hit.adapter]? with
    | none => rfl
    | some adapter =>
      cases adapter with
      | struct a => exact construct_eq slot resolver a _ _
      | enum a => simp [buildSome, Recipe.build, Recipe.parts, Recipe.count, Recipe.assemble]

end Source

/-! ### Registries of generated modules -/

namespace Registry

/-- A registry of generated modules with the standard source. -/
def ofModules (ms : List AdapterModule) (attached : List (String × Converter)) : Registry :=
  ⟨ms.zipIdx.map fun p => .ofModule p.2 p.1, [.standard], attached⟩

/-- The recipe of a type: that of the first module that has one, else the standard one. -/
def recipe? (ms : List AdapterModule) (ty : TypeRef) : Option Recipe :=
  (ms.zipIdx.findSome? fun p => Source.moduleRecipe? p.2 p.1 ty).or (Source.standardRecipe? ty)

private theorem firstOf_eq (resolver : Resolver) (ty : TypeRef) (ps : List (AdapterModule × Nat)) :
    firstOf resolver ty (ps.map (fun p => Source.ofModule p.2 p.1) ++ [Source.standard]) =
      Source.buildSome resolver
        ((ps.findSome? fun p => Source.moduleRecipe? p.2 p.1 ty).or (Source.standardRecipe? ty)) := by
  induction ps with
  | nil =>
    simp only [List.map_nil, List.nil_append, firstOf, Source.standard, Source.createStandard_eq]
    cases Source.standardRecipe? ty <;> simp [Source.buildSome]
  | cons p ps ih =>
    have hcreate : (Source.ofModule p.2 p.1).create resolver ty =
        Source.buildSome resolver (Source.moduleRecipe? p.2 p.1 ty) := Source.createFrom_eq _ _ _ _
    simp only [List.map_cons, List.cons_append, firstOf, hcreate, List.findSome?_cons]
    cases Source.moduleRecipe? p.2 p.1 ty with
    | none => simpa [Source.buildSome] using ih
    | some p => simp [Source.buildSome]

/-- Constructing the converter of a type is building it by its recipe. -/
theorem create_eq (ms : List AdapterModule) (attached : List (String × Converter))
    (resolve : TypeRef → ResolveM Converter) (ty : TypeRef) :
    (ofModules ms attached).create resolve ty =
      (match recipe? ms ty with
        | some p => p.build ⟨resolve, (ofModules ms attached).findAttached⟩
        | none => do throw (.unsupportedType ty (← get).context.trace)) := by
  unfold create
  rw [show (ofModules ms attached).chain ++ (ofModules ms attached).discovery =
    ms.zipIdx.map (fun p => Source.ofModule p.2 p.1) ++ [Source.standard] from rfl, firstOf_eq]
  change (Source.buildSome _ (recipe? ms ty) >>= _) = _
  cases recipe? ms ty <;> simp [Source.buildSome]

end Registry

end Marshal
