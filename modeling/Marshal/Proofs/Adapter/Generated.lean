import Mathlib.Data.List.Nodup
import Marshal.Proofs.Lists
import Marshal.Proofs.Plan.Plans
import Marshal.Proofs.Registry.Recipe
import Marshal.Proofs.TypeRef.Substitution

/-!
# Generated modules

What is known of the adapters of a module that was generated from a model: each of them belongs to a declaration,
whose fields it reads and writes by codecs that were planned for them, and the table of the module leads from a path
to the adapter of the declaration with that path.  Every declaration that is not abstract has an adapter.  The names
of an enumeration are distinct, so the two ways of looking them up agree.
-/

namespace Marshal

open Effect

/-- A structure's adapter reads and writes the fields of the declaration by the codecs. -/
structure StructAdapter.Serves (accessor : Accessor) (d : Declaration) (codecs : List Codec) (a : StructAdapter) :
    Prop where
  target : a.target = d.selfType
  requirements : a.requirements = d.requirements ⟨a.bindings, codecs⟩
  fits : ∀ b ∈ a.bindings, b.Fits d.params
  planned : List.Forall₂ (FieldCodes a.bindings) d.fields codecs
  write : a.write = Declaration.writeProcedure accessor (d.fields.zip codecs)
  read : a.read = Declaration.readProcedure accessor (d.fields.zip codecs)
  names : Declaration.repeatedName? (d.fields.map Field.serializedName) = none

/-- By the name that a field is serialized by it is found with its codec. -/
theorem Declaration.field?_readProcedure (accessor : Accessor) {fields : List (Field × Codec)}
    (hnodup : (fields.map (·.1.serializedName)).Nodup) {p : Field × Codec} (hp : p ∈ fields) :
    (readProcedure accessor fields).field? p.1.serializedName =
      some ⟨p.1.name, p.1.serializedName, accessor p.1, p.2.acceptedTokens, p.2⟩ := by
  have hmem := List.mem_map_of_mem (f := fun (p : Field × Codec) =>
    (⟨p.1.name, p.1.serializedName, accessor p.1, p.2.acceptedTokens, p.2⟩ : FieldRead)) hp
  refine find?_of_nodup FieldRead.serializedName ?_ hmem
  rw [List.map_map]
  exact hnodup

/-! ### The tables of an enumeration -/

namespace EnumAdapter

variable {a : EnumAdapter} {constant name : String}

/-- Where names on the wire are distinct, the constant of a name is that of its entry. -/
theorem constant?_eq_some_iff (hnodup : (a.entries.map (·.serializedName)).Nodup) :
    a.constant? name = some constant ↔ ⟨constant, name⟩ ∈ a.entries := by
  rw [constant?]
  constructor
  · intro h
    obtain ⟨e, he, rfl⟩ := Option.map_eq_some_iff.1 h
    obtain rfl : e.serializedName = name := by simpa using List.find?_some he
    exact List.mem_reverse.1 (List.mem_of_find?_eq_some he)
  · intro h
    have hreverse : (a.entries.reverse.map (·.serializedName)).Nodup := by
      rw [List.map_reverse]
      exact List.nodup_reverse.2 hnodup
    rw [find?_of_nodup (·.serializedName) hreverse (List.mem_reverse.2 h), Option.map_some]

/-- The name of a constant is that of one of its entries. -/
private theorem mem_of_serializedName? (h : a.serializedName? constant = some name) :
    ⟨constant, name⟩ ∈ a.entries := by
  obtain ⟨e, he, rfl⟩ := Option.map_eq_some_iff.1 h
  obtain rfl : e.constant = constant := by simpa using List.find?_some he
  exact List.mem_reverse.1 (List.mem_of_find?_eq_some he)

theorem serializedName?_eq_none_iff : a.serializedName? constant = none ↔ constant ∉ a.entries.map (·.constant) := by
  simp [serializedName?]

theorem exists_serializedName? (h : constant ∈ a.entries.map (·.constant)) :
    ∃ name, a.serializedName? constant = some name :=
  Option.ne_none_iff_exists'.1 fun hnone => serializedName?_eq_none_iff.1 hnone h

/-- The tables agree: the name that a constant is written with is the name of that constant. -/
theorem constant?_of_serializedName? (hnodup : (a.entries.map (·.serializedName)).Nodup)
    (h : a.serializedName? constant = some name) : a.constant? name = some constant :=
  (constant?_eq_some_iff hnodup).2 (mem_of_serializedName? h)

end EnumAdapter

namespace StructAdapter.Serves

variable {accessor : Accessor} {d : Declaration} {codecs : List Codec} {a : StructAdapter}
  (h : a.Serves accessor d codecs)

include h

theorem field_codes {f : Field} {c : Codec} (hfc : (f, c) ∈ d.fields.zip codecs) : FieldCodes a.bindings f c :=
  (List.forall₂_iff_zip.1 h.planned).2 hfc

/-- There is a codec for each field. -/
theorem map_fst_zip : (d.fields.zip codecs).map (·.1) = d.fields :=
  List.map_fst_zip (Nat.le_of_eq h.planned.length_eq)

theorem map_zip (g : Field → String) : (d.fields.zip codecs).map (fun p => g p.1) = d.fields.map g := by
  have hmap : ((d.fields.zip codecs).map (·.1)).map g = (d.fields.zip codecs).map (g ·.1) := List.map_map
  rw [← hmap, h.map_fst_zip]

theorem serializedNames_nodup : ((d.fields.zip codecs).map (·.1.serializedName)).Nodup := by
  rw [h.map_zip Field.serializedName]
  exact Declaration.nodup_of_repeated?_eq_none h.names

/-- Every field is written and read with a codec that was planned for it. -/
theorem exists_codec {f : Field} (hf : f ∈ d.fields) : ∃ k, (f, k) ∈ d.fields.zip codecs := by
  rw [← h.map_fst_zip] at hf
  obtain ⟨⟨f, k⟩, hmem, rfl⟩ := List.mem_map.1 hf
  exact ⟨k, hmem⟩

/-- An adapter with a codec for values of any shape needs the registry. -/
theorem needsRegistry {c : Codec} (hc : c ∈ codecs) (hdynamic : c.any Codec.isDynamic = true) :
    a.requirements.needsRegistry = true := by
  have hany : codecs.any (·.any Codec.isDynamic) = true := List.any_eq_true.2 ⟨c, hc, hdynamic⟩
  rw [h.requirements, Declaration.requirements]
  simp only [hany, Bool.or_true, Bool.true_or]

/-- Every binding that the adapter refers to is there. -/
theorem lt_length : ∀ i ∈ a.indices, i < a.bindings.length := by
  intro i hi
  rcases List.mem_append.1 hi with hw | hr
  · obtain ⟨op, hop, hi⟩ := List.mem_flatMap.1 hw
    rw [h.write, Declaration.writeProcedure] at hop
    rcases List.mem_append.1 hop with hop | hop
    · rcases List.mem_append.1 hop with hop | hop
      · rcases List.mem_cons.1 hop with rfl | hop
        · simp at hi
        · obtain rfl := List.mem_singleton.1 hop
          simp at hi
      · obtain ⟨⟨f, c⟩, hfc, rfl⟩ := List.mem_map.1 hop
        exact (h.field_codes hfc).lt_length i hi
    · obtain rfl := List.mem_singleton.1 hop
      simp at hi
  · obtain ⟨f', hf', hi⟩ := List.mem_flatMap.1 hr
    rw [h.read, Declaration.readProcedure] at hf'
    obtain ⟨⟨f, c⟩, hfc, rfl⟩ := List.mem_map.1 hf'
    exact (h.field_codes hfc).lt_length i hi

end StructAdapter.Serves

/-- An adapter belongs to a declaration. -/
inductive Adapter.Serves (accessor : Accessor) (d : Declaration) : Adapter → Prop
  | struct {fields : List Field} {codecs : List Codec} {a : StructAdapter} (hd : d.kind = .structure fields)
    (ha : a.Serves accessor d codecs) : Adapter.Serves accessor d (.struct a)
  | enum {constants : List Constant} {a : EnumAdapter} (hd : d.kind = .enumeration constants)
    (ha : d.enumAdapter = .ok a) :
    Adapter.Serves accessor d (.enum a)

namespace Declaration

variable {d : Declaration} {accessor : Accessor}

/-- The adapter of a structure has the bindings of its plan and serves the planned codecs. -/
theorem planFields_of_structAdapter {model : Model} {namePrefix : String} {catalog catalog' : Catalog}
    {a : StructAdapter} (h : d.structAdapter model accessor namePrefix catalog = (.ok a, catalog')) :
    ∃ codecs, planFields model namePrefix d catalog = (.ok ⟨a.bindings, codecs⟩, catalog') ∧
      a.Serves accessor d codecs := by
  unfold structAdapter at h
  cases hn : repeatedName? (d.fields.map Field.serializedName) with
  | some name => simp [hn] at h
  | none =>
    simp only [hn] at h
    rcases hp : planFields model namePrefix d catalog with ⟨_ | plan, catalog₁⟩
    · simp [hp] at h
    · simp only [hp, Prod.mk.injEq, Except.ok.injEq] at h
      obtain ⟨rfl, rfl⟩ := h
      obtain ⟨hfits, hcodecs⟩ := planFields_ok hp
      exact ⟨plan.codecs, rfl, rfl, rfl, hfits, hcodecs, rfl, rfl, hn⟩

theorem structAdapter_ok {model : Model} {namePrefix : String} {catalog catalog' : Catalog} {a : StructAdapter}
    (h : d.structAdapter model accessor namePrefix catalog = (.ok a, catalog')) :
    ∃ codecs, a.Serves accessor d codecs := by
  obtain ⟨codecs, -, hserves⟩ := planFields_of_structAdapter h
  exact ⟨codecs, hserves⟩

theorem enumAdapter_ok {a : EnumAdapter} (h : d.enumAdapter = .ok a) :
    repeatedName? (d.constants.map Constant.serializedName) = none ∧
      a = ⟨d.selfType, d.constants.map fun c => ⟨c.name, c.serializedName⟩⟩ := by
  unfold enumAdapter at h
  cases hn : repeatedName? (d.constants.map Constant.serializedName) with
  | some name => simp [hn] at h
  | none =>
    simp only [hn, Except.ok.injEq] at h
    exact ⟨rfl, h.symm⟩

theorem mem_entries {a : EnumAdapter} (h : d.enumAdapter = .ok a) {constant name : String} :
    ⟨constant, name⟩ ∈ a.entries ↔ ∃ c ∈ d.constants, c.serializedName = name ∧ c.name = constant := by
  obtain ⟨-, rfl⟩ := enumAdapter_ok h
  simp [and_comm]

theorem map_constant_entries {a : EnumAdapter} (h : d.enumAdapter = .ok a) :
    a.entries.map (·.constant) = d.constants.map Constant.name := by
  obtain ⟨-, rfl⟩ := enumAdapter_ok h
  exact List.map_map

theorem nodup_entries {a : EnumAdapter} (h : d.enumAdapter = .ok a) : (a.entries.map (·.serializedName)).Nodup := by
  obtain ⟨hnames, rfl⟩ := enumAdapter_ok h
  rw [List.map_map]
  exact nodup_of_repeated?_eq_none hnames

end Declaration

theorem Adapter.Serves.target {accessor : Accessor} {d : Declaration} {a : Adapter} (h : a.Serves accessor d) :
    a.target = d.selfType := by
  cases h with
  | struct _ ha => exact ha.target
  | enum _ ha =>
    obtain ⟨-, rfl⟩ := Declaration.enumAdapter_ok ha
    rfl

theorem Adapter.Serves.length_args {accessor : Accessor} {d : Declaration} {a : Adapter} (h : a.Serves accessor d) :
    a.target.args.length = d.params.length := by
  rw [h.target]
  exact List.length_map ..

namespace Model

variable {model : Model} {accessor : Accessor} {namePrefix : String}

private theorem adaptersFrom_ok (ds : List Declaration) :
    ∀ (catalog : Catalog) (adapters : List Adapter) (catalog' : Catalog),
    model.adaptersFrom accessor namePrefix catalog ds = .ok (adapters, catalog') →
      List.Forall₂ (fun d a => a.Serves accessor d) (ds.filter fun d => !d.isAbstract) adapters := by
  induction ds with
  | nil =>
    intro catalog adapters catalog' h
    simp only [adaptersFrom, Except.ok.injEq, Prod.mk.injEq] at h
    rw [← h.1]
    exact .nil
  | cons d ds ih =>
    intro catalog adapters catalog' h
    -- an adapter of `d` stands before those of the other declarations
    have hcons {a : Adapter} {catalog : Catalog} (hd : d.isAbstract = false) (ha : a.Serves accessor d)
        (hrest : (do
          let p ← model.adaptersFrom accessor namePrefix catalog ds
          .ok (a :: p.1, p.2)) = .ok (adapters, catalog')) :
        List.Forall₂ (fun d a => a.Serves accessor d) ((d :: ds).filter fun d => !d.isAbstract) adapters := by
      cases hr : model.adaptersFrom accessor namePrefix catalog ds with
      | error e => simp [hr, bind, Except.bind] at hrest
      | ok p =>
        simp only [hr, bind, Except.bind, Except.ok.injEq, Prod.mk.injEq] at hrest
        obtain ⟨rfl, -⟩ := hrest
        rw [List.filter_cons_of_pos (by rw [hd]; rfl)]
        exact .cons ha (ih catalog p.1 p.2 hr)
    cases hk : d.kind with
    | abstract =>
      simp only [adaptersFrom, hk] at h
      rw [List.filter_cons_of_neg (by simp [Declaration.isAbstract, hk])]
      exact ih catalog adapters catalog' h
    | enumeration constants =>
      simp only [adaptersFrom, hk] at h
      cases he : d.enumAdapter with
      | error e => simp [he, bind, Except.bind] at h
      | ok a =>
        simp only [he, bind, Except.bind] at h
        exact hcons (by simp [Declaration.isAbstract, hk]) (.enum hk he) h
    | «structure» fields =>
      simp only [adaptersFrom, hk] at h
      rcases hs : d.structAdapter model accessor namePrefix catalog with ⟨_ | a, catalog₁⟩
      · simp [hs] at h
      · simp only [hs] at h
        obtain ⟨codecs, hserves⟩ := Declaration.structAdapter_ok hs
        exact hcons (by simp [Declaration.isAbstract, hk]) (.struct hk hserves) h

/-- A module was generated from a model, under any access strategy. -/
def Generates (model : Model) (m : AdapterModule) : Prop :=
  ∃ accessor options, model.generateWith accessor options = .ok m

theorem Generates.of_generate {m : AdapterModule} {options : GeneratorOptions} (h : model.generate options = .ok m) :
    model.Generates m := ⟨_, options, h⟩

variable {m : AdapterModule}

theorem generateWith_forall₂ {options : GeneratorOptions} (h : model.generateWith accessor options = .ok m) :
    m.dispatch = DispatchEntry.table m.adapters ∧
      List.Forall₂ (fun d a => a.Serves accessor d) (model.types.filter fun d => !d.isAbstract) m.adapters := by
  unfold generateWith at h
  cases hr : model.adaptersFrom accessor options.bindingPrefix .empty model.types with
  | error e => simp [hr, bind, Except.bind] at h
  | ok p =>
    simp only [hr, bind, Except.bind, Except.ok.injEq] at h
    subst h
    exact ⟨rfl, adaptersFrom_ok _ _ _ _ hr⟩

theorem generateWith_ok {options : GeneratorOptions} (h : model.generateWith accessor options = .ok m) :
    m.dispatch = DispatchEntry.table m.adapters ∧ ∀ a ∈ m.adapters, ∃ d ∈ model.types, a.Serves accessor d := by
  obtain ⟨hdispatch, hserves⟩ := generateWith_forall₂ h
  refine ⟨hdispatch, fun a ha => ?_⟩
  obtain ⟨d, hd, hserve⟩ := forall₂_of_mem_right hserves ha
  exact ⟨d, List.mem_of_mem_filter hd, hserve⟩

/-- Every declaration that is not abstract has an adapter. -/
private theorem exists_adapter {options : GeneratorOptions} (h : model.generateWith accessor options = .ok m)
    {d : Declaration} (hd : d ∈ model.types) (habstract : d.isAbstract = false) :
    ∃ a ∈ m.adapters, a.Serves accessor d := by
  obtain ⟨-, hserves⟩ := generateWith_forall₂ h
  have hmem : d ∈ model.types.filter fun d => !d.isAbstract := List.mem_filter.2 ⟨hd, by rw [habstract]; rfl⟩
  exact forall₂_of_mem_left hserves hmem

end Model

/-! ### Recipes of generated modules -/

/-- A binding takes the converter of the bound type with the arguments in place, or the built-in one of its kind. -/
theorem Binding.Fits.part_eq {params : List String} {b : Binding} (h : b.Fits params)
    (hs : b.source.isAttached = false) (args : List TypeRef) :
    b.part args = .resolved (b.ty.substitute params args) ∨
      ∃ kind, b.ty.native? = some kind ∧ b.part args = .native kind := by
  unfold Fits at h
  unfold part
  cases hsource : b.source with
  | known kind path =>
    rw [hsource] at h
    exact .inr ⟨kind, h, rfl⟩
  | registry getter =>
    rw [hsource] at h
    rw [TypeRef.substitute_of_isConcrete _ h]
    exact .inl rfl
  | param index =>
    rw [hsource] at h
    rw [← TypeToken.resolve_of_ofType _ _ h]
    exact .inl rfl
  | discover token =>
    rw [hsource] at h
    rw [← TypeToken.resolve_of_ofType _ _ h]
    exact .inl rfl
  | attached path =>
    rw [hsource] at hs
    cases hs

theorem DispatchEntry.mem_table {adapters : List Adapter} {entry : DispatchEntry} (h : entry ∈ table adapters) :
    ∃ a, adapters[entry.adapter]? = some a ∧ a.target.path? = some entry.path ∧
      entry.arity = a.target.args.length := by
  obtain ⟨⟨a, i⟩, hmem, he⟩ := List.mem_filterMap.1 h
  obtain ⟨path, hpath, rfl⟩ := Option.map_eq_some_iff.1 he
  exact ⟨a, List.mem_zipIdx_iff_getElem?.1 hmem, hpath, rfl⟩

theorem DispatchEntry.match?_eq_some {entry : DispatchEntry} {ty : TypeRef} {hit : DispatchMatch}
    (h : entry.match? ty = some hit) :
    hit.adapter = entry.adapter ∧ hit.args.length = entry.arity ∧
      (hit.args = ty.args ∨ ty.args = [] ∧ hit.args = List.replicate entry.arity .any) := by
  unfold match? at h
  by_cases hpath : (ty.path? != some entry.path) = true
  · rw [if_pos hpath] at h
    cases h
  rw [if_neg hpath] at h
  by_cases hlen : ty.args.length = entry.arity
  · rw [if_pos hlen] at h
    cases h
    exact ⟨rfl, hlen, .inl rfl⟩
  rw [if_neg hlen] at h
  by_cases hargs : ty.args.isEmpty = true
  · rw [if_pos hargs] at h
    cases h
    exact ⟨rfl, List.length_replicate, .inr ⟨List.isEmpty_iff.1 hargs, rfl⟩⟩
  · rw [if_neg hargs] at h
    cases h

/-- The arguments that an adapter is constructed with for a type: those of the type, or none were given and they are
all dynamic. -/
def Source.Applies (ty : TypeRef) (a : Adapter) (args : List TypeRef) : Prop :=
  args.length = a.target.args.length ∧
    (args = ty.args ∨ ty.args = [] ∧ args = List.replicate a.target.args.length .any)

/-- A module handles the types whose path is that of one of its adapters. -/
theorem Source.moduleRecipe?_eq_some {slot : Nat} {m : AdapterModule} {ty : TypeRef} {p : Recipe}
    (hm : m.dispatch = DispatchEntry.table m.adapters) (h : moduleRecipe? slot m ty = some p) :
    ∃ path args a, ty.path? = some path ∧ a ∈ m.adapters ∧ a.target.path? = some path ∧ Applies ty a args ∧
      ((∃ x, a = .struct x ∧ p = .struct slot x (.named path args) args) ∨ ∃ x i, a = .enum x ∧
        p = .enum slot i x) := by
  unfold moduleRecipe? at h
  cases hd : dispatch? m ty with
  | none => simp [hd] at h
  | some found =>
    obtain ⟨entry, hit⟩ := found
    simp only [hd] at h
    simp only [dispatch?, bind, Option.bind_eq_some_iff, Option.some.injEq, Prod.mk.injEq] at hd
    obtain ⟨path, hpath, entry', hentry, hit', hhit, rfl, rfl⟩ := hd
    obtain ⟨hadapter, hlen, hargs⟩ := DispatchEntry.match?_eq_some hhit
    have hmem : entry' ∈ DispatchEntry.table m.adapters := hm ▸ List.mem_reverse.1 (List.mem_of_find?_eq_some hentry)
    obtain ⟨a, ha, htarget, harity⟩ := DispatchEntry.mem_table hmem
    have heq : entry'.path = path := by simpa using List.find?_some hentry
    rw [hadapter, ha] at h
    rw [harity] at hlen hargs
    rw [heq] at h htarget
    cases a with
    | struct x =>
      simp only [Option.some.injEq] at h
      exact ⟨path, hit'.args, .struct x, hpath, List.mem_of_getElem? ha, htarget, ⟨hlen, hargs⟩,
        .inl ⟨x, rfl, h.symm⟩⟩
    | enum x =>
      simp only [Option.some.injEq] at h
      exact ⟨path, hit'.args, .enum x, hpath, List.mem_of_getElem? ha, htarget, ⟨hlen, hargs⟩,
        .inr ⟨x, entry'.adapter, rfl, h.symm⟩⟩

/-- A module handles the types with the path of an adapter, given as many arguments as there are parameters, or
none. -/
private theorem Source.exists_moduleRecipe? {m : AdapterModule} {ty : TypeRef} {path : String}
    (hm : m.dispatch = DispatchEntry.table m.adapters) (hpath : ty.path? = some path)
    (hhandled : ∃ a ∈ m.adapters, a.target.path? = some path)
    (hargs : ∀ a ∈ m.adapters, a.target.path? = some path → ty.args = [] ∨ ty.args.length = a.target.args.length)
    (slot : Nat) : ∃ p, moduleRecipe? slot m ty = some p := by
  obtain ⟨entry, hentry⟩ : ∃ entry, m.dispatch.reverse.find? (·.path == path) = some entry := by
    obtain ⟨a, ha, htarget⟩ := hhandled
    obtain ⟨i, hi⟩ := List.getElem?_of_mem ha
    have hmem : (⟨path, a.target.args.length, i⟩ : DispatchEntry) ∈ m.dispatch := by
      rw [hm]
      exact List.mem_filterMap.2 ⟨(a, i), List.mem_zipIdx_iff_getElem?.2 hi, by simp only [htarget, Option.map_some]⟩
    exact Option.isSome_iff_exists.1 (List.find?_isSome.2 ⟨_, List.mem_reverse.2 hmem, beq_self_eq_true _⟩)
  have hmem : entry ∈ DispatchEntry.table m.adapters := hm ▸ List.mem_reverse.1 (List.mem_of_find?_eq_some hentry)
  obtain ⟨a, ha, htarget, harity⟩ := DispatchEntry.mem_table hmem
  have heq : entry.path = path := by simpa using List.find?_some hentry
  have hmatch : ∃ args, entry.match? ty = some ⟨entry.adapter, args⟩ := by
    unfold DispatchEntry.match?
    rw [if_neg (by simp [hpath, heq])]
    by_cases hlen : ty.args.length = entry.arity
    · exact ⟨_, if_pos hlen⟩
    · have hnil : ty.args = [] :=
        (hargs a (List.mem_of_getElem? ha) (heq ▸ htarget)).resolve_right (harity ▸ hlen)
      exact ⟨_, by rw [if_neg hlen, if_pos (by rw [hnil]; rfl)]⟩
  obtain ⟨args, hmatch⟩ := hmatch
  have hdispatch : dispatch? m ty = some (entry, ⟨entry.adapter, args⟩) := by
    simp [dispatch?, hpath, hentry, hmatch]
  unfold moduleRecipe?
  simp only [hdispatch, ha]
  cases a <;> exact ⟨_, rfl⟩

namespace Model.Generates

variable {model : Model} {m : AdapterModule} (hgen : model.Generates m)

include hgen

/-- A generated module has recipes for declared types only: that of the adapter of the declaration. -/
theorem declared_of_moduleRecipe? {slot : Nat} {ty : TypeRef} {p : Recipe}
    (h : Source.moduleRecipe? slot m ty = some p) :
    ∃ d ∈ model.types, ∃ accessor a args, ty.path? = some d.path ∧ Adapter.Serves accessor d a ∧
      Source.Applies ty a args ∧
      ((∃ x, a = .struct x ∧ p = .struct slot x (.named d.path args) args) ∨ ∃ x i, a = .enum x ∧
        p = .enum slot i x) := by
  obtain ⟨accessor, options, hm⟩ := hgen
  obtain ⟨hdispatch, hserves⟩ := Model.generateWith_ok hm
  obtain ⟨path, args, a, hpath, ha, htarget, happlies, hp⟩ := Source.moduleRecipe?_eq_some hdispatch h
  obtain ⟨d, hd, hserve⟩ := hserves a ha
  rw [hserve.target] at htarget
  obtain rfl : d.path = path := Option.some.inj htarget
  exact ⟨d, hd, accessor, a, args, hpath, hserve, happlies, hp⟩

variable {d : Declaration} (hd : d ∈ model.types) {slot : Nat} {args : List TypeRef}

include hd

/-- For a declared type a generated module has the recipe of the adapter of the declaration. -/
theorem adapter_of_moduleRecipe? {p : Recipe} (h : Source.moduleRecipe? slot m (.named d.path args) = some p) :
    ∃ accessor a args', Adapter.Serves accessor d a ∧
      (args' = args ∨ args = [] ∧ args' = List.replicate d.params.length .any) ∧
      ((∃ x, a = .struct x ∧ p = .struct slot x (.named d.path args') args') ∨ ∃ x i, a = .enum x ∧
        p = .enum slot i x) := by
  obtain ⟨d', hd', accessor, a, args', hpath, hserves, ⟨-, happlies⟩, hbuilds⟩ := hgen.declared_of_moduleRecipe? h
  obtain rfl : d = d' := List.inj_on_of_nodup_map model.paths_nodup hd hd' (Option.some.inj hpath)
  rw [hserves.length_args] at happlies
  exact ⟨accessor, a, args', hserves, happlies, hbuilds⟩

/-- A generated module handles the declared types that are not abstract. -/
theorem exists_moduleRecipe? (habstract : d.isAbstract = false) (hargs : args = [] ∨ args.length = d.params.length) :
    ∃ p, Source.moduleRecipe? slot m (.named d.path args) = some p := by
  obtain ⟨accessor, options, hm⟩ := hgen
  obtain ⟨hdispatch, hserves⟩ := generateWith_ok hm
  obtain ⟨a, ha, hserve⟩ := exists_adapter hm hd habstract
  refine Source.exists_moduleRecipe? hdispatch rfl ⟨a, ha, by rw [hserve.target]; rfl⟩ (fun b hb htarget => ?_) slot
  -- there is no other adapter with the path of the declaration
  obtain ⟨d', hd', hserve'⟩ := hserves b hb
  rw [hserve'.target] at htarget
  obtain rfl : d' = d := List.inj_on_of_nodup_map model.paths_nodup hd' hd (Option.some.inj htarget)
  rw [hserve'.length_args]
  exact hargs

end Model.Generates

end Marshal
