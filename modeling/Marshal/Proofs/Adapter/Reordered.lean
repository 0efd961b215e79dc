import Mathlib.Data.List.Perm.Basic
import Marshal.Proofs.Lists
import Marshal.Proofs.Outcome
import Marshal.Proofs.Plan.Entering

/-!
# Scan order

All declarations of a model are planned against one catalog, so the getter of a type depends on what was planned
before.  Nothing else does (`generate_reordered`): what a declaration is planned to, with the types that it takes from
the registry, is a matter of the declaration and of the abstract types of the model (`Declaration.alone`).
-/

namespace Marshal

/-! ### Leaving the getters out -/

/-- The binding without the getter of a source in the registry. -/
def Binding.withoutGetter (b : Binding) : Binding := { b with source := b.source.bare }

def StructAdapter.withoutGetters (a : StructAdapter) : StructAdapter :=
  { a with bindings := a.bindings.map Binding.withoutGetter }

def Adapter.withoutGetters : Adapter → Adapter
  | .struct a => .struct a.withoutGetters
  | .enum a => .enum a

private theorem Adapter.target_withoutGetters (a : Adapter) : a.withoutGetters.target = a.target := by
  cases a <;> rfl

/-- Bindings that are numbered alike differ in the getters if they differ in the names and getters. -/
private theorem withoutGetter_eq {namePrefix : String} {bs bs' : List Binding}
    (h : bs.map Binding.bare = bs'.map Binding.bare) (hbs : Numbered namePrefix bs) (hbs' : Numbered namePrefix bs') :
    bs.map Binding.withoutGetter = bs'.map Binding.withoutGetter := by
  refine List.ext_getElem? fun i => ?_
  have hi : (bs.map Binding.bare)[i]? = (bs'.map Binding.bare)[i]? := by rw [h]
  rw [List.getElem?_map, List.getElem?_map] at hi ⊢
  cases hb : bs[i]? with
  | none =>
    have hb' : bs'[i]? = none := by simpa [hb] using hi.symm
    rw [hb']
  | some b =>
    cases hb' : bs'[i]? with
    | none => simp [hb, hb'] at hi
    | some b' =>
      rw [hb, hb', Option.map_some, Option.map_some, Option.some.injEq] at hi
      obtain ⟨-, hty, hsource⟩ := Binding.mk.inj hi
      have hname : b.name = b'.name := (hbs i b hb).trans (hbs' i b' hb').symm
      rw [Option.map_some, Option.map_some, Binding.withoutGetter, Binding.withoutGetter, hname, hty, hsource]

/-! ### A declaration alone -/

namespace Declaration

variable {d : Declaration} {accessor : Accessor} {namePrefix : String} {model base : Model}

/-- The adapter of a declaration planned with an empty catalog, without the getters, and the types that it takes from
the registry. -/
def alone (model : Model) (accessor : Accessor) (namePrefix : String) (d : Declaration) :
    Except GenerateError (Adapter × List TypeRef) :=
  match d.kind with
  | .enumeration _ => d.enumAdapter.map fun a => (.enum a, [])
  | _ =>
    match d.structAdapter model accessor namePrefix .empty with
    | (.ok a, filled) => .ok (.struct a.withoutGetters, filled.types)
    | (.error e, _) => .error e

variable (accessor) in
/-- Planned beside the declarations before it, a structure has the adapter that it has alone, but for the getters. -/
private theorem structAdapter_beside
    (h : ∀ f ty, PlanScope.lacksAdapter ⟨base, namePrefix, d, f⟩ ty = PlanScope.lacksAdapter
      ⟨model, namePrefix, d, f⟩ ty)
    {catalog : Catalog} (hcatalog : catalog.types.Nodup) :
    (∃ a a' filled filled', d.structAdapter model accessor namePrefix catalog = (.ok a, filled) ∧
      d.structAdapter base accessor namePrefix .empty = (.ok a', filled') ∧ a.withoutGetters = a'.withoutGetters ∧
      filled.types.Nodup ∧ ∀ t, t ∈ filled.types ↔ t ∈ catalog.types ∨ t ∈ filled'.types) ∨
    ∃ e filled filled', d.structAdapter model accessor namePrefix catalog = (.error e, filled) ∧
      d.structAdapter base accessor namePrefix .empty = (.error e, filled') := by
  unfold structAdapter
  cases repeatedName? (d.fields.map Field.serializedName) with
  | some name => exact .inr ⟨_, _, _, rfl, rfl⟩
  | none =>
    have hstart : SameBindings ⟨catalog, []⟩ ⟨.empty, []⟩ ∧ Filling namePrefix catalog ⟨catalog, []⟩ ⟨.empty, []⟩ :=
      ⟨rfl, .start hcatalog⟩
    rcases planFields_same (fun f _ => ⟨trivial, PlanScope.alongside_filling (h f),
        fun x _ => PlanScope.abreast_bindAttached_filling x.path⟩) hstart with
      ⟨plan, plan', filled, filled', hplan, hplan', hcodecs, hsame, hfilling⟩ | ⟨e, filled, filled', hplan, hplan'⟩
    · have hbindings : plan.bindings.map Binding.withoutGetter = plan'.bindings.map Binding.withoutGetter :=
        withoutGetter_eq hsame hfilling.left hfilling.right
      simp only [hplan, hplan']
      refine .inl ⟨_, _, filled, filled', rfl, rfl, ?_, hfilling.nodup, hfilling.types⟩
      simp only [StructAdapter.withoutGetters, hbindings, hcodecs, requirements_eq hcodecs hsame]
    · simp only [hplan, hplan']
      exact .inr ⟨e, filled, filled', rfl, rfl⟩

private theorem alone_of_enumeration {constants : List Constant} (hk : d.kind = .enumeration constants) :
    d.alone base accessor namePrefix = d.enumAdapter.map fun a => (.enum a, []) := by
  simp only [alone, hk]

private theorem alone_of_structure {fields : List Field} (hk : d.kind = .structure fields) {a : StructAdapter}
    {filled : Catalog} (h : d.structAdapter base accessor namePrefix .empty = (.ok a, filled)) :
    d.alone base accessor namePrefix = .ok (.struct a.withoutGetters, filled.types) := by
  simp only [alone, hk, h]

end Declaration

/-! ### Models -/

namespace Model

variable {model base : Model} {accessor : Accessor} {namePrefix : String}

/-- In both models the same types lack an adapter. -/
def SameGaps (base model : Model) : Prop :=
  ∀ namePrefix d f ty, PlanScope.lacksAdapter ⟨base, namePrefix, d, f⟩ ty = PlanScope.lacksAdapter
    ⟨model, namePrefix, d, f⟩ ty

/-- Several declarations are planned as each of them is alone, and the catalog holds what they take from the
registry. -/
private theorem adaptersFrom_alone (h : base.SameGaps model) (ds : List Declaration) :
    ∀ (catalog : Catalog) (adapters : List Adapter) (filled : Catalog), catalog.types.Nodup →
      model.adaptersFrom accessor namePrefix catalog ds = .ok (adapters, filled) →
        ∃ parts : List (Adapter × List TypeRef),
          (ds.filter fun d => !d.isAbstract).map (·.alone base accessor namePrefix) = parts.map Except.ok ∧
          adapters.map Adapter.withoutGetters = parts.map (·.1) ∧ filled.types.Nodup ∧
          ∀ t, t ∈ filled.types ↔ t ∈ catalog.types ∨ ∃ p ∈ parts, t ∈ p.2 := by
  induction ds with
  | nil =>
    intro catalog adapters filled hcatalog hrun
    simp only [adaptersFrom, Except.ok.injEq, Prod.mk.injEq] at hrun
    obtain ⟨rfl, rfl⟩ := hrun
    exact ⟨[], rfl, rfl, hcatalog, by simp⟩
  | cons d ds ih =>
    intro catalog adapters filled hcatalog hrun
    rcases adaptersFrom_cons_ok hrun with
      ⟨habstract, hrest⟩ | ⟨constants, a, rest, hk, ha, hrest, rfl⟩ | ⟨fields, a, filled₁, rest, hk, ha, hrest, rfl⟩
    · obtain ⟨parts, hparts, hadapters, hnodup, htypes⟩ := ih catalog adapters filled hcatalog hrest
      exact ⟨parts, by rw [List.filter_cons_of_neg (by simp [habstract])]; exact hparts, hadapters, hnodup, htypes⟩
    · obtain ⟨parts, hparts, hadapters, hnodup, htypes⟩ := ih catalog rest filled hcatalog hrest
      have hd : d.isAbstract = false := by simp [Declaration.isAbstract, hk]
      have halone : d.alone base accessor namePrefix = .ok (.enum a, []) := by
        rw [Declaration.alone_of_enumeration hk, ha]
        rfl
      refine ⟨(.enum a, []) :: parts, ?_, ?_, hnodup, ?_⟩
      · rw [List.filter_cons_of_pos (by simp [hd]), List.map_cons, List.map_cons, halone, hparts]
      · rw [List.map_cons, List.map_cons, hadapters]
        rfl
      · simpa using htypes
    · have hd : d.isAbstract = false := by simp [Declaration.isAbstract, hk]
      rcases Declaration.structAdapter_beside accessor (h namePrefix d) hcatalog with
        ⟨_, a', _, filled', ha₁, ha', hsame, hnodup₁, htypes₁⟩ | ⟨e, _, _, he, -⟩
      · rw [ha] at ha₁
        obtain ⟨h₁, rfl⟩ := Prod.mk.inj ha₁
        obtain rfl := Except.ok.inj h₁
        obtain ⟨parts, hparts, hadapters, hnodup, htypes⟩ := ih filled₁ rest filled hnodup₁ hrest
        refine ⟨(.struct a'.withoutGetters, filled'.types) :: parts, ?_, ?_, hnodup, fun t => ?_⟩
        · rw [List.filter_cons_of_pos (by simp [hd]), List.map_cons, List.map_cons,
            Declaration.alone_of_structure hk ha', hparts]
        · rw [List.map_cons, List.map_cons, hadapters, ← hsame]
          rfl
        · rw [htypes, htypes₁, or_assoc, List.exists_mem_cons_iff]
      · rw [ha] at he
        cases (Prod.mk.inj he).1

/-- Declarations that can be planned alone can be planned together. -/
private theorem exists_adaptersFrom_alone (h : base.SameGaps model) (ds : List Declaration)
    (hds : ∀ d ∈ ds, d.isAbstract = false → ∃ p, d.alone base accessor namePrefix = .ok p) :
    ∀ catalog : Catalog, catalog.types.Nodup → ∃ p, model.adaptersFrom accessor namePrefix catalog ds = .ok p := by
  induction ds with
  | nil => exact fun catalog _ => ⟨_, rfl⟩
  | cons d ds ih =>
    obtain ⟨hd, hds⟩ := List.forall_mem_cons.1 hds
    intro catalog hcatalog
    cases hk : d.kind with
    | «abstract» =>
      simp only [adaptersFrom, hk]
      exact ih hds catalog hcatalog
    | enumeration constants =>
      obtain ⟨p, hp⟩ := hd (by simp [Declaration.isAbstract, hk])
      rw [Declaration.alone_of_enumeration hk] at hp
      obtain ⟨a, ha, -⟩ := Outcome.map_eq_ok.1 hp
      obtain ⟨q, hq⟩ := ih hds catalog hcatalog
      simp only [adaptersFrom, hk, ha, hq, Bind.bind, Except.bind]
      exact ⟨_, rfl⟩
    | «structure» fields =>
      obtain ⟨p, hp⟩ := hd (by simp [Declaration.isAbstract, hk])
      rcases Declaration.structAdapter_beside accessor (h namePrefix d) hcatalog with
        ⟨a, _, filled, _, ha, -, -, hnodup, -⟩ | ⟨e, _, _, -, he⟩
      · obtain ⟨q, hq⟩ := ih hds filled hnodup
        simp only [adaptersFrom, hk, ha, hq, Bind.bind, Except.bind]
        exact ⟨_, rfl⟩
      · simp only [Declaration.alone, hk, he] at hp
        cases hp

/-- What a module is made of: the adapters of the declarations alone, but for the getters, and what they take from the
registry. -/
private theorem generateWith_alone (h : base.SameGaps model) {options : GeneratorOptions} {m : AdapterModule}
    (hm : model.generateWith accessor options = .ok m) :
    ∃ parts : List (Adapter × List TypeRef),
      (model.types.filter fun d => !d.isAbstract).map (·.alone base accessor options.bindingPrefix) =
      parts.map Except.ok ∧ m.adapters.map Adapter.withoutGetters = parts.map (·.1) ∧ m.required.Nodup ∧
      ∀ t, t ∈ m.required ↔ (∃ p ∈ parts, t ∈ p.2) ∧ Catalog.isScanned model t = false := by
  obtain ⟨⟨adapters, filled⟩, hrun, he⟩ := Outcome.bind_eq_ok.1 hm
  obtain rfl := Except.ok.inj he
  obtain ⟨parts, hparts, hadapters, hnodup, htypes⟩ :=
    adaptersFrom_alone h model.types .empty adapters filled List.nodup_nil hrun
  refine ⟨parts, hparts, hadapters, hnodup.filter _, fun t => ?_⟩
  have hempty : t ∉ Catalog.empty.types := List.not_mem_nil
  rw [Catalog.required, List.mem_filter, Bool.not_eq_true']
  exact and_congr_left fun _ => (htypes t).trans (or_iff_right hempty)

private theorem exists_generateWith_alone (h : base.SameGaps model) (options : GeneratorOptions) :
    (∃ m, model.generateWith accessor options = .ok m) ↔
      ∀ d ∈ model.types, d.isAbstract = false → ∃ p, d.alone base accessor options.bindingPrefix = .ok p := by
  constructor
  · rintro ⟨m, hm⟩ d hd habstract
    obtain ⟨parts, hparts, -⟩ := generateWith_alone h hm
    have hmem : d.alone base accessor options.bindingPrefix ∈ parts.map Except.ok :=
      hparts ▸ List.mem_map_of_mem (List.mem_filter.2 ⟨hd, by simp [habstract]⟩)
    obtain ⟨p, -, hp⟩ := List.mem_map.1 hmem
    exact ⟨p, hp.symm⟩
  · intro hall
    obtain ⟨⟨adapters, filled⟩, hrun⟩ := exists_adaptersFrom_alone h model.types hall .empty List.nodup_nil
    exact ⟨_, Outcome.bind_eq_ok.2 ⟨_, hrun, rfl⟩⟩

end Model

/-! ### Finding an adapter -/

/-- Every adapter has one entry in the table, under its own path and with as many parameters as it has, which points
at it. -/
structure AdapterModule.Indexed (m : AdapterModule) : Prop where
  paths : (m.dispatch.map (·.path)).Nodup
  points : ∀ e ∈ m.dispatch, ∃ a, m.adapters[e.adapter]? = some a ∧ a.target.path? = some e.path ∧
    e.arity = a.target.args.length
  all : ∀ (i : Nat) (a : Adapter), m.adapters[i]? = some a → ∃ e ∈ m.dispatch, e.adapter = i

/-- What a path is dispatched to: the number of parameters, and the adapter without the getters. -/
def AdapterModule.found? (m : AdapterModule) (path : String) : Option (Nat × Adapter) := do
  let e ← m.dispatch.find? (·.path == path)
  let a ← m.adapters[e.adapter]?
  return (e.arity, a.withoutGetters)

namespace AdapterModule

variable {m m' : AdapterModule}

private theorem Indexed.found?_eq_some (hm : m.Indexed) {path : String} {p : Nat × Adapter} : m.found? path = some p ↔
    ∃ a ∈ m.adapters, a.target.path? = some path ∧ p = (a.target.args.length, a.withoutGetters) := by
  constructor
  · intro h
    obtain ⟨e, he, h⟩ := Option.bind_eq_some_iff.1 h
    obtain ⟨a, ha, h⟩ := Option.bind_eq_some_iff.1 h
    obtain rfl : e.path = path := by simpa using List.find?_some he
    obtain ⟨a', ha', hpath, harity⟩ := hm.points e (List.mem_of_find?_eq_some he)
    obtain rfl : a' = a := Option.some.inj (ha'.symm.trans ha)
    exact ⟨a', List.mem_of_getElem? ha, hpath, by rw [← harity]; exact (Option.some.inj h).symm⟩
  · rintro ⟨a, ha, hpath, rfl⟩
    obtain ⟨i, hi⟩ := List.mem_iff_getElem?.1 ha
    obtain ⟨e, he, rfl⟩ := hm.all i a hi
    obtain ⟨a', ha', hpath', harity⟩ := hm.points e he
    obtain rfl : a' = a := Option.some.inj (ha'.symm.trans hi)
    obtain rfl : e.path = path := Option.some.inj (hpath'.symm.trans hpath)
    have hfind : m.dispatch.find? (·.path == e.path) = some e := find?_of_nodup DispatchEntry.path hm.paths he
    simp [found?, hfind, hi, harity]

/-- Modules with the same adapters but for the order and the getters find the same ones. -/
private theorem found?_eq (hm : m.Indexed) (hm' : m'.Indexed)
    (h : (m.adapters.map Adapter.withoutGetters).Perm (m'.adapters.map Adapter.withoutGetters)) (path : String) :
    m.found? path = m'.found? path := by
  -- an adapter of one module is, but for the getters, an adapter of the other one
  have hfound {m m' : AdapterModule} (hm : m.Indexed) (hm' : m'.Indexed)
      (h : (m.adapters.map Adapter.withoutGetters).Perm (m'.adapters.map Adapter.withoutGetters)) {p : Nat × Adapter}
      (hp : m.found? path = some p) : m'.found? path = some p := by
    obtain ⟨a, ha, hpath, rfl⟩ := hm.found?_eq_some.1 hp
    obtain ⟨a', ha', hsame⟩ := List.mem_map.1 (h.mem_iff.1 (List.mem_map_of_mem ha))
    have htarget : a'.target = a.target := by
      rw [← a'.target_withoutGetters, hsame, a.target_withoutGetters]
    exact hm'.found?_eq_some.2 ⟨a', ha', by rw [htarget, hpath], by rw [htarget, hsame]⟩
  exact Option.ext fun p => ⟨hfound hm hm' h, hfound hm' hm h.symm⟩

end AdapterModule

/-- If every target is named, the entries of a table have the paths of the adapters, one after the other. -/
private theorem map_path_table {adapters : List Adapter} (h : ∀ a ∈ adapters, ∃ path, a.target.path? = some path) :
    (DispatchEntry.table adapters).map (fun e => some e.path) = adapters.map (·.target.path?) := by
  have hfrom : ∀ k, ((adapters.zipIdx k).filterMap fun p =>
      p.1.target.path?.map fun path => (⟨path, p.1.target.args.length, p.2⟩ : DispatchEntry)).map
        (fun e => some e.path) = adapters.map (·.target.path?) := by
    induction adapters with
    | nil => exact fun _ => rfl
    | cons a adapters ih =>
      intro k
      obtain ⟨⟨path, hpath⟩, hrest⟩ := List.forall_mem_cons.1 h
      simp only [List.zipIdx_cons, List.filterMap_cons, hpath, Option.map_some, List.map_cons, ih hrest]
  exact hfrom 0

private theorem Model.indexed_of_generateWith {model : Model} {accessor : Accessor} {options : GeneratorOptions}
    {m : AdapterModule} (hm : model.generateWith accessor options = .ok m) : m.Indexed := by
  obtain ⟨hdispatch, hserves⟩ := generateWith_forall₂ hm
  have hnamed (a : Adapter) (ha : a ∈ m.adapters) : ∃ path, a.target.path? = some path := by
    obtain ⟨d, -, hd⟩ := forall₂_of_mem_right hserves ha
    exact ⟨d.path, by rw [hd.target]; rfl⟩
  have hpaths :
      (model.types.filter fun d => !d.isAbstract).map (fun d => some d.path) = m.adapters.map (·.target.path?) :=
    map_eq_of_forall₂ hserves fun d a ha => by rw [ha.target]; rfl
  refine ⟨?_, fun e he => DispatchEntry.mem_table (hdispatch ▸ he), fun i a hi => ?_⟩
  · have hsome :
        (m.dispatch.map (·.path)).map some = ((model.types.filter fun d => !d.isAbstract).map (·.path)).map some := by
      rw [List.map_map, List.map_map]
      exact (hdispatch ▸ map_path_table hnamed).trans hpaths.symm
    rw [List.map_injective_iff.2 (fun _ _ => Option.some.inj) hsome]
    exact model.paths_nodup.sublist (List.filter_sublist.map _)
  · obtain ⟨path, hpath⟩ := hnamed a (List.mem_of_getElem? hi)
    refine ⟨⟨path, a.target.args.length, i⟩, ?_, rfl⟩
    rw [hdispatch]
    exact List.mem_filterMap.2 ⟨(a, i), List.mem_zipIdx_iff_getElem?.2 hi,
      Option.map_eq_some_iff.2 ⟨path, hpath, rfl⟩⟩

/-! ### Reordered models -/

namespace Model

/-- The declarations of one model in another order, with the same marks. -/
structure Reordered (model model' : Model) : Prop where
  types : model.types.Perm model'.types
  marks : model.subtypeAdapters = model'.subtypeAdapters

namespace Reordered

variable {model model' : Model} (h : model.Reordered model')

include h

private theorem symm : model'.Reordered model := ⟨h.types.symm, h.marks.symm⟩

private theorem get?_eq (path : String) : model.get? path = model'.get? path := by
  have hget {model model' : Model} (h : model.Reordered model') {d : Declaration} (hd : model.get? path = some d) :
      model'.get? path = some d := by
    obtain rfl : d.path = path := by simpa using List.find?_some hd
    exact find?_of_nodup Declaration.path model'.paths_nodup (h.types.mem_iff.1 (List.mem_of_find?_eq_some hd))
  exact Option.ext fun d => ⟨hget h, hget h.symm⟩

private theorem sameGaps : model.SameGaps model' := by
  intro namePrefix d f ty
  unfold PlanScope.lacksAdapter
  cases ty.path? with
  | none => rfl
  | some path => simp only [h.get?_eq, hasSubtypeAdapter, h.marks]

private theorem isScanned_eq (t : TypeRef) : Catalog.isScanned model t = Catalog.isScanned model' t := by
  have hmem (path : String) : path ∈ model.paths ↔ path ∈ model'.paths := (h.types.map (·.path)).mem_iff
  unfold Catalog.isScanned
  cases t.path? with
  | none => rfl
  | some path => simp [contains, hmem]

end Reordered

/-- The order in which declarations were scanned shows in nothing but the getters: a module is generated from both
orders or from none, and then every path is dispatched to the same adapter but for the getters of its bindings, and
the same types are required, each once. -/
theorem generate_reordered {model model' : Model} (h : model.Reordered model') (accessor : Accessor)
    (options : GeneratorOptions) :
    ((∃ m, model.generateWith accessor options = .ok m) ↔ ∃ m', model'.generateWith accessor options = .ok m') ∧
      ∀ m m', model.generateWith accessor options = .ok m → model'.generateWith accessor options = .ok m' →
        m.Indexed ∧ m'.Indexed ∧ (∀ path, m.found? path = m'.found? path) ∧
          m.required.Perm m'.required ∧ m.required.Nodup ∧ m'.required.Nodup := by
  have hself : model.SameGaps model := fun _ _ _ _ => rfl
  constructor
  · rw [exists_generateWith_alone hself, exists_generateWith_alone h.sameGaps]
    exact forall_congr' fun d => imp_congr_left h.types.mem_iff
  · intro m m' hm hm'
    obtain ⟨parts, hparts, hadapters, hnodup, hmem⟩ := generateWith_alone hself hm
    obtain ⟨parts', hparts', hadapters', hnodup', hmem'⟩ := generateWith_alone h.sameGaps hm'
    have hperm : parts.Perm parts' := by
      have hmap : (parts.map (Except.ok (ε := GenerateError))).Perm (parts'.map Except.ok) := by
        rw [← hparts, ← hparts']
        exact (h.types.filter _).map _
      exact (List.map_perm_map_iff fun _ _ => Except.ok.inj).1 hmap
    refine ⟨indexed_of_generateWith hm, indexed_of_generateWith hm', ?_, ?_, hnodup, hnodup'⟩
    · refine AdapterModule.found?_eq (indexed_of_generateWith hm) (indexed_of_generateWith hm') ?_
      rw [hadapters, hadapters']
      exact hperm.map _
    · refine (List.perm_ext_iff_of_nodup hnodup hnodup').2 fun t => ?_
      rw [hmem, hmem', h.isScanned_eq]
      exact and_congr_left fun _ => exists_congr fun p => and_congr_left fun _ => hperm.mem_iff

/-- Two structures, each with a field of a type that is not declared.  The two types have the same words, so the one
that is bound second has a numbered getter. -/
def firstScan : Model where
  types := [.plain "demo::A" (.structure [⟨"x", none, .named "ext::point" [], .none, none⟩]),
    .plain "demo::B" (.structure [⟨"y", none, .named "ext::Point" [], .none, none⟩])]
  subtypeAdapters := []
  paths_nodup := by decide

def secondScan : Model where
  types := firstScan.types.reverse
  subtypeAdapters := []
  paths_nodup := by decide

theorem generate_reordered_scans :
    ∃ m m', firstScan.generate .standard = .ok m ∧ secondScan.generate .standard = .ok m' ∧
    (∀ path, m.found? path = m'.found? path) ∧ m.required.Perm m'.required := by
  have hreordered : firstScan.Reordered secondScan := ⟨firstScan.types.reverse_perm.symm, rfl⟩
  obtain ⟨m, hm⟩ : ∃ m, firstScan.generate .standard = .ok m := ⟨_, rfl⟩
  obtain ⟨m', hm'⟩ := (generate_reordered hreordered _ _).1.1 ⟨m, hm⟩
  obtain ⟨-, -, hfound, hrequired, -⟩ := (generate_reordered hreordered _ _).2 m m' hm hm'
  exact ⟨m, m', hm, hm', hfound, hrequired⟩

end Model

end Marshal
