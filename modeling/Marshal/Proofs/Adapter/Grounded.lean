import Marshal.Proofs.Adapter.Generated
import Marshal.Proofs.Plan.Abreast

/-!
# What bindings rest on

Generation lets a binding take a type from the registry only after it has entered the type into the catalog and has
made sure that it is not an abstract type without an adapter; attached converters come from fields
(`Binding.Grounded`).  The types of bindings are parts of the types of fields, so they mention declared types with as
many arguments as these do (`TypeRef.Filled`).
-/

namespace Marshal

open Effect

/-! ### Arguments -/

/-- Every mention of a declared type has an argument for each parameter, or none. -/
inductive TypeRef.Filled (model : Model) : TypeRef → Prop
  | named {path : String} {args : List TypeRef}
    (harity : args = [] ∨ ∀ d ∈ model.types, d.path = path → args.length = d.params.length)
    (hargs : ∀ t ∈ args, Filled model t) : Filled model (.named path args)
  | array {element : TypeRef} (h : Filled model element) : Filled model (.array element)
  | var (name : String) : Filled model (.var name)

namespace TypeRef.Filled

variable {model : Model} {t : TypeRef} {args : List TypeRef}

protected theorem any : any.Filled model := .named (.inl rfl) nofun

private protected theorem argOrAny (hargs : ∀ a ∈ args, a.Filled model) (i : Nat) :
    (argOrAny args i).Filled model := by
  rw [TypeRef.argOrAny, List.getD_eq_getElem?_getD]
  cases ha : args[i]? with
  | none => exact .any
  | some a => exact hargs a (List.mem_of_getElem? ha)

protected theorem substitute (params : List String) (hargs : ∀ a ∈ args, a.Filled model) (h : t.Filled model) :
    (t.substitute params args).Filled model := by
  induction h with
  | @named path inner harity _ ih =>
    rw [TypeRef.substitute, substituteList_eq_map]
    refine .named ?_ fun u hu => ?_
    · rw [List.map_eq_nil_iff, List.length_map]
      exact harity
    · obtain ⟨t, ht, rfl⟩ := List.mem_map.1 hu
      exact ih t ht
  | array _ ih => exact .array ih
  | var name =>
    rw [TypeRef.substitute]
    cases paramIndex? params name with
    | none => exact .var name
    | some i => exact .argOrAny hargs i

theorem of_args (h : t.Filled model) : ∀ a ∈ t.args, a.Filled model := by
  cases h with
  | named _ hargs => exact hargs
  | array | var => nofun

theorem arity (h : t.Filled model) {d : Declaration} (hd : d ∈ model.types) (hpath : t.path? = some d.path) :
    t.args = [] ∨ t.args.length = d.params.length := by
  cases h with
  | named harity _ => exact harity.imp_right fun h => h d hd (Option.some.inj hpath).symm
  | array | var => cases hpath

theorem of_list {element : TypeRef} {i : Instantiator} (h : t.Filled model) (hshape : t.shape = .list element i) :
    element.Filled model := by
  rcases shape_eq_list hshape with ⟨rfl, -⟩ | ⟨path, inner, rfl, -, -, -, rfl⟩
  · cases h with
    | array h => exact h
  · exact .argOrAny h.of_args 0

theorem of_map {key value : TypeRef} {i : Instantiator} (h : t.Filled model) (hshape : t.shape = .map key value i) :
    key.Filled model ∧ value.Filled model := by
  obtain ⟨path, inner, rfl, -, -, -, rfl, rfl⟩ := shape_eq_map hshape
  exact ⟨.argOrAny h.of_args 0, .argOrAny h.of_args 1⟩

end TypeRef.Filled

/-! ### Catalogs -/

/-- The types that have a getter. -/
def Catalog.types (c : Catalog) : List TypeRef := c.getters.map (·.1)

theorem Catalog.mem_types_of_getter? {c : Catalog} {ty : TypeRef} {name : String} (h : c.getter? ty = some name) :
    ty ∈ c.types := by
  obtain ⟨p, hp, -⟩ := Option.map_eq_some_iff.1 h
  have hty : p.1 = ty := by simpa using List.find?_some hp
  exact hty ▸ List.mem_map_of_mem (List.mem_of_find?_eq_some hp)

/-- A type that is bound has a getter from then on, and no other type loses its own. -/
private theorem Catalog.types_bind (c : Catalog) (ty : TypeRef) :
    ty ∈ (c.bind ty).2.types ∧ c.types ⊆ (c.bind ty).2.types := by
  unfold bind
  cases hget : c.getter? ty with
  | some name => exact ⟨mem_types_of_getter? hget, fun _ => id⟩
  | none =>
    simp only [types, List.map_append]
    exact ⟨List.mem_append_right _ (List.mem_singleton_self ty), List.subset_append_left _ _⟩

/-! ### Bindings -/

/-- What stands behind a binding of the adapter of `d` once the catalog is filled. -/
def Binding.Grounded (model : Model) (d : Declaration) (catalog : Catalog) (b : Binding) : Prop :=
  match b.source with
  | .registry _ => b.ty.Filled model ∧ b.ty ∈ catalog.types ∧
      ∀ d' ∈ model.types, b.ty.path? = some d'.path → d'.isAbstract = true → model.hasSubtypeAdapter d'.path = true
  | .attached path => ∃ f ∈ d.fields, ∃ x, f.converter = some x ∧ x.path = path
  | .known .. | .param _ | .discover _ => b.ty.Filled model

section Grounded

variable {model : Model} {d : Declaration} {catalog catalog' : Catalog} {b : Binding}

private theorem Binding.Grounded.mono (hsub : catalog.types ⊆ catalog'.types) (h : b.Grounded model d catalog) :
    b.Grounded model d catalog' := by
  unfold Grounded at h ⊢
  cases hsource : b.source with
  | registry getter =>
    simp only [hsource] at h ⊢
    exact ⟨h.1, hsub h.2.1, h.2.2⟩
  | known | param | discover | attached =>
    simp only [hsource] at h ⊢
    exact h

theorem Binding.Grounded.filled (h : b.Grounded model d catalog) (hsource : b.source.isAttached = false) :
    b.ty.Filled model := by
  unfold Grounded at h
  cases hs : b.source with
  | registry getter =>
    rw [hs] at h
    exact h.1
  | known | param | discover =>
    rw [hs] at h
    exact h
  | attached path =>
    rw [hs] at hsource
    cases hsource

/-- The plan of a field of `d` in the making, on both sides the same: since `catalog` no getter was lost, and all
bindings are grounded. -/
def Grounding (model : Model) (d : Declaration) (catalog : Catalog) (s s' : Planning) : Prop :=
  s' = s ∧ catalog.types ⊆ s.catalog.types ∧ ∀ b ∈ s.bindings, b.Grounded model d s.catalog

namespace PlanScope

variable {scope : PlanScope} {ty : TypeRef} {source : BindingSource}

/-- A plan that does not fail, whatever it is begun with, and keeps the bindings grounded. -/
private theorem abreast_grounding {α : Type} {m : PlanM α}
    (h : ∀ s, ∃ a t, m s = .ok a t ∧ s.catalog.types ⊆ t.catalog.types ∧
      ((∀ b ∈ s.bindings, b.Grounded model d s.catalog) → ∀ b ∈ t.bindings, b.Grounded model d t.catalog)) :
    Abreast (Grounding model d catalog) Eq m m := by
  rintro s s' ⟨rfl, hsub, hall⟩
  obtain ⟨a, t, hm, hsub', hkeep⟩ := h s'
  exact .inl ⟨a, a, t, t, hm, hm, rfl, rfl, List.Subset.trans hsub hsub', hkeep hall⟩

private theorem push_grounded (scope : PlanScope) {s : Planning}
    (h : ∀ b : Binding, b.ty = ty → b.source = source → b.Grounded model d s.catalog) :
    ∃ i t, scope.push ty source s = .ok i t ∧ t.catalog = s.catalog ∧
      ((∀ b ∈ s.bindings, b.Grounded model d s.catalog) → ∀ b ∈ t.bindings, b.Grounded model d t.catalog) := by
  refine ⟨_, _, rfl, rfl, fun hall b hb => ?_⟩
  rcases List.mem_append.1 hb with hold | hnew
  · exact hall b hold
  · obtain rfl := List.mem_singleton.1 hnew
    exact h _ rfl rfl

private theorem bind_grounded (scope : PlanScope) {s : Planning}
    (h : ∀ b : Binding, b.ty = ty → b.source = source → b.Grounded model d s.catalog) :
    ∃ i t, scope.bind ty source s = .ok i t ∧ t.catalog = s.catalog ∧
      ((∀ b ∈ s.bindings, b.Grounded model d s.catalog) → ∀ b ∈ t.bindings, b.Grounded model d t.catalog) := by
  rw [bind, bind_of_ok (get_apply s)]
  cases s.bindings.findIdx? fun b => b.ty == ty && !b.source.isAttached with
  | some i => exact ⟨i, s, rfl, rfl, id⟩
  | none => exact push_grounded scope h

private theorem bindAttached_grounded (scope : PlanScope) (s : Planning) {path : String}
    (h : ∃ f ∈ d.fields, ∃ x, f.converter = some x ∧ x.path = path) :
    ∃ i t, scope.bindAttached path s = .ok i t ∧ t.catalog = s.catalog ∧
      ((∀ b ∈ s.bindings, b.Grounded model d s.catalog) → ∀ b ∈ t.bindings, b.Grounded model d t.catalog) := by
  rw [bindAttached, bind_of_ok (get_apply s)]
  cases s.bindings.findIdx? fun b => b.source == .attached path with
  | some i => exact ⟨i, s, rfl, rfl, id⟩
  | none =>
    refine push_grounded scope fun b _ hsource => ?_
    rw [Binding.Grounded, hsource]
    exact h

private theorem lacksAdapter_eq_false (h : scope.lacksAdapter ty = false) {d' : Declaration}
    (hd : d' ∈ scope.model.types) (hpath : ty.path? = some d'.path) (habstract : d'.isAbstract = true) :
    scope.model.hasSubtypeAdapter d'.path = true := by
  have hget : scope.model.get? d'.path = some d' := find?_of_nodup Declaration.path scope.model.paths_nodup hd
  simpa [lacksAdapter, hpath, hget, habstract] using h

/-- Planning a field of `d` keeps the bindings grounded. -/
private theorem alongside_grounding (namePrefix : String) (f : Field) :
    Alongside Eq (Grounding model d catalog) (·.Filled model) ⟨model, namePrefix, d, f⟩
      ⟨model, namePrefix, d, f⟩ where
  path := rfl
  params := rfl
  name := rfl
  ty := rfl
  runtime := rfl
  element h := by
    cases h with
    | array h => exact h
  args h := h.of_args
  lacksAdapter _ := rfl
  bindGetter {ty} hty hlacks := by
    refine abreast_grounding fun s => ?_
    obtain ⟨hmem, hsub⟩ := s.catalog.types_bind ty
    have hnew (b : Binding) (hb : b.ty = ty) (hsource : b.source = .registry (s.catalog.bind ty).1) :
        b.Grounded model d (s.catalog.bind ty).2 := by
      rw [Binding.Grounded, hsource, hb]
      exact ⟨hty, hmem, fun d' hd hpath habstract => lacksAdapter_eq_false hlacks hd hpath habstract⟩
    obtain ⟨i, t, hrun, hcatalog, hkeep⟩ :=
      bind_grounded ⟨model, namePrefix, d, f⟩ (s := ⟨(s.catalog.bind ty).2, s.bindings⟩) hnew
    exact ⟨i, t, hrun, hcatalog ▸ hsub, fun hall => hkeep fun b hb => (hall b hb).mono hsub⟩
  bind {ty source} hty hattached hregistry := by
    refine abreast_grounding fun s => ?_
    have hnew (b : Binding) (hb : b.ty = ty) (hsource : b.source = source) : b.Grounded model d s.catalog := by
      rw [Binding.Grounded, hsource, hb]
      cases source with
      | known | param | discover => exact hty
      | registry => cases hregistry
      | attached => cases hattached
    obtain ⟨i, t, hrun, hcatalog, hkeep⟩ := bind_grounded ⟨model, namePrefix, d, f⟩ hnew
    exact ⟨i, t, hrun, hcatalog ▸ fun _ => id, hkeep⟩

private theorem abreast_bindAttached_grounding (namePrefix : String) {f : Field} (hf : f ∈ d.fields)
    {x : FieldConverter} (hx : f.converter = some x) :
    Abreast (Grounding model d catalog) Eq (bindAttached ⟨model, namePrefix, d, f⟩ x.path)
      (bindAttached ⟨model, namePrefix, d, f⟩ x.path) := by
  refine abreast_grounding fun s => ?_
  obtain ⟨i, t, hrun, hcatalog, hkeep⟩ := bindAttached_grounded ⟨model, namePrefix, d, f⟩ s ⟨f, hf, x, hx, rfl⟩
  exact ⟨i, t, hrun, hcatalog ▸ fun _ => id, hkeep⟩

end PlanScope

/-- The adapter of a structure has grounded bindings. -/
private theorem Declaration.structAdapter_grounded {accessor : Accessor} {namePrefix : String} {a : StructAdapter}
    (hfilled : ∀ f ∈ d.fields, f.ty.Filled model)
    (h : d.structAdapter model accessor namePrefix catalog = (.ok a, catalog')) :
    catalog.types ⊆ catalog'.types ∧ ∀ b ∈ a.bindings, b.Grounded model d catalog' := by
  unfold structAdapter at h
  cases hn : repeatedName? (d.fields.map Field.serializedName) with
  | some name => simp [hn] at h
  | none =>
    simp only [hn] at h
    have hstart : Grounding model d catalog ⟨catalog, []⟩ ⟨catalog, []⟩ := ⟨rfl, fun _ => id, nofun⟩
    rcases planFields_same (fun f hf => ⟨hfilled f hf, PlanScope.alongside_grounding namePrefix f,
        fun x => PlanScope.abreast_bindAttached_grounding namePrefix hf⟩) hstart with
      ⟨plan, _, filled, _, hplan, -, -, -, hsub, hall⟩ | ⟨e, filled, _, hplan, -⟩
    · simp only [hplan, Prod.mk.injEq, Except.ok.injEq] at h
      obtain ⟨rfl, rfl⟩ := h
      exact ⟨hsub, hall⟩
    · simp [hplan] at h

namespace Model

variable {accessor : Accessor} {namePrefix : String}

/-- The adapters of several declarations: an abstract one has none, and that of another one stands before the rest. -/
theorem adaptersFrom_cons_ok {ds : List Declaration} {adapters : List Adapter}
    (h : model.adaptersFrom accessor namePrefix catalog (d :: ds) = .ok (adapters, catalog')) :
    (d.isAbstract = true ∧ model.adaptersFrom accessor namePrefix catalog ds = .ok (adapters, catalog')) ∨
      (∃ constants a rest, d.kind = .enumeration constants ∧ d.enumAdapter = .ok a ∧
        model.adaptersFrom accessor namePrefix catalog ds = .ok (rest, catalog') ∧ adapters = .enum a :: rest) ∨
      ∃ fields a filled rest, d.kind = .structure fields ∧ d.structAdapter model accessor namePrefix catalog =
        (.ok a, filled) ∧
        model.adaptersFrom accessor namePrefix filled ds = .ok (rest, catalog') ∧ adapters = .struct a :: rest := by
  have hrest {a : Adapter} {filled : Catalog}
      (h : (do
        let p ← model.adaptersFrom accessor namePrefix filled ds
        .ok (a :: p.1, p.2)) = .ok (adapters, catalog')) :
      ∃ rest, model.adaptersFrom accessor namePrefix filled ds = .ok (rest, catalog') ∧ adapters = a :: rest := by
    cases hr : model.adaptersFrom accessor namePrefix filled ds with
    | error e => simp [hr, bind, Except.bind] at h
    | ok p =>
      simp only [hr, bind, Except.bind, Except.ok.injEq, Prod.mk.injEq] at h
      obtain ⟨rfl, rfl⟩ := h
      exact ⟨p.1, rfl, rfl⟩
  cases hk : d.kind with
  | abstract =>
    simp only [adaptersFrom, hk] at h
    exact .inl ⟨by rw [Declaration.isAbstract, hk], h⟩
  | enumeration constants =>
    simp only [adaptersFrom, hk] at h
    cases ha : d.enumAdapter with
    | error e => simp [ha, bind, Except.bind] at h
    | ok a =>
      simp only [ha, bind, Except.bind] at h
      obtain ⟨rest, hr, rfl⟩ := hrest h
      exact .inr (.inl ⟨constants, a, rest, rfl, rfl, hr, rfl⟩)
  | «structure» fields =>
    simp only [adaptersFrom, hk] at h
    rcases ha : d.structAdapter model accessor namePrefix catalog with ⟨_ | a, filled⟩
    · simp [ha] at h
    · simp only [ha] at h
      obtain ⟨rest, hr, rfl⟩ := hrest h
      exact .inr (.inr ⟨fields, a, filled, rest, rfl, rfl, hr, rfl⟩)

/-- The adapters of structures have grounded bindings. -/
private theorem adaptersFrom_grounded (ds : List Declaration)
    (hfilled : ∀ d ∈ ds, ∀ f ∈ d.fields, f.ty.Filled model) :
    ∀ (catalog : Catalog) (adapters : List Adapter) (catalog' : Catalog),
      model.adaptersFrom accessor namePrefix catalog ds = .ok (adapters, catalog') →
        catalog.types ⊆ catalog'.types ∧ ∀ a, Adapter.struct a ∈ adapters →
          ∃ d ∈ ds, a.target = d.selfType ∧ ∀ b ∈ a.bindings, b.Grounded model d catalog' := by
  induction ds with
  | nil =>
    intro catalog adapters catalog' h
    simp only [adaptersFrom, Except.ok.injEq, Prod.mk.injEq] at h
    obtain ⟨rfl, rfl⟩ := h
    exact ⟨fun _ => id, fun _ ha => absurd ha List.not_mem_nil⟩
  | cons d ds ih =>
    obtain ⟨hd, hds⟩ := List.forall_mem_cons.1 hfilled
    intro catalog adapters catalog' h
    -- the adapters of the other declarations keep theirs
    have hlift {a : StructAdapter}
        (h : ∃ d ∈ ds, a.target = d.selfType ∧ ∀ b ∈ a.bindings, b.Grounded model d catalog') :
        ∃ d' ∈ d :: ds, a.target = d'.selfType ∧ ∀ b ∈ a.bindings, b.Grounded model d' catalog' := by
      obtain ⟨d', hd', hgrounded⟩ := h
      exact ⟨d', List.mem_cons_of_mem d hd', hgrounded⟩
    rcases adaptersFrom_cons_ok h with ⟨-, hr⟩ | ⟨-, x, rest, -, -, hr, rfl⟩ | ⟨-, x, filled, rest, -, hx, hr, rfl⟩
    · obtain ⟨hsub, hall⟩ := ih hds catalog adapters catalog' hr
      exact ⟨hsub, fun a ha => hlift (hall a ha)⟩
    · obtain ⟨hsub, hall⟩ := ih hds catalog rest catalog' hr
      exact ⟨hsub, fun a ha => hlift (hall a ((List.mem_cons.1 ha).resolve_left (by simp)))⟩
    · obtain ⟨hsub, hbindings⟩ := Declaration.structAdapter_grounded hd hx
      obtain ⟨hsub', hall⟩ := ih hds filled rest catalog' hr
      refine ⟨List.Subset.trans hsub hsub', fun a ha => ?_⟩
      rcases List.mem_cons.1 ha with heq | hmem
      · obtain rfl : a = x := Adapter.struct.inj heq
        have htarget : a.target = d.selfType := by
          obtain ⟨codecs, hserves⟩ := Declaration.structAdapter_ok hx
          exact hserves.target
        exact ⟨d, List.mem_cons_self .., htarget, fun b hb => (hbindings b hb).mono hsub'⟩
      · exact hlift (hall a hmem)

/-- The bindings of a generated module are grounded in a catalog whose types the module declares or requires. -/
theorem generateWith_grounded {options : GeneratorOptions} {m : AdapterModule}
    (hfilled : ∀ d ∈ model.types, ∀ f ∈ d.fields, f.ty.Filled model)
    (h : model.generateWith accessor options = .ok m) :
    ∃ catalog : Catalog, m.required = catalog.required model ∧ ∀ a, Adapter.struct a ∈ m.adapters →
      ∃ d ∈ model.types, a.target = d.selfType ∧ ∀ b ∈ a.bindings, b.Grounded model d catalog := by
  unfold generateWith at h
  cases hr : model.adaptersFrom accessor options.bindingPrefix .empty model.types with
  | error e => simp [hr, bind, Except.bind] at h
  | ok p =>
    simp only [hr, bind, Except.bind, Except.ok.injEq] at h
    subst h
    exact ⟨p.2, rfl, (adaptersFrom_grounded _ hfilled _ _ _ hr).2⟩

end Model

end Grounded

end Marshal
