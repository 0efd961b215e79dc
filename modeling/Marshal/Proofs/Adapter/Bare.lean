import Marshal.Proofs.Adapter.Grounded

/-!
# Adapters without names

The model that a declaration is scanned with gives the bindings of its adapter their getters, and the options give
them their names; apart from these an adapter is a matter of the declaration alone, if no declaration is abstract
(`ownAdapter`).  So a module is generated from a model exactly if all declarations have adapters by themselves.
-/

namespace Marshal

open Effect

/-! ### Leaving the names out -/

def BindingSource.bare : BindingSource → BindingSource
  | .registry _ => .registry ""
  | source => source

def Binding.bare (b : Binding) : Binding := ⟨"", b.ty, b.source.bare⟩

def StructAdapter.bare (a : StructAdapter) : StructAdapter := { a with bindings := a.bindings.map Binding.bare }

def Adapter.bare : Adapter → Adapter
  | .struct a => .struct a.bare
  | .enum a => .enum a

@[simp]
theorem BindingSource.isAttached_bare (source : BindingSource) : source.bare.isAttached = source.isAttached := by
  cases source <;> rfl

@[simp]
private theorem BindingSource.isRegistry_bare (source : BindingSource) :
    source.bare.isRegistry = source.isRegistry := by
  cases source <;> rfl

@[simp]
private theorem BindingSource.isDiscover_bare (source : BindingSource) :
    source.bare.isDiscover = source.isDiscover := by
  cases source <;> rfl

theorem BindingSource.bare_beq_attached (source : BindingSource) (path : String) :
    (source.bare == .attached path) = (source == .attached path) := by
  cases source <;> rfl

theorem Binding.part_bare (args : List TypeRef) (b : Binding) : b.bare.part args = b.part args := by
  unfold part Binding.bare
  cases b.source <;> rfl

theorem Adapter.target_bare (a : Adapter) : a.bare.target = a.target := by
  cases a <;> rfl

/-! ### Plans without names -/

/-- The same bindings but for their names. -/
def SameBindings (s s' : Planning) : Prop := s.bindings.map Binding.bare = s'.bindings.map Binding.bare

namespace PlanScope

variable {scope scope' : PlanScope}

private theorem findIdx?_eq {p : Binding → Bool} (hp : ∀ b, p b.bare = p b) {s s' : Planning}
    (hs : SameBindings s s') : s.bindings.findIdx? p = s'.bindings.findIdx? p := by
  have hbare (bs : List Binding) : (bs.map Binding.bare).findIdx? p = bs.findIdx? p := by
    rw [List.findIdx?_map]
    congr 1
    funext b
    exact hp b
  have hsame : s.bindings.map Binding.bare = s'.bindings.map Binding.bare := hs
  calc s.bindings.findIdx? p = (s.bindings.map Binding.bare).findIdx? p := (hbare _).symm
    _ = (s'.bindings.map Binding.bare).findIdx? p := by rw [hsame]
    _ = s'.bindings.findIdx? p := hbare _

private theorem abreast_push (ty : TypeRef) {source source' : BindingSource} (h : source.bare = source'.bare) :
    Abreast SameBindings Eq (scope.push ty source) (scope'.push ty source') := by
  intro s s' hs
  have hlength : s.bindings.length = s'.bindings.length := by simpa using congrArg List.length hs
  have hsame : s.bindings.map Binding.bare = s'.bindings.map Binding.bare := hs
  refine .inl ⟨_, _, _, _, rfl, rfl, hlength, ?_⟩
  show List.map _ _ = List.map _ _
  simp only [List.map_append, List.map_cons, List.map_nil, Binding.bare, h, hsame]

private theorem abreast_bind (ty : TypeRef) {source source' : BindingSource} (h : source.bare = source'.bare) :
    Abreast SameBindings Eq (scope.bind ty source) (scope'.bind ty source') := by
  intro s s' hs
  have hfind := findIdx?_eq (p := fun b => b.ty == ty && !b.source.isAttached) (fun b => by simp [Binding.bare]) hs
  unfold bind
  rw [bind_of_ok (get_apply s), bind_of_ok (get_apply s'), hfind]
  cases s'.bindings.findIdx? fun b => b.ty == ty && !b.source.isAttached with
  | some i => exact .inl ⟨i, i, s, s', rfl, rfl, rfl, hs⟩
  | none => exact abreast_push ty h s s' hs

private theorem abreast_bindGetter (ty : TypeRef) :
    Abreast SameBindings Eq (scope.bindGetter ty) (scope'.bindGetter ty) := by
  intro s s' hs
  have hbind : Abreast SameBindings Eq (scope.bind ty (.registry (s.catalog.bind ty).1))
      (scope'.bind ty (.registry (s'.catalog.bind ty).1)) := abreast_bind ty rfl
  exact hbind ⟨(s.catalog.bind ty).2, s.bindings⟩ ⟨(s'.catalog.bind ty).2, s'.bindings⟩ hs

/-- An attached converter is bound with the type of the field. -/
theorem abreast_bindAttached {path : String} (hty : scope'.field.ty = scope.field.ty) :
    Abreast SameBindings Eq (scope.bindAttached path) (scope'.bindAttached path) := by
  intro s s' hs
  have hfind := findIdx?_eq (p := fun b => b.source == .attached path) (fun b => b.source.bare_beq_attached path) hs
  unfold bindAttached
  rw [bind_of_ok (get_apply s), bind_of_ok (get_apply s'), hfind, hty]
  cases s'.bindings.findIdx? fun b => b.source == .attached path with
  | some i => exact .inl ⟨i, i, s, s', rfl, rfl, rfl, hs⟩
  | none => exact abreast_push _ rfl s s' hs

private theorem lacksAdapter_of_concrete (h : ∀ d ∈ scope.model.types, d.isAbstract = false) (ty : TypeRef) :
    scope.lacksAdapter ty = false := by
  unfold lacksAdapter
  cases ty.path? with
  | none => rfl
  | some path =>
    cases hd : scope.model.get? path with
    | none => simp [hd]
    | some d => simp [hd, h d (List.mem_of_find?_eq_some hd)]

/-- Models in which the same types lack an adapter do not matter otherwise. -/
theorem alongside_of_lacksAdapter {model model' : Model} {namePrefix namePrefix' : String}
    {d : Declaration} {f : Field}
    (h : ∀ ty, lacksAdapter ⟨model', namePrefix', d, f⟩ ty = lacksAdapter ⟨model, namePrefix, d, f⟩ ty) :
    Alongside Eq SameBindings (fun _ => True) ⟨model, namePrefix, d, f⟩ ⟨model', namePrefix', d, f⟩ where
  path := rfl
  params := rfl
  name := rfl
  ty := rfl
  runtime := rfl
  element := id
  args _ _ _ := trivial
  lacksAdapter {ty} _ := h ty
  bindGetter {ty} _ _ := abreast_bindGetter ty
  bind _ _ _ := abreast_bind _ rfl

/-- Without abstract declarations the models do not matter. -/
private theorem alongside_bare {model model' : Model} (h : ∀ d ∈ model.types, d.isAbstract = false)
    (h' : ∀ d ∈ model'.types, d.isAbstract = false) (namePrefix namePrefix' : String) (d : Declaration) (f : Field) :
    Alongside Eq SameBindings (fun _ => True) ⟨model, namePrefix, d, f⟩ ⟨model', namePrefix', d, f⟩ :=
  alongside_of_lacksAdapter fun ty => (lacksAdapter_of_concrete h' ty).trans (lacksAdapter_of_concrete h ty).symm

end PlanScope

namespace Declaration

variable {d : Declaration} {accessor : Accessor}

theorem requirements_eq {plan plan' : FieldPlan} (hcodecs : plan'.codecs = plan.codecs)
    (hbindings : plan.bindings.map Binding.bare = plan'.bindings.map Binding.bare) :
    d.requirements plan = d.requirements plan' := by
  have hany (p : BindingSource → Bool) (hp : ∀ source, p source.bare = p source) :
      (plan.bindings.any fun b => p b.source) = plan'.bindings.any fun b => p b.source := by
    have hbare (bs : List Binding) : ((bs.map Binding.bare).any fun b => p b.source) = bs.any fun b =>
        p b.source := by
      rw [List.any_map]
      congr 1
      funext b
      exact hp b.source
    calc (plan.bindings.any fun b => p b.source) = (plan.bindings.map Binding.bare).any fun b => p b.source :=
      (hbare _).symm
      _ = (plan'.bindings.map Binding.bare).any fun b => p b.source := by rw [hbindings]
      _ = plan'.bindings.any fun b => p b.source := hbare _
  unfold requirements
  rw [hcodecs, hany _ BindingSource.isRegistry_bare, hany _ BindingSource.isDiscover_bare]

/-- In two models without abstract declarations a structure has the same adapter but for the names, or the same
fault. -/
private theorem structAdapter_bare {model model' : Model} (h : ∀ d ∈ model.types, d.isAbstract = false)
    (h' : ∀ d ∈ model'.types, d.isAbstract = false) (namePrefix namePrefix' : String) (catalog catalog' : Catalog) :
    (d.structAdapter model accessor namePrefix catalog).1.map StructAdapter.bare =
      (d.structAdapter model' accessor namePrefix' catalog').1.map StructAdapter.bare := by
  unfold structAdapter
  cases repeatedName? (d.fields.map Field.serializedName) with
  | some name => rfl
  | none =>
    rcases planFields_same (fun f _ => ⟨trivial, PlanScope.alongside_bare h h' namePrefix namePrefix' d f,
        fun _ _ => PlanScope.abreast_bindAttached rfl⟩) (show SameBindings ⟨catalog, []⟩ ⟨catalog', []⟩ from rfl) with
      ⟨plan, plan', filled, filled', hplan, hplan', hcodecs, hbindings⟩ | ⟨e, filled, filled', hplan, hplan'⟩
    · simp only [hplan, hplan', Except.map, StructAdapter.bare, hcodecs, requirements_eq hcodecs hbindings]
      rw [show plan.bindings.map Binding.bare = plan'.bindings.map Binding.bare from hbindings]
    · simp only [hplan, hplan', Except.map]

/-- The adapter of a declaration by itself, without names. -/
def ownAdapter (accessor : Accessor) (d : Declaration) : Except GenerateError Adapter :=
  match d.kind with
  | .enumeration _ => d.enumAdapter.map .enum
  | _ => ((d.structAdapter .empty accessor "" .empty).1.map StructAdapter.bare).map .struct

private theorem ownAdapter_of_enumeration {constants : List Constant} (hk : d.kind = .enumeration constants) :
    d.ownAdapter accessor = d.enumAdapter.map .enum := by
  simp only [ownAdapter, hk]

/-- The adapter that a structure has in a model without abstract declarations is its own one. -/
private theorem ownAdapter_of_structure {model : Model} (h : ∀ d ∈ model.types, d.isAbstract = false)
    {fields : List Field} (hk : d.kind = .structure fields) (namePrefix : String) (catalog : Catalog) :
    d.ownAdapter accessor =
      ((d.structAdapter model accessor namePrefix catalog).1.map StructAdapter.bare).map .struct := by
  have hempty : ∀ d ∈ Model.empty.types, d.isAbstract = false := fun _ hd => absurd hd List.not_mem_nil
  simp only [ownAdapter, hk]
  rw [structAdapter_bare hempty h "" namePrefix .empty catalog]

theorem ownAdapter_target {a : Adapter} (h : d.ownAdapter accessor = .ok a) : a.target = d.selfType := by
  have hstruct (h : ((d.structAdapter .empty accessor "" .empty).1.map StructAdapter.bare).map Adapter.struct =
      .ok a) : a.target = d.selfType := by
    rcases hs : d.structAdapter .empty accessor "" .empty with ⟨_ | x, filled⟩
    · simp [hs, Except.map] at h
    · obtain ⟨codecs, hserves⟩ := structAdapter_ok hs
      simp only [hs, Except.map, Except.ok.injEq] at h
      rw [← h]
      exact hserves.target
  cases hk : d.kind with
  | enumeration constants =>
    rw [ownAdapter_of_enumeration hk] at h
    cases he : d.enumAdapter with
    | error e => simp [he, Except.map] at h
    | ok x =>
      obtain ⟨-, rfl⟩ := enumAdapter_ok he
      simp only [he, Except.map, Except.ok.injEq] at h
      rw [← h]
      rfl
  | abstract | «structure» fields =>
    simp only [ownAdapter, hk] at h
    exact hstruct h

end Declaration

namespace Model

variable {model : Model} {accessor : Accessor} {namePrefix : String}

/-- The adapters of several declarations are their own ones. -/
private theorem adaptersFrom_own (h : ∀ d ∈ model.types, d.isAbstract = false) (ds : List Declaration)
    (hds : ∀ d ∈ ds, d.isAbstract = false) : ∀ (catalog : Catalog) (adapters : List Adapter) (catalog' : Catalog),
      model.adaptersFrom accessor namePrefix catalog ds = .ok (adapters, catalog') →
        List.Forall₂ (fun d a => d.ownAdapter accessor = .ok a.bare) ds adapters := by
  induction ds with
  | nil =>
    intro catalog adapters catalog' hrun
    simp only [adaptersFrom, Except.ok.injEq, Prod.mk.injEq] at hrun
    rw [← hrun.1]
    exact .nil
  | cons d ds ih =>
    obtain ⟨hd, hds⟩ := List.forall_mem_cons.1 hds
    intro catalog adapters catalog' hrun
    rcases adaptersFrom_cons_ok hrun with
      ⟨habstract, -⟩ | ⟨constants, a, rest, hk, ha, hrest, rfl⟩ | ⟨fields, a, filled, rest, hk, ha, hrest, rfl⟩
    · rw [hd] at habstract
      cases habstract
    · refine .cons ?_ (ih hds _ _ _ hrest)
      rw [Declaration.ownAdapter_of_enumeration hk, ha]
      rfl
    · refine .cons ?_ (ih hds _ _ _ hrest)
      rw [Declaration.ownAdapter_of_structure h hk namePrefix catalog, ha]
      rfl

/-- If all declarations have adapters of their own, there are adapters for all of them. -/
private theorem exists_adaptersFrom (h : ∀ d ∈ model.types, d.isAbstract = false) (ds : List Declaration)
    (hds : ∀ d ∈ ds, d.isAbstract = false ∧ ∃ a, d.ownAdapter accessor = .ok a) :
    ∀ catalog, ∃ p, model.adaptersFrom accessor namePrefix catalog ds = .ok p := by
  induction ds with
  | nil => exact fun catalog => ⟨_, rfl⟩
  | cons d ds ih =>
    obtain ⟨⟨habstract, a, ha⟩, hds⟩ := List.forall_mem_cons.1 hds
    intro catalog
    cases hk : d.kind with
    | abstract => simp [Declaration.isAbstract, hk] at habstract
    | enumeration constants =>
      rw [Declaration.ownAdapter_of_enumeration hk] at ha
      cases he : d.enumAdapter with
      | error e => simp [he, Except.map] at ha
      | ok x =>
        obtain ⟨p, hp⟩ := ih hds catalog
        simp only [adaptersFrom, hk, he, hp, Bind.bind, Except.bind]
        exact ⟨_, rfl⟩
    | «structure» fields =>
      rw [Declaration.ownAdapter_of_structure h hk namePrefix catalog] at ha
      rcases hs : d.structAdapter model accessor namePrefix catalog with ⟨_ | x, filled⟩
      · simp [hs, Except.map] at ha
      · obtain ⟨p, hp⟩ := ih hds filled
        simp only [adaptersFrom, hk, hs, hp, Bind.bind, Except.bind]
        exact ⟨_, rfl⟩

variable {options : GeneratorOptions}

/-- The adapters of a generated module are those of the declarations by themselves. -/
theorem generateWith_own (h : ∀ d ∈ model.types, d.isAbstract = false) {m : AdapterModule}
    (hm : model.generateWith accessor options = .ok m) :
    List.Forall₂ (fun d a => d.ownAdapter accessor = .ok a.bare) model.types m.adapters := by
  unfold generateWith at hm
  cases hr : model.adaptersFrom accessor options.bindingPrefix .empty model.types with
  | error e => simp [hr, Bind.bind, Except.bind] at hm
  | ok p =>
    simp only [hr, Bind.bind, Except.bind, Except.ok.injEq] at hm
    subst hm
    exact adaptersFrom_own h _ h _ _ _ hr

/-- A module is generated from a model without abstract declarations if they all have adapters by themselves. -/
theorem exists_generateWith_iff (h : ∀ d ∈ model.types, d.isAbstract = false) (options : GeneratorOptions) :
    (∃ m, model.generateWith accessor options = .ok m) ↔ ∀ d ∈ model.types, ∃ a, d.ownAdapter accessor = .ok a := by
  constructor
  · rintro ⟨m, hm⟩ d hd
    obtain ⟨a, -, ha⟩ := forall₂_of_mem_left (generateWith_own h hm) hd
    exact ⟨a.bare, ha⟩
  · intro hall
    obtain ⟨p, hp⟩ : ∃ p, model.adaptersFrom accessor options.bindingPrefix .empty model.types = .ok p :=
      exists_adaptersFrom h model.types (fun d hd => ⟨h d hd, hall d hd⟩) .empty
    unfold generateWith
    simp only [hp, Bind.bind, Except.bind]
    exact ⟨_, rfl⟩

end Model

end Marshal
