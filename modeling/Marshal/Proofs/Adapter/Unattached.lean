import Marshal.Proofs.Adapter.Reordered
import Marshal.Proofs.Converter.Forms
import Marshal.Proofs.Plan.Unattached

/-!
# Adapters without an attached converter

Two models that are the same but for converters attached to fields, each for one direction, have adapters that are the
same in the other direction (`StructAdapter.Alike`).  So the recipes of a generated module are alike too: they take
the same parts but for those converters.
-/

namespace Marshal

open Effect

variable {known : String → Bool} {usage : ConverterUse}

/-! ### Adapters -/

/-- The adapters take the same parts but for converters attached under the known paths, and the direction that
converters for the given use leave alone is the same in both. -/
structure StructAdapter.Alike (known : String → Bool) (usage : ConverterUse) (a a' : StructAdapter) : Prop where
  target : a.target = a'.target
  others : Binding.others known a.bindings = Binding.others known a'.bindings
  needsRegistry : a.requirements.needsRegistry = a'.requirements.needsRegistry
  read : usage = .write → a.read.Like (SamePart a.bindings a'.bindings) a'.read
  write : usage = .read → List.Forall₂ (WriteOp.Like (SamePart a.bindings a'.bindings)) a.write a'.write

private theorem StructAdapter.Alike.symm {a a' : StructAdapter} (h : a.Alike known usage a') :
    a'.Alike known usage a where
  target := h.target.symm
  others := h.others.symm
  needsRegistry := h.needsRegistry.symm
  read hu := (h.read hu).symm SamePart.symm
  write hu := (h.write hu).flip.imp fun _ _ hop => hop.symm SamePart.symm

/-- Two adapters that are the same or adapters of structures that are alike. -/
inductive Adapter.Alike (known : String → Bool) (usage : ConverterUse) : Adapter → Adapter → Prop
  | struct {a a' : StructAdapter} (h : a.Alike known usage a') : Alike known usage (.struct a) (.struct a')
  | enum (a : EnumAdapter) : Alike known usage (.enum a) (.enum a)

private theorem Adapter.Alike.target {a a' : Adapter} (h : a.Alike known usage a') : a.target = a'.target := by
  cases h with
  | struct h => exact h.target
  | enum => rfl

private theorem forall₂_zip {α α' β β' : Type} {R : α → α' → Prop} {S : β → β' → Prop} {T : α → β → Prop}
    {T' : α' → β' → Prop} {l : List α} {l' : List α'} {k : List β} {k' : List β'} (hR : List.Forall₂ R l l')
    (hS : List.Forall₂ S k k') (hT : List.Forall₂ T l k) (hT' : List.Forall₂ T' l' k') :
    List.Forall₂ (fun p p' => R p.1 p'.1 ∧ S p.2 p'.2 ∧ T p.1 p.2 ∧ T' p'.1 p'.2) (l.zip k) (l'.zip k') := by
  induction hR generalizing k k' with
  | nil => exact .nil
  | cons hr _ ih =>
    cases hT with
    | cons ht hT =>
      cases hT' with
      | cons ht' hT' =>
        cases hS with
        | cons hs hS => exact .cons ⟨hr, hs, ht, ht'⟩ (ih hS hT hT')

private theorem Field.Freed.eqs {f f' : Field} (h : f.Freed known usage f') :
    f.name = f'.name ∧ f.serializedName = f'.serializedName ∧ f.isNonNull = f'.isNonNull := by
  cases h <;> exact ⟨rfl, rfl, rfl⟩

namespace Declaration

/-- What the two declarations plan for their fields. -/
private abbrev Planned (known : String → Bool) (usage : ConverterUse) (bs bs' : List Binding) (p p' : Field × Codec) :
    Prop :=
  p.1.Freed known usage p'.1 ∧ p.2.Freed (fun _ _ => True) usage p'.2 ∧ FieldCodes bs p.1 p.2 ∧
  FieldCodes bs' p'.1 p'.2

section Procedures

variable {bs bs' : List Binding} {params : List String}
  (hbs : ∀ b ∈ bs, b.source.isAttached = false → b.ty.CallsFor params b.source)
  (hbs' : ∀ b ∈ bs', b.source.isAttached = false → b.ty.CallsFor params b.source) (accessor accessor' : Accessor)
  {fields fields' : List (Field × Codec)}

include hbs hbs'

private theorem readProcedure_like (h : List.Forall₂ (Planned known .write bs bs') fields fields') :
    (readProcedure accessor fields).Like (SamePart bs bs') (readProcedure accessor' fields') where
  fields := by
    refine List.forall₂_map_left_iff.2 (List.forall₂_map_right_iff.2 (h.imp fun p p' hp => ?_))
    obtain ⟨hf, hcodec, hc, hc'⟩ := hp
    have hreading := FieldCodes.renumbered_reading hbs hbs' hc hc' hf hcodec
    obtain ⟨hname, hserializedName, -⟩ := hf.eqs
    refine ⟨hname, hserializedName, ?_, hreading⟩
    show p.2.acceptedTokens = p'.2.acceptedTokens
    rw [← p.2.acceptedTokens_reading, hreading.acceptedTokens_eq, p'.2.acceptedTokens_reading]
  nonNull := by
    show (fields.filter fun p => p.1.isNonNull).map (·.1.name) = (fields'.filter fun p => p.1.isNonNull).map
      (·.1.name)
    induction h with
    | nil => rfl
    | @cons p p' fields fields' hp _ ih =>
      obtain ⟨hname, -, hnonNull⟩ := hp.1.eqs
      rw [List.filter_cons, List.filter_cons, hnonNull]
      split
      · rw [List.map_cons, List.map_cons, hname, ih]
      · exact ih

private theorem writeProcedure_like (h : List.Forall₂ (Planned known .read bs bs') fields fields') :
    List.Forall₂ (WriteOp.Like (SamePart bs bs')) (writeProcedure accessor fields)
      (writeProcedure accessor' fields') := by
  refine List.rel_append (List.rel_append (.cons .beginObject (.cons .endIfAbsent .nil)) ?_) (.cons .endObject .nil)
  refine List.forall₂_map_left_iff.2 (List.forall₂_map_right_iff.2 (h.imp fun p p' hp => ?_))
  obtain ⟨hf, hcodec, hc, hc'⟩ := hp
  obtain ⟨hname, hserializedName, hnonNull⟩ := hf.eqs
  exact .field hname hserializedName hnonNull (FieldCodes.renumbered_writing hbs hbs' hc hc' hf hcodec)

end Procedures

private theorem any_isRegistry_others (known : String → Bool) (bs : List Binding) :
    (bs.any fun b => b.source.isRegistry) = (Binding.others known bs).any fun b => b.source.isRegistry := by
  rw [Binding.others, List.any_map, List.any_filter]
  congr 1
  funext b
  obtain ⟨_, _, source⟩ := b
  cases source with
  | attached path => exact (Bool.and_false _).symm
  | _ => rfl

private theorem needsRegistry_eq {d d' : Declaration} {plan plan' : FieldPlan}
    (hcodecs : List.Forall₂ (Codec.Freed (fun _ _ => True) usage) plan.codecs plan'.codecs)
    (hbindings : Binding.others known plan.bindings = Binding.others known plan'.bindings) :
    (d.requirements plan).needsRegistry = (d'.requirements plan').needsRegistry := by
  have hany {p : Codec → Bool} (hp : ∀ c c', Codec.Renumbered (fun _ _ => True) c c' → p c = p c')
      (hsplit : ∀ w r, p (.split w r) = false) (hattached : ∀ i nullSafe, p (.attached i nullSafe) = false) :
      plan.codecs.any (·.any p) = plan'.codecs.any (·.any p) := by
    generalize plan.codecs = codecs, plan'.codecs = codecs' at hcodecs ⊢
    induction hcodecs with
    | nil => rfl
    | cons hc _ ih => rw [List.any_cons, List.any_cons, hc.any_eq hp hsplit hattached, ih]
  simp only [requirements]
  rw [hany (fun _ _ h => by cases h <;> rfl) (fun _ _ => rfl) (fun _ _ => rfl),
    hany (fun _ _ h => by cases h <;> rfl) (fun _ _ => rfl) (fun _ _ => rfl),
    any_isRegistry_others known plan.bindings, any_isRegistry_others known plan'.bindings, hbindings]

/-- The adapters of two structures that differ by converters attached to their fields. -/
private theorem structAdapter_alike (husage : usage ≠ .both) {model model' : Model} (hgaps : model.SameGaps model')
    {d d' : Declaration} (hpath : d'.path = d.path) (hparams : d'.params = d.params)
    (hfields : List.Forall₂ (Field.Freed known usage) d.fields d'.fields) {accessor accessor' : Accessor}
    {namePrefix namePrefix' : String} {catalog catalog' filled filled' : Catalog} {a a' : StructAdapter}
    (h : d.structAdapter model accessor namePrefix catalog = (.ok a, filled))
    (h' : d'.structAdapter model' accessor' namePrefix' catalog' = (.ok a', filled')) : a.Alike known usage a' := by
  obtain ⟨codecs, hplan, hserves⟩ := planFields_of_structAdapter h
  obtain ⟨codecs', hplan', hserves'⟩ := planFields_of_structAdapter h'
  have hbs := (planFields_tidy hplan).1.sources
  have hbs' := (planFields_tidy hplan').1.sources
  rw [hparams] at hbs'
  have hplans : List.Forall₂ (fun f f' => Abreast (SameOthers known) (Codec.Freed (fun _ _ => True) usage)
      (PlanScope.plan ⟨model, namePrefix, d, f⟩) (PlanScope.plan ⟨model', namePrefix', d', f'⟩)) d.fields d'.fields :=
    hfields.imp fun f f' hf => PlanScope.abreast_freed husage hpath hparams
      (fun ty => (hgaps namePrefix d f ty).symm) hf
  have hstart : SameOthers known ⟨catalog, []⟩ ⟨catalog', []⟩ := rfl
  rcases planFields_abreast hplans hstart with ⟨plan, plan', _, _, hrun, hrun', hcodecs, hothers⟩ | ⟨e, _, _, hrun, -⟩
  case inr => cases hplan.symm.trans hrun
  cases hplan.symm.trans hrun
  cases hplan'.symm.trans hrun'
  have hzip := forall₂_zip hfields hcodecs hserves.planned hserves'.planned
  constructor
  case target => rw [hserves.target, hserves'.target, selfType, selfType, hpath, hparams]
  case others => exact hothers
  case needsRegistry =>
    rw [hserves.requirements, hserves'.requirements]
    exact needsRegistry_eq hcodecs hothers
  case read =>
    rintro rfl
    rw [hserves.read, hserves'.read]
    exact readProcedure_like hbs hbs' accessor accessor' hzip
  case write =>
    rintro rfl
    rw [hserves.write, hserves'.write]
    exact writeProcedure_like hbs hbs' accessor accessor' hzip

end Declaration

/-! ### Models -/

/-- Fields of the structure have lost their converters, which are attached under known paths and for the given use, or
the declarations are the same. -/
inductive Declaration.Freed (known : String → Bool) (usage : ConverterUse) (d : Declaration) : Declaration → Prop
  | same : Freed known usage d d
  | fields {d' : Declaration} {fields fields' : List Field} (hkind : d.kind = .structure fields)
    (hkind' : d'.kind = .structure fields') (hpath : d'.path = d.path) (hparams : d'.params = d.params)
    (h : List.Forall₂ (Field.Freed known usage) fields fields') : Freed known usage d d'

namespace Declaration.Freed

variable {d d' : Declaration} (h : d.Freed known usage d')

include h

private theorem path_eq : d'.path = d.path := by
  cases h with
  | same => rfl
  | fields _ _ hpath => exact hpath

private theorem isAbstract_eq : d'.isAbstract = d.isAbstract := by
  cases h with
  | same => rfl
  | fields hkind hkind' => rw [isAbstract, isAbstract, hkind, hkind']

end Declaration.Freed

structure Model.Freed (known : String → Bool) (usage : ConverterUse) (model model' : Model) : Prop where
  types : List.Forall₂ (Declaration.Freed known usage) model.types model'.types
  subtypeAdapters : model'.subtypeAdapters = model.subtypeAdapters

namespace Model.Freed

variable {model model' : Model} (h : model.Freed known usage model')

include h

private theorem sameGaps : model.SameGaps model' := by
  have habstract (path : String) : ((model.get? path).map Declaration.isAbstract) =
      (model'.get? path).map Declaration.isAbstract := by
    have htypes := h.types
    unfold get?
    generalize model.types = ds, model'.types = ds' at htypes ⊢
    induction htypes with
    | nil => rfl
    | @cons d d' ds ds' hd _ ih =>
      rw [List.find?_cons, List.find?_cons, hd.path_eq]
      cases d.path == path with
      | true => exact congrArg some hd.isAbstract_eq.symm
      | false => exact ih
  intro namePrefix d f ty
  unfold PlanScope.lacksAdapter
  cases ty.path? with
  | none => rfl
  | some path =>
    have hpath := habstract path
    simp only [hasSubtypeAdapter, h.subtypeAdapters]
    cases hd : model.get? path with
    | none =>
      rw [hd, Option.map_none, eq_comm, Option.map_eq_none_iff] at hpath
      simp only [hpath]
    | some d =>
      rw [hd, Option.map_some, eq_comm] at hpath
      obtain ⟨d', hd', heq⟩ := Option.map_eq_some_iff.1 hpath
      simp only [hd', heq]

end Model.Freed

namespace Model

variable {model model' : Model} {accessor accessor' : Accessor} {namePrefix namePrefix' : String}

private theorem adaptersFrom_alike (husage : usage ≠ .both) (hgaps : model.SameGaps model')
    {ds ds' : List Declaration} (h : List.Forall₂ (Declaration.Freed known usage) ds ds') :
    ∀ (catalog catalog' filled filled' : Catalog) (adapters adapters' : List Adapter),
      model.adaptersFrom accessor namePrefix catalog ds = .ok (adapters, filled) →
        model'.adaptersFrom accessor' namePrefix' catalog' ds' = .ok (adapters', filled') →
          List.Forall₂ (Adapter.Alike known usage) adapters adapters' := by
  induction h with
  | nil =>
    intro catalog catalog' filled filled' adapters adapters' hrun hrun'
    simp only [adaptersFrom, Except.ok.injEq, Prod.mk.injEq] at hrun hrun'
    rw [← hrun.1, ← hrun'.1]
    exact .nil
  | @cons d d' ds ds' hd _ ih =>
    intro catalog catalog' filled filled' adapters adapters' hrun hrun'
    have hstruct {fields fields' : List Field} (hk : d.kind = .structure fields) (hk' : d'.kind = .structure fields')
        (hpath : d'.path = d.path) (hparams : d'.params = d.params)
        (hfields : List.Forall₂ (Field.Freed known usage) fields fields') :
        List.Forall₂ (Adapter.Alike known usage) adapters adapters' := by
      rcases adaptersFrom_cons_ok hrun with ⟨ha, -⟩ | ⟨cs, x, _, hc, -⟩ | ⟨_, a, catalog₁, rest, -, ha, hrest, rfl⟩
      · simp [Declaration.isAbstract, hk] at ha
      · cases hk.symm.trans hc
      rcases adaptersFrom_cons_ok hrun' with ⟨ha', -⟩ | ⟨cs, x, _, hc, -⟩ | ⟨_, a', catalog₁', rest', -, ha',
        hrest', rfl⟩
      · simp [Declaration.isAbstract, hk'] at ha'
      · cases hk'.symm.trans hc
      have hfields : List.Forall₂ (Field.Freed known usage) d.fields d'.fields := by
        rwa [Declaration.fields, Declaration.fields, hk, hk']
      exact .cons (.struct (Declaration.structAdapter_alike husage hgaps hpath hparams hfields ha ha'))
        (ih _ _ _ _ _ _ hrest hrest')
    cases hd with
    | fields hk hk' hpath hparams hfields => exact hstruct hk hk' hpath hparams hfields
    | same =>
      cases hk : d.kind with
      | «structure» fields => exact hstruct hk hk rfl rfl (List.forall₂_same.2 fun f _ => .same)
      | abstract =>
        rw [adaptersFrom, hk] at hrun hrun'
        exact ih _ _ _ _ _ _ hrun hrun'
      | enumeration constants =>
        rcases adaptersFrom_cons_ok hrun with ⟨ha, -⟩ | ⟨_, a, rest, -, ha, hrest, rfl⟩ | ⟨fields, x, _, _, hc, -⟩
        · simp [Declaration.isAbstract, hk] at ha
        · rcases adaptersFrom_cons_ok hrun' with ⟨ha', -⟩ | ⟨_, a', rest', -, ha', hrest', rfl⟩ | ⟨fields, x,
            _, _, hc, -⟩
          · simp [Declaration.isAbstract, hk] at ha'
          · obtain rfl := Except.ok.inj (ha.symm.trans ha')
            exact .cons (.enum a) (ih _ _ _ _ _ _ hrest hrest')
          · cases hk.symm.trans hc
        · cases hk.symm.trans hc

/-- The adapters of two models that differ by converters attached to fields. -/
theorem generateWith_alike (husage : usage ≠ .both) (h : model.Freed known usage model')
    {options options' : GeneratorOptions} {m m' : AdapterModule} (hm : model.generateWith accessor options = .ok m)
    (hm' : model'.generateWith accessor' options' = .ok m') :
    List.Forall₂ (Adapter.Alike known usage) m.adapters m'.adapters := by
  unfold generateWith at hm hm'
  cases hr : model.adaptersFrom accessor options.bindingPrefix .empty model.types with
  | error e => simp [hr, Bind.bind, Except.bind] at hm
  | ok p =>
    cases hr' : model'.adaptersFrom accessor' options'.bindingPrefix .empty model'.types with
    | error e => simp [hr', Bind.bind, Except.bind] at hm'
    | ok p' =>
      simp only [hr, hr', Bind.bind, Except.bind, Except.ok.injEq] at hm hm'
      subst hm hm'
      exact adaptersFrom_alike husage h.sameGaps h.types _ _ _ _ _ _ hr hr'

end Model

/-! ### Recipes -/

/-- The same recipe, or those of two adapters that are alike for the same arguments. -/
inductive Recipe.Alike (known : String → Bool) (usage : ConverterUse) : Recipe → Recipe → Prop
  | same (p : Recipe) : Alike known usage p p
  | struct (slot : Nat) {a a' : StructAdapter} (target : TypeRef) (args : List TypeRef) (h : a.Alike known usage a') :
    Alike known usage (.struct slot a target args) (.struct slot a' target args)

theorem Recipe.Alike.symm {p p' : Recipe} (h : p.Alike known usage p') : p'.Alike known usage p := by
  cases h with
  | same => exact .same p
  | struct slot target args h => exact .struct slot target args h.symm

/-- The targets of the adapters decide where a module sends a path. -/
private theorem DispatchEntry.table_eq {adapters adapters' : List Adapter}
    (h : adapters.map Adapter.target = adapters'.map Adapter.target) : table adapters = table adapters' := by
  have htargets (adapters : List Adapter) : table adapters = (adapters.map Adapter.target).zipIdx.filterMap fun p =>
      p.1.path?.map fun path => ⟨path, p.1.args.length, p.2⟩ := by
    rw [List.zipIdx_map, List.filterMap_map]
    rfl
  rw [htargets, htargets, h]

namespace AdapterModule

/-- The modules have recipes for the same types, and they are alike. -/
theorem moduleRecipe?_alike {m m' : AdapterModule} (hm : m.dispatch = DispatchEntry.table m.adapters)
    (hm' : m'.dispatch = DispatchEntry.table m'.adapters)
    (h : List.Forall₂ (Adapter.Alike known usage) m.adapters m'.adapters) (slot : Nat) (ty : TypeRef) :
    Option.Rel (Recipe.Alike known usage) (Source.moduleRecipe? slot m ty) (Source.moduleRecipe? slot m' ty) := by
  have htargets : m.adapters.map Adapter.target = m'.adapters.map Adapter.target := by
    have hall : List.Forall₂ (fun a a' => Adapter.target a = Adapter.target a') m.adapters m'.adapters :=
      h.imp fun _ _ ha => ha.target
    exact List.forall₂_eq_eq_eq ▸ List.forall₂_map_left_iff.2 (List.forall₂_map_right_iff.2 hall)
  have hdispatch : Source.dispatch? m ty = Source.dispatch? m' ty := by
    rw [Source.dispatch?, Source.dispatch?, hm, hm', DispatchEntry.table_eq htargets]
  unfold Source.moduleRecipe?
  rw [hdispatch]
  cases Source.dispatch? m' ty with
  | none => exact .none
  | some found =>
    obtain ⟨entry, hit⟩ := found
    dsimp only
    rcases forall₂_getElem? h hit.adapter with ⟨ha, ha'⟩ | ⟨a, a', ha, ha', halike⟩
    · rw [ha, ha']
      exact .none
    · rw [ha, ha']
      cases halike with
      | struct halike => exact .some (.struct slot _ _ halike)
      | enum a => exact .some (.same _)

end AdapterModule

end Marshal
