import Marshal.Proofs.Adapter.Attached
import Marshal.Proofs.Registry.History
import Marshal.Proofs.Registry.Planned

/-!
# Attached converters act in their direction

A converter may be attached to a field for reading only or for writing only.  In the other direction nothing changes:
whatever the registries have resolved before, all types read, or are written, as they are where the converter is not
attached (`attached_directions`).  In its own direction the converter is called exactly where its attachment says so.
-/

namespace Marshal

open Effect

/-! ### The model without the attachment -/

/-- The second model is the first one, where the field `f` of the structure `d` has lost its converter. -/
structure Model.Unattached (model : Model) (d : Declaration) (f : Field) (model' : Model) : Prop where
  types : ∃ ds ds' fs fs', d.kind = .structure (fs ++ f :: fs') ∧ model.types = ds ++ d :: ds' ∧
    model'.types = ds ++ { d with kind := .structure (fs ++ { f with converter := none } :: fs') } :: ds'
  subtypeAdapters : model'.subtypeAdapters = model.subtypeAdapters

namespace Model.Unattached

variable {model model' : Model} {d : Declaration} {f : Field} (h : model.Unattached d f model')

include h

private theorem mem_types : d ∈ model.types := by
  obtain ⟨ds, ds', fs, fs', -, htypes, -⟩ := h.types
  rw [htypes]
  exact List.mem_append_right _ (List.mem_cons_self ..)

private theorem exists_fields : ∃ fields, d.kind = .structure fields ∧ f ∈ fields := by
  obtain ⟨ds, ds', fs, fs', hkind, -⟩ := h.types
  exact ⟨_, hkind, List.mem_append_right _ (List.mem_cons_self ..)⟩

private theorem freed {known : String → Bool} {x : FieldConverter} (hx : f.converter = some x)
    (hknown : known x.path = true) : model.Freed known x.usage model' := by
  obtain ⟨ds, ds', fs, fs', hkind, htypes, htypes'⟩ := h.types
  refine ⟨?_, h.subtypeAdapters⟩
  have hfields :
      List.Forall₂ (Field.Freed known x.usage) (fs ++ f :: fs') (fs ++ { f with converter := none } :: fs') :=
    List.rel_append (List.forall₂_same.2 fun f _ => .same)
      (.cons (.freed hx rfl hknown) (List.forall₂_same.2 fun f _ => .same))
  rw [htypes, htypes']
  exact List.rel_append (List.forall₂_same.2 fun d _ => .same)
    (.cons (.fields hkind rfl rfl rfl hfields) (List.forall₂_same.2 fun d _ => .same))

end Model.Unattached

namespace Registry

variable {att : List (String × Converter)} {m m' : AdapterModule} {before after : List AdapterModule}

/-! ### The direction that is left alone -/

/-- One module of a registry is replaced by the one without the attachment. -/
private theorem AlikeRecipes.of_generates {model model' : Model} (hgen : model.Generates m)
    (hgen' : model'.Generates m') {usage : ConverterUse} (husage : usage ≠ .both)
    (h : model.Freed (attaches att) usage model') :
    AlikeRecipes usage att (before ++ m :: after) (before ++ m' :: after) := by
  intro ty
  obtain ⟨accessor, options, hm⟩ := hgen
  obtain ⟨accessor', options', hm'⟩ := hgen'
  have hmodule : Option.Rel (Recipe.Alike (attaches att) usage) (Source.moduleRecipe? before.length m ty)
      (Source.moduleRecipe? before.length m' ty) :=
    AdapterModule.moduleRecipe?_alike (Model.generateWith_ok hm).1 (Model.generateWith_ok hm').1
      (Model.generateWith_alike husage h hm hm') before.length ty
  have hsame (p? : Option Recipe) : Option.Rel (Recipe.Alike (attaches att) usage) p? p? := by
    cases p? with
    | none => exact .none
    | some p => exact .some (.same p)
  unfold recipe?
  rw [List.zipIdx_append, List.zipIdx_append, List.findSome?_append, List.findSome?_append, List.zipIdx_cons,
    List.zipIdx_cons, List.findSome?_cons, List.findSome?_cons]
  cases before.zipIdx.findSome? fun p => Source.moduleRecipe? p.2 p.1 ty with
  | some p => exact .some (.same p)
  | none =>
    simp only [Nat.zero_add, Option.none_or]
    generalize Source.moduleRecipe? before.length m ty = p?, Source.moduleRecipe? before.length m' ty =
      p'? at hmodule ⊢
    cases hmodule with
    | none => exact hsame _
    | some halike => exact .some halike

/-! ### The direction that is taken over -/

/-- The converter of a structure has at the position of the attachment the converter that is attached under its
path. -/
private theorem attached_of_resolve {model : Model} (hgen : model.Generates m) {d : Declaration}
    (hd : d ∈ model.types) {fields : List Field} (hkind : d.kind = .structure fields) {f : Field} (hf : f ∈ fields)
    {x : FieldConverter} (hx : f.converter = some x) {args : List TypeRef}
    (hargs : args = [] ∨ args.length = d.params.length)
    (hbefore : ∀ m' ∈ before, Source.dispatch? m' (.named d.path args) = none) {s s₁ : Store}
    (hs : Healthy (before ++ m :: after) att s) {fuel : Nat} {c : Converter}
    (hc : (ofModules (before ++ m :: after) att).resolve fuel (.named d.path args) s = .ok c s₁) :
    ∃ id a target cs i y, c = .struct id a target cs a.requirements.needsRegistry ∧ a.target = d.selfType ∧
      (ofModules (before ++ m :: after) att).attached? x.path = some y ∧ cs[i]? = some y ∧ a.HandsOver f x i := by
  obtain ⟨p, id, cs, hp, rfl, hparts⟩ := hs.assembled hc
  obtain ⟨accessor, codecs, a, args', ha, rfl, -⟩ := struct_of_recipe? hgen hd hkind hargs hbefore hp
  obtain rfl : d.fields = fields := by rw [Declaration.fields, hkind]
  obtain ⟨k, hfk⟩ := ha.exists_codec hf
  obtain ⟨i, ⟨b, hb, hsource⟩, hover⟩ := ha.handsOver hfk hx
  have hparts :
      List.Forall₂ (fun b c => DenotesPart (before ++ m :: after) att s₁.delegates (b.part args') c) a.bindings cs :=
    List.forall₂_map_left_iff.1 hparts
  obtain ⟨hi, rfl⟩ := List.getElem?_eq_some_iff.1 hb
  have hi' : i < cs.length := hparts.length_eq ▸ hi
  have hpart : DenotesPart (before ++ m :: after) att s₁.delegates (a.bindings[i].part args') cs[i] :=
    hparts.get hi hi'
  rw [Binding.part, hsource] at hpart
  have hy : (ofModules (before ++ m :: after) att).attached? x.path = some cs[i] := hpart
  exact ⟨id, a, _, cs, i, cs[i], rfl, ha.target, hy, List.getElem?_eq_getElem hi', hover⟩

/-- A field has a converter that is attached under a known path.  Compared with the same structure without it, and
whatever either registry has resolved before: if the converter is for writing, all types read the same from every
text, and if it is for reading, all types write the same for every value.  The structure itself hands the field over
to the converter as the attachment says, in the directions that it takes over. -/
theorem attached_directions {model model' : Model} (hgen : model.Generates m) (hgen' : model'.Generates m')
    {d : Declaration} {f : Field} {x : FieldConverter} (hwithout : model.Unattached d f model')
    (hx : f.converter = some x) (hknown : attaches att x.path = true) (hatt : ∀ p ∈ att, p.2.Detached)
    {s s' s₁ s₁' : Store} {held held' : List Converter} (hrun : Run (ofModules (before ++ m :: after) att) s held)
    (hrun' : Run (ofModules (before ++ m' :: after) att) s' held') {ty : TypeRef} {fuel fuel' : Nat}
    {c c' : Converter} (hc : (ofModules (before ++ m :: after) att).resolve fuel ty s = .ok c s₁)
    (hc' : (ofModules (before ++ m' :: after) att).resolve fuel' ty s' = .ok c' s₁') :
    (x.usage = .write → ∀ text,
      SameAnswers (fun k => c.fromJson s₁.delegates k text) fun k => c'.fromJson s₁'.delegates k text) ∧
    (x.usage = .read → ∀ v, SameAnswers (fun k => c.text (ofModules (before ++ m :: after) att) k v s₁) fun k =>
      c'.text (ofModules (before ++ m' :: after) att) k v s₁') ∧
    ∀ args, args = [] ∨ args.length = d.params.length → ty = .named d.path args →
      (∀ m' ∈ before, Source.dispatch? m' ty = none) →
      ∃ id a target cs i y, c = .struct id a target cs a.requirements.needsRegistry ∧ a.target = d.selfType ∧
        (ofModules (before ++ m :: after) att).attached? x.path = some y ∧ cs[i]? = some y ∧ a.HandsOver f x i := by
  obtain ⟨hs, halive⟩ := frame_healthy.of_run ⟨.empty, rfl⟩ hrun
  obtain ⟨hs', halive'⟩ := frame_healthy.of_run ⟨.empty, rfl⟩ hrun'
  have hfreed : model.Freed (attaches att) x.usage model' := hwithout.freed hx hknown
  have hmatched : Matched (before ++ m :: after) (before ++ m' :: after) att s₁.delegates s₁'.delegates c c' :=
    .typed (hs.denotes hc) (hs'.denotes hc')
  refine ⟨fun husage text => ?_, fun husage v => ?_, fun args hargs hty hbefore => ?_⟩
  · rw [husage] at hfreed
    have halike : AlikeRecipes .write att (before ++ m :: after) (before ++ m' :: after) :=
      .of_generates hgen hgen' nofun hfreed
    exact ⟨.of_follows_read (fun n => hmatched.follows_read hatt halike n c c') text,
      .of_follows_read (fun n => hmatched.symm.follows_read hatt halike.symm n c' c) text⟩
  · rw [husage] at hfreed
    have halike : AlikeRecipes .read att (before ++ m :: after) (before ++ m' :: after) :=
      .of_generates hgen hgen' nofun hfreed
    have hstores :
        MatchedStores (before ++ m :: after) (before ++ m' :: after) att s₁.delegates s₁'.delegates s₁ s₁' :=
      { healthy := hs.resolve hc
        healthy' := hs'.resolve hc'
        alive := by rw [(later_of_resolve hc).alive, halive, (later_of_resolve hc').alive, halive']
        extended := fun _ _ => id
        extended' := fun _ _ => id }
    exact ⟨.of_follows_write (fun n => hmatched.follows_write hatt halike n _ _ c c' v) hstores,
      .of_follows_write (fun n => hmatched.symm.follows_write hatt halike.symm n _ _ c' c v) hstores.symm⟩
  · subst hty
    obtain ⟨fields, hkind, hf⟩ := hwithout.exists_fields
    exact attached_of_resolve hgen hwithout.mem_types hkind hf hx hargs hbefore hs hc

/-- An event with a start, which may have a converter for writing, and an end, which may have one for reading. -/
def eventModel (start finish : Option FieldConverter) : Model where
  types := [.plain "demo::Event" (.structure [⟨"start", none, .named "i64" [], .none, start⟩,
    ⟨"finish", none, .named "i64" [], .none, finish⟩])]
  subtypeAdapters := []
  paths_nodup := List.nodup_singleton _

def eventModule (start finish : Option FieldConverter) : AdapterModule :=
  ((eventModel start finish).generate .standard).toOption.getD default

def clockWriter : FieldConverter := ⟨"demo::clock", true, .write⟩

def clockReader : FieldConverter := ⟨"demo::clock", false, .read⟩

def eventAttached : List (String × Converter) := [("demo::clock", .native 0 .string)]

/-- Without the converter of the start events read the same, and without the one of the end they are written the
same. -/
theorem attached_directions_event : ∃ c s c₁ s₁ c₂ s₂,
    (ofModules [eventModule (some clockWriter) (some clockReader)] eventAttached).resolve 2
      (.named "demo::Event" []) .empty = .ok c s ∧
    (ofModules [eventModule none (some clockReader)] eventAttached).resolve 2 (.named "demo::Event" []) .empty =
      .ok c₁ s₁ ∧
    (ofModules [eventModule (some clockWriter) none] eventAttached).resolve 2 (.named "demo::Event" []) .empty =
      .ok c₂ s₂ ∧
    (∀ text, SameAnswers (fun k => c.fromJson s.delegates k text) fun k => c₁.fromJson s₁.delegates k text) ∧
    (∀ v, SameAnswers
      (fun k => c.text (ofModules [eventModule (some clockWriter) (some clockReader)] eventAttached) k v s) fun k =>
      c₂.text (ofModules [eventModule (some clockWriter) none] eventAttached) k v s₂) ∧
    ∃ id a target cs i y, c = .struct id a target cs a.requirements.needsRegistry ∧ cs[i]? = some y ∧
      a.HandsOver ⟨"start", none, .named "i64" [], .none, some clockWriter⟩ clockWriter i := by
  have hgenerate : (eventModel (some clockWriter) (some clockReader)).generate .standard =
      .ok (eventModule (some clockWriter) (some clockReader)) := by rfl
  have hgenerate₁ :
      (eventModel none (some clockReader)).generate .standard = .ok (eventModule none (some clockReader)) := by rfl
  have hgenerate₂ :
      (eventModel (some clockWriter) none).generate .standard = .ok (eventModule (some clockWriter) none) := by rfl
  have hwithout₁ : (eventModel (some clockWriter) (some clockReader)).Unattached
      (.plain "demo::Event" (.structure [⟨"start", none, .named "i64" [], .none, some clockWriter⟩,
        ⟨"finish", none, .named "i64" [], .none, some clockReader⟩]))
      ⟨"start", none, .named "i64" [], .none, some clockWriter⟩ (eventModel none (some clockReader)) :=
    ⟨⟨[], [], [], [_], rfl, rfl, rfl⟩, rfl⟩
  have hwithout₂ : (eventModel (some clockWriter) (some clockReader)).Unattached
      (.plain "demo::Event" (.structure [⟨"start", none, .named "i64" [], .none, some clockWriter⟩,
        ⟨"finish", none, .named "i64" [], .none, some clockReader⟩]))
      ⟨"finish", none, .named "i64" [], .none, some clockReader⟩ (eventModel (some clockWriter) none) :=
    ⟨⟨[], [], [_], [], rfl, rfl, rfl⟩, rfl⟩
  have hatt : ∀ p ∈ eventAttached, p.2.Detached := by
    intro p hp id ty hreach
    obtain rfl := List.mem_singleton.1 hp
    cases hreach with
    | binding hb _ => cases hb
  obtain ⟨c, s, hc⟩ :
      ∃ c s, (ofModules ([] ++ eventModule (some clockWriter) (some clockReader) :: []) eventAttached).resolve 2
        (.named "demo::Event" []) .empty = .ok c s := ⟨_, _, rfl⟩
  obtain ⟨c₁, s₁, hc₁⟩ : ∃ c s, (ofModules ([] ++ eventModule none (some clockReader) :: []) eventAttached).resolve 2
      (.named "demo::Event" []) .empty = .ok c s := ⟨_, _, rfl⟩
  obtain ⟨c₂, s₂, hc₂⟩ : ∃ c s, (ofModules ([] ++ eventModule (some clockWriter) none :: []) eventAttached).resolve 2
      (.named "demo::Event" []) .empty = .ok c s := ⟨_, _, rfl⟩
  obtain ⟨hread, -, htaken⟩ :=
    attached_directions (.of_generate hgenerate) (.of_generate hgenerate₁) hwithout₁ rfl (by decide)
      hatt .start .start hc hc₁
  obtain ⟨-, hwrite, -⟩ :=
    attached_directions (.of_generate hgenerate) (.of_generate hgenerate₂) hwithout₂ rfl (by decide)
      hatt .start .start hc hc₂
  obtain ⟨id, a, target, cs, i, y, heq, -, -, hy, hover⟩ := htaken [] (.inl rfl) rfl (List.forall_mem_nil _)
  exact ⟨c, s, c₁, s₁, c₂, s₂, hc, hc₁, hc₂, hread rfl, hwrite rfl, id, a, target, cs, i, y, heq, hy, hover⟩

end Registry

end Marshal
