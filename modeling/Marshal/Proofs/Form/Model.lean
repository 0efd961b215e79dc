import Marshal.Form.Model
import Marshal.Proofs.Form.Records
import Marshal.Proofs.Model.Flags
import Marshal.Proofs.Model.Scan

/-!
# Storing a model

A loaded model, stored and loaded again, is the same if each variable in it is a single identifier, and refused
otherwise (`reload_iff`).  A variable that is no identifier comes from a parameter whose name is a path of several
identifiers: the bare path reads as a named type, but the variable that it becomes does not read back.
-/

namespace Marshal

open Form

/-! ### Fields -/

private theorem ConverterUse.asLabel_label (u : ConverterUse) :
    asLabel ofLabel? (.text u.label) = .ok u := by cases u <;> rfl

private theorem FieldConverter.ofForm_toForm (c : FieldConverter) : ofForm c.toForm = .ok c := by
  have husage : ConverterUse.ofLabel? c.usage.label = some c.usage := asLabel_text.1 c.usage.asLabel_label
  simp [toForm, ofForm, List.lookup_cons, husage]

namespace Field

private theorem asFlags_text (flags : FieldFlags) : asFlags (.text flags.text) = .ok flags := by
  simp [asFlags, FieldFlags.ofText?_text, needed]

private theorem ofForm_toForm (owner : String) {f : Field} (h : f.ty.WellFormed) :
    ofForm (f.toForm owner) = .ok f := by
  obtain ⟨name, rename, ty, flags, converter⟩ := f
  have hconverter (c : FieldConverter) : asOption FieldConverter.ofForm c.toForm = .ok (some c) :=
    Outcome.map_eq_ok.2 ⟨c, c.ofForm_toForm, rfl⟩
  cases rename <;> cases converter <;>
    simp [toForm, ofForm, entryIfSome, List.lookup_cons, asType_ofType h, asFlags_text, hconverter]

/-- The type of a decoded field is what its entry `ty` decodes to. -/
private theorem ty_of_ofForm {g : Form} {f : Field} (h : ofForm g = .ok f) : ∃ find t, find "ty" = some t ∧
    asType t = .ok f.ty ∧ ∀ entries, g = .record entries → find = fun name => entries.lookup name := by
  obtain ⟨find, h, hfind⟩ := asRecord_ok h
  simp only [RecordDecoder.seq_eq_ok, RecordDecoder.map_eq_ok, RecordDecoder.needs_eq_ok] at h
  obtain ⟨_, ⟨_, ⟨_, ⟨_, ⟨_, ⟨_, -, rfl⟩, _, -, rfl⟩, _, -, rfl⟩, _, ⟨t, ht, hty⟩, rfl⟩, _, -, rfl⟩, _, -, rfl⟩ := h
  exact ⟨find, t, ht, hty, hfind⟩

private theorem wellFormed_of_ofForm {g : Form} {f : Field} (h : ofForm g = .ok f) : f.ty.WellFormed := by
  obtain ⟨_, _, -, hty, -⟩ := ty_of_ofForm h
  exact asType_ok hty

/-- A stored field whose variables are paths is refused unless they are single identifiers. -/
private theorem wellFormed_of_reload {owner : String} {f f' : Field} (hf : f.ty.Named TypeRef.IsPath)
    (h : ofForm (f.toForm owner) = .ok f') : f.ty.WellFormed := by
  obtain ⟨find, t, ht, hty, hfind⟩ := ty_of_ofForm h
  rw [hfind _ rfl] at ht
  have hentry : t = ofType f.ty := by
    obtain ⟨name, rename, ty, flags, converter⟩ := f
    cases rename <;> simp [entryIfSome, List.lookup_cons] at ht <;> exact ht.symm
  exact wellFormed_of_ofType hf (hentry ▸ hty)

end Field

private theorem Constant.ofForm_toForm (c : Constant) : ofForm c.toForm = .ok c := by
  obtain ⟨name, rename⟩ := c
  cases rename <;> simp [toForm, ofForm, entryIfSome, List.lookup_cons]

/-! ### Declarations -/

namespace Declaration

private theorem wellFormed_of_kindOfForm {g : Form} {fields : List Field}
    (h : kindOfForm g = .ok (.structure fields)) : ∀ f ∈ fields, f.ty.WellFormed := by
  obtain ⟨⟨tag, body⟩, -, h⟩ := Outcome.bind_eq_ok.1 h
  split at h
  · obtain ⟨fields', hfields, he⟩ := Outcome.map_eq_ok.1 h
    obtain rfl := DeclarationKind.structure.inj he
    intro f hf
    obtain ⟨g, hg⟩ := asList_ok hfields f hf
    exact Field.wellFormed_of_ofForm hg
  · obtain ⟨_, -, he⟩ := Outcome.map_eq_ok.1 h
    cases he
  · split at h <;> cases h
  · cases h

private theorem kindOfForm_kindForm (path : String) {kind : DeclarationKind}
    (h : ∀ fields, kind = .structure fields → ∀ f ∈ fields, f.ty.WellFormed) :
    kindOfForm (kindForm path kind) = .ok kind := by
  cases kind with
  | «structure» fields =>
    have hfields : asList Field.ofForm (.list (fields.map (Field.toForm path))) = .ok fields :=
      asList_map fun f hf => Field.ofForm_toForm path (h fields rfl f hf)
    simp [kindForm, kindOfForm, hfields, bind, Except.bind, Except.map]
  | enumeration constants =>
    have hconstants : asList Constant.ofForm (.list (constants.map Constant.toForm)) = .ok constants :=
      asList_map fun c _ => c.ofForm_toForm
    simp [kindForm, kindOfForm, hconstants, bind, Except.bind, Except.map]
  | «abstract» => rfl

private theorem kind_of_mem_fields {d : Declaration} {f : Field} (h : f ∈ d.fields) :
    d.kind = .structure d.fields := by
  obtain ⟨path, params, kind, hparams⟩ := d
  cases kind with
  | «structure» fields => rfl
  | enumeration constants => cases h
  | «abstract» => cases h

/-- What there is to a declaration that was loaded: its parameters are variables, and a variable has the name of a
path. -/
structure Loaded (d : Declaration) : Prop where
  bound : bindKind d.params d.kind = d.kind
  named : ∀ f ∈ d.fields, f.ty.Named TypeRef.IsPath

private theorem loaded_of_ofForm {g : Form} {d : Declaration} (h : ofForm g = .ok d) : d.Loaded := by
  obtain ⟨parts, hparts, h⟩ := Outcome.bind_eq_ok.1 h
  obtain ⟨find, hparts, -⟩ := asRecord_ok hparts
  simp only [RecordDecoder.seq_eq_ok, RecordDecoder.map_eq_ok, RecordDecoder.needs_eq_ok] at hparts
  obtain ⟨_, ⟨_, ⟨path, -, rfl⟩, params, -, rfl⟩, kind, ⟨k, -, hkind⟩, rfl⟩ := hparts
  obtain ⟨-, rfl, hd⟩ := ofParts_ok (Outcome.mapError_eq_ok.1 h)
  refine ⟨by rw [hd, bindKind_idem], fun f hf => ?_⟩
  have hfields := kind_of_mem_fields hf
  rw [hd] at hfields
  cases kind with
  | «structure» fields =>
    rw [← DeclarationKind.structure.inj hfields] at hf
    obtain ⟨f₀, hf₀, rfl⟩ := List.mem_map.1 hf
    exact TypeRef.named_bindParams d.params f₀.ty (wellFormed_of_kindOfForm hkind f₀ hf₀)
  | enumeration constants => cases hfields
  | «abstract» => cases hfields

private theorem ofForm_toForm {d : Declaration} (hd : d.Loaded) (h : ∀ f ∈ d.fields, f.ty.WellFormed) :
    ofForm d.toForm = .ok d := by
  have hkind : kindOfForm (kindForm d.path d.kind) = .ok d.kind := kindOfForm_kindForm d.path fun fields hk f hf =>
    h f (by simpa only [Declaration.fields, hk] using hf)
  have hparams : asList asText (.list (d.params.map .text)) = .ok d.params := asList_map fun s _ => asText_text s
  refine Outcome.bind_eq_ok.2 ⟨ofParts d.path d.params d.kind, ?_, by rw [ofParts_self hd.bound]; rfl⟩
  by_cases hempty : d.params = []
  · simp [toForm, List.lookup_cons, hempty, hkind]
  · simp [toForm, List.lookup_cons, hempty, hkind, hparams]

/-- A stored declaration is refused unless the variables in it are single identifiers. -/
private theorem wellFormed_of_reload {d d' : Declaration} (hd : d.Loaded) (h : ofForm d.toForm = .ok d') :
    ∀ f ∈ d.fields, f.ty.WellFormed := by
  intro f hf
  obtain ⟨parts, hparts, -⟩ := Outcome.bind_eq_ok.1 h
  obtain ⟨find, hparts, hfind⟩ := asRecord_ok hparts
  simp only [RecordDecoder.seq_eq_ok, RecordDecoder.map_eq_ok, RecordDecoder.needs_eq_ok] at hparts
  obtain ⟨_, -, kind, ⟨k, hk, hkind⟩, -⟩ := hparts
  rw [hfind _ rfl] at hk
  have hentry : k = kindForm d.path d.kind := by
    cases hempty : d.params.isEmpty <;> simp [List.lookup_cons, hempty] at hk <;> exact hk.symm
  rw [hentry, kind_of_mem_fields hf] at hkind
  obtain ⟨fields, hfields, -⟩ := Outcome.map_eq_ok.1 hkind
  obtain ⟨f', hf'⟩ := (mapM_ok hfields).2 (f.toForm d.path) (List.mem_map_of_mem hf)
  exact Field.wellFormed_of_reload (hd.named f hf) hf'

end Declaration

/-! ### Models -/

namespace Model

/-- What there is to a model that was loaded. -/
structure Loaded (m : Model) : Prop where
  declarations : ∀ d ∈ m.types, d.Loaded
  ascending : Ascending m.subtypeAdapters

private theorem loaded_of_ofForm {f : Form} {m : Model} (h : ofForm f = .ok m) : m.Loaded := by
  obtain ⟨scan, hscan, h⟩ := Outcome.bind_eq_ok.1 h
  obtain ⟨find, hscan, -⟩ := asRecord_ok hscan
  simp only [RecordDecoder.seq_eq_ok, RecordDecoder.map_eq_ok, RecordDecoder.needs_eq_ok] at hscan
  obtain ⟨_, ⟨types, ⟨g, -, hg⟩, rfl⟩, marks, -, rfl⟩ := hscan
  obtain ⟨rfl, hmarks⟩ := ofScan_ok (Outcome.mapError_eq_ok.1 h)
  exact ⟨fun d hd => (asList_ok hg d hd).elim fun _ => Declaration.loaded_of_ofForm, hmarks⟩

private theorem reload_of_loaded {m : Model} (hm : m.Loaded) (h : ∀ d ∈ m.types, ∀ f ∈ d.fields, f.ty.WellFormed) :
    m.reload = .ok m := by
  have htypes : asList Declaration.ofForm (.list (m.types.map Declaration.toForm)) = .ok m.types :=
    asList_map fun d hd => Declaration.ofForm_toForm (hm.declarations d hd) (h d hd)
  have hmarks : asList asText (.list (m.subtypeAdapters.map .text)) = .ok m.subtypeAdapters :=
    asList_map fun s _ => asText_text s
  refine Outcome.bind_eq_ok.2 ⟨ofScan m.types m.subtypeAdapters, ?_, by rw [ofScan_self hm.ascending]; rfl⟩
  by_cases hempty : m.subtypeAdapters = []
  · simp [toForm, List.lookup_cons, hempty, htypes]
  · simp [toForm, List.lookup_cons, hempty, htypes, hmarks]

private theorem wellFormed_of_reload {m m' : Model} (hm : m.Loaded) (h : m.reload = .ok m') :
    ∀ d ∈ m.types, ∀ f ∈ d.fields, f.ty.WellFormed := by
  intro d hd
  obtain ⟨scan, hscan, -⟩ := Outcome.bind_eq_ok.1 h
  obtain ⟨find, hscan, hfind⟩ := asRecord_ok hscan
  simp only [RecordDecoder.seq_eq_ok, RecordDecoder.map_eq_ok, RecordDecoder.needs_eq_ok] at hscan
  obtain ⟨_, ⟨types, ⟨g, hg, htypes⟩, -⟩, -⟩ := hscan
  rw [hfind _ rfl] at hg
  obtain rfl : g = .list (m.types.map Declaration.toForm) := by simpa [List.lookup_cons] using hg.symm
  obtain ⟨d', hd'⟩ := (mapM_ok htypes).2 d.toForm (List.mem_map_of_mem hd)
  exact Declaration.wellFormed_of_reload (hm.declarations d hd) hd'

/-- A loaded model, stored and loaded again, is the same model exactly if every variable in the types of its fields is
a single identifier; otherwise it is refused, so storing never changes a model. -/
theorem reload_iff {f : Form} {m : Model} (h : ofForm f = .ok m) :
    (m.reload = .ok m ↔ ∀ d ∈ m.types, ∀ field ∈ d.fields, ∀ x ∈ field.ty.vars, TypeRef.IsIdent x.toList) ∧
      ∀ m', m.reload = .ok m' → m' = m := by
  have hm := loaded_of_ofForm h
  refine ⟨⟨fun hr d hd field hfield => (wellFormed_of_reload hm hr d hd field hfield).vars, fun hvars => ?_⟩,
    fun m' hr => ?_⟩
  · exact reload_of_loaded hm fun d hd field hfield =>
      ⟨((hm.declarations d hd).named field hfield).paths, hvars d hd field hfield⟩
  · rw [reload_of_loaded hm (wellFormed_of_reload hm hr)] at hr
    exact (Except.ok.inj hr).symm

/-- A scan of one structure, with one field of the type named `ty`. -/
def scanForm (path : String) (params : List String) (ty : String) : Form :=
  .record [("types", .list [.record [("path", .text path), ("params", .list (params.map .text)),
    ("kind", variant "Struct" (.list [.record [("name", .text "value"), ("ty", .text ty),
      ("flags", .text "NON_NULL | 0x10"), ("converter", .record [("path", .text "demo::millis")])]]))]]),
    ("subtype_adapters", .list [.text "demo::B", .text "demo::A", .text "demo::B"])]

/-- A generic box, as it is loaded. -/
def boxModel : Model := (ofForm (scanForm "demo::Box" ["T"] "Map<T, [demo::Box<T>]>")).toOption.getD default

theorem reload_iff_box : ofForm (scanForm "demo::Box" ["T"] "Map<T, [demo::Box<T>]>") = .ok boxModel ∧
    boxModel.reload = .ok boxModel := by
  have hload : ofForm (scanForm "demo::Box" ["T"] "Map<T, [demo::Box<T>]>") = .ok boxModel :=
    Outcome.toOption_eq_some.1 (by decide +kernel)
  exact ⟨hload, (reload_iff hload).1.2 (by decide +kernel)⟩

/-- A structure whose parameter is named like a path, as it is loaded. -/
def pathModel : Model := (ofForm (scanForm "demo::Box" ["a::b"] "a::b")).toOption.getD default

/-- A parameter named like a path becomes a variable that does not read back. -/
theorem not_forall_reload : ¬ ∀ (f : Form) (m : Model), ofForm f = .ok m → m.reload = .ok m := by
  intro h
  have hload : ofForm (scanForm "demo::Box" ["a::b"] "a::b") = .ok pathModel :=
    Outcome.toOption_eq_some.1 (by decide +kernel)
  have hreload : pathModel.reload.toOption = none := by decide +kernel
  rw [h _ _ hload] at hreload
  cases hreload

end Model

end Marshal
