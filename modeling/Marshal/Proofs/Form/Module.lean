import Marshal.Form.Module
import Marshal.Proofs.Form.Records

/-!
# Storing a module

A module whose references are all well formed is loaded as it was stored (`reload_of_wellFormed`).  There is one
statement for each encoder; those about tokens and codecs are by recursion on the tree.
-/

namespace Marshal

open Form

/-! ### The references in a module -/

namespace TypeToken

mutual

/-- The references that stand in a token. -/
def types : TypeToken → List TypeRef
  | .class ty => [ty]
  | .param _ => []
  | .array element => element.types
  | .parameterized _ args => typesOf args

def typesOf : List TypeToken → List TypeRef
  | [] => []
  | t :: ts => t.types ++ typesOf ts

end

end TypeToken

def BindingSource.types : BindingSource → List TypeRef
  | discover token => token.types
  | _ => []

def Binding.types (b : Binding) : List TypeRef := b.ty :: b.source.types

def Adapter.types : Adapter → List TypeRef
  | .struct a => a.target :: a.bindings.flatMap Binding.types
  | .enum a => [a.target]

/-- The references that stand in a module. -/
def AdapterModule.types (m : AdapterModule) : List TypeRef := m.adapters.flatMap Adapter.types ++ m.required

/-! ### Labels -/

private theorem NativeKind.asLabel_label (k : NativeKind) :
    asLabel ofLabel? (.text k.label) = .ok k := by cases k <;> rfl

private theorem TokenKind.asLabel_label (k : TokenKind) :
    asLabel ofLabel? (.text k.label) = .ok k := by cases k <;> rfl

private theorem Instantiator.asLabel_label (i : Instantiator) :
    asLabel ofLabel? (.text i.label) = .ok i := by cases i <;> rfl

/-! ### Tokens and bindings -/

namespace TypeToken

mutual

private theorem ofForm_toForm : ∀ t : TypeToken, (∀ ty ∈ t.types, ty.WellFormed) → ofForm t.toForm = .ok t
  | .class ty, h => by
    simp [toForm, variant, ofForm, asType_ofType (h ty (by simp [types])), Except.map]
  | .param index, _ => by simp [toForm, variant, ofForm, Except.map]
  | .array element, h => by
    simp [toForm, variant, ofForm, ofForm_toForm element h, Except.map]
  | .parameterized raw args, h => by
    simp [toForm, variant, ofForm, argsOfEntries, entry?, ofForms_toForms args h, Except.map, needed, bind,
      Except.bind]

private theorem ofForms_toForms :
    ∀ ts : List TypeToken, (∀ ty ∈ typesOf ts, ty.WellFormed) → ofForms (toForms ts) = .ok ts
  | [], _ => rfl
  | t :: ts, h => by
    have ht := ofForm_toForm t fun ty hty => h ty (List.mem_append_left _ hty)
    have hts := ofForms_toForms ts fun ty hty => h ty (List.mem_append_right _ hty)
    simp only [toForms, ofForms, ht, hts]
    rfl

end

end TypeToken

private theorem BindingSource.ofForm_toForm {s : BindingSource} (h : ∀ ty ∈ s.types, ty.WellFormed) :
    ofForm s.toForm = .ok s := by
  cases s with
  | known kind converter =>
    have hkind : NativeKind.ofLabel? kind.label = some kind := asLabel_text.1 kind.asLabel_label
    simp [toForm, ofForm, List.lookup_cons, hkind, bind, Except.bind]
  | registry getter => simp [toForm, ofForm, bind, Except.bind]
  | param index => simp [toForm, ofForm, bind, Except.bind, Except.map]
  | discover token => simp [toForm, ofForm, bind, Except.bind, Except.map, TypeToken.ofForm_toForm token h]
  | attached path => simp [toForm, ofForm, bind, Except.bind]

private theorem Binding.ofForm_toForm {b : Binding} (h : ∀ ty ∈ b.types, ty.WellFormed) :
    ofForm b.toForm = .ok b := by
  have hty := asType_ofType (h b.ty (by simp [types]))
  have hsource := BindingSource.ofForm_toForm fun ty hty => h ty (List.mem_cons_of_mem _ hty)
  simp [toForm, ofForm, List.lookup_cons, hty, hsource]

/-! ### Codecs -/

namespace Codec

/-- What an entry decodes to as a codec does not depend on the other entries. -/
private theorem pick_ofRecord {entries : List (String × Form)} {name : String} {f : Form}
    (h : entries.lookup name = some f) : pick (ofRecord entries) name = ofForm f := by
  induction entries with
  | nil => cases h
  | cons e entries ih =>
    obtain ⟨other, g⟩ := e
    rw [List.lookup_cons] at h
    rw [ofRecord, pick, List.lookup_cons]
    split at h
    · obtain rfl := Option.some.inj h
      rfl
    · exact ih h

private theorem ofForm_variant {tag : String} (hn : tag ≠ "Native") (hb : tag ≠ "Binding")
    (entries : List (String × Form)) :
    ofForm (variant tag (.record entries)) = ofEntries tag entries (ofRecord entries) := by
  rw [variant, ofForm]
  · exact hn
  · exact hb

private theorem ofForm_toForm (c : Codec) : ofForm c.toForm = .ok c := by
  induction c with
  | native kind => simp [toForm, variant, ofForm, NativeKind.asLabel_label, Except.map]
  | binding index => simp [toForm, variant, ofForm, Except.map]
  | dynamic => rfl
  | runtimeType declared ih =>
    rw [toForm, ofForm_variant (by decide) (by decide), ofEntries, pick_ofRecord rfl, ih]
    rfl
  | sequence element i ih =>
    rw [toForm, ofForm_variant (by decide) (by decide), ofEntries, pick_ofRecord rfl, ih]
    simp [instantiatorOf, entry?, needed, List.lookup_cons, Instantiator.asLabel_label, bind, Except.bind, Except.map]
  | objectMap key value i ih =>
    rw [toForm, ofForm_variant (by decide) (by decide), ofEntries, pick_ofRecord rfl, ih]
    simp [instantiatorOf, entry?, needed, List.lookup_cons, NativeKind.asLabel_label, Instantiator.asLabel_label,
      bind, Except.bind, Except.map]
  | pairMap key value i ihk ihv =>
    rw [toForm, ofForm_variant (by decide) (by decide), ofEntries, pick_ofRecord rfl, pick_ofRecord rfl, ihk, ihv]
    simp [instantiatorOf, entry?, needed, List.lookup_cons, Instantiator.asLabel_label, bind, Except.bind, Except.map]
  | attached index nullSafe =>
    rw [toForm, ofForm_variant (by decide) (by decide), ofEntries]
    simp [needed, entry?, List.lookup_cons, bind, Except.bind, Except.map]
  | split write read ihw ihr =>
    rw [toForm, ofForm_variant (by decide) (by decide), ofEntries, pick_ofRecord rfl, pick_ofRecord rfl, ihw, ihr]
    rfl

end Codec

/-! ### Procedures -/

private theorem FieldAccess.ofForm_toForm (a : FieldAccess) : ofForm a.toForm = .ok a := by
  simp [toForm, ofForm, List.lookup_cons]

private theorem FieldWrite.ofForm_toForm (f : FieldWrite) : ofForm f.toForm = .ok f := by
  simp [toForm, ofForm, List.lookup_cons, FieldAccess.ofForm_toForm, Codec.ofForm_toForm]

private theorem WriteOp.ofForm_toForm (op : WriteOp) : ofForm op.toForm = .ok op := by
  cases op with
  | beginObject => rfl
  | endIfAbsent => rfl
  | field f => simp [toForm, ofForm, FieldWrite.ofForm_toForm, bind, Except.bind, Except.map]
  | endObject => rfl

private theorem FieldRead.ofForm_toForm (f : FieldRead) : ofForm f.toForm = .ok f := by
  have haccepts : asList (asLabel TokenKind.ofLabel?) (.list (f.accepts.map fun k => .text k.label)) =
      .ok f.accepts :=
    asList_map fun k _ => k.asLabel_label
  simp [toForm, ofForm, List.lookup_cons, FieldAccess.ofForm_toForm, Codec.ofForm_toForm, haccepts]

private theorem ReadProcedure.ofForm_toForm (p : ReadProcedure) : ofForm p.toForm = .ok p := by
  have hfields : asList FieldRead.ofForm (.list (p.fields.map FieldRead.toForm)) = .ok p.fields :=
    asList_map fun f _ => f.ofForm_toForm
  have hnames : asList asText (.list (p.nonNull.map .text)) = .ok p.nonNull := asList_map fun s _ => asText_text s
  simp [toForm, ofForm, List.lookup_cons, hfields, hnames]

/-! ### Adapters -/

private theorem Requirements.ofForm_toForm (r : Requirements) : ofForm r.toForm = .ok r := by
  have hparams : asList asText (.list (r.typeParams.map .text)) = .ok r.typeParams :=
    asList_map fun s _ => asText_text s
  simp [toForm, ofForm, List.lookup_cons, hparams]

private theorem StructAdapter.ofForm_toForm {a : StructAdapter} (h : ∀ ty ∈ (Adapter.struct a).types, ty.WellFormed) :
    ofForm a.toForm = .ok a := by
  have htarget := asType_ofType (h a.target (by simp [Adapter.types]))
  have hbindings : asList Binding.ofForm (.list (a.bindings.map Binding.toForm)) = .ok a.bindings :=
    asList_map fun b hb => b.ofForm_toForm fun ty hty =>
      h ty (List.mem_cons_of_mem _ (List.mem_flatMap.2 ⟨b, hb, hty⟩))
  have hwrite : asList WriteOp.ofForm (.list (a.write.map WriteOp.toForm)) = .ok a.write :=
    asList_map fun op _ => op.ofForm_toForm
  simp [toForm, ofForm, List.lookup_cons, htarget, hbindings, hwrite, Requirements.ofForm_toForm,
    ReadProcedure.ofForm_toForm]

private theorem EnumEntry.ofForm_toForm (e : EnumEntry) : ofForm e.toForm = .ok e := by
  simp [toForm, ofForm, List.lookup_cons]

private theorem EnumAdapter.ofForm_toForm {a : EnumAdapter} (h : a.target.WellFormed) : ofForm a.toForm = .ok a := by
  have hentries : asList EnumEntry.ofForm (.list (a.entries.map EnumEntry.toForm)) = .ok a.entries :=
    asList_map fun e _ => e.ofForm_toForm
  simp [toForm, ofForm, List.lookup_cons, asType_ofType h, hentries]

private theorem Adapter.ofForm_toForm {a : Adapter} (h : ∀ ty ∈ a.types, ty.WellFormed) :
    ofForm a.toForm = .ok a := by
  cases a with
  | struct a => simp [toForm, ofForm, StructAdapter.ofForm_toForm h, bind, Except.bind, Except.map]
  | enum a =>
    simp [toForm, ofForm, EnumAdapter.ofForm_toForm (h a.target (by simp [types])), bind, Except.bind, Except.map]

/-! ### Modules -/

private theorem DispatchEntry.ofForm_toForm (e : DispatchEntry) : ofForm e.toForm = .ok e := by
  simp [toForm, ofForm, List.lookup_cons]

namespace AdapterModule

/-- A stored module is loaded as it was, with every adapter, binding, token, codec, procedure, dispatch entry and
required type, if the references in it are well formed. -/
theorem reload_of_wellFormed {m : AdapterModule} (h : ∀ ty ∈ m.types, ty.WellFormed) : m.reload = .ok m := by
  have hadapters : asList Adapter.ofForm (.list (m.adapters.map Adapter.toForm)) = .ok m.adapters :=
    asList_map fun a ha => a.ofForm_toForm fun ty hty =>
      h ty (List.mem_append_left _ (List.mem_flatMap.2 ⟨a, ha, hty⟩))
  have hdispatch : asList DispatchEntry.ofForm (.list (m.dispatch.map DispatchEntry.toForm)) = .ok m.dispatch :=
    asList_map fun e _ => e.ofForm_toForm
  have hrequired : asList asType (.list (m.required.map Form.ofType)) = .ok m.required :=
    asList_map fun ty hty => asType_ofType (h ty (List.mem_append_right _ hty))
  simp [reload, toForm, ofForm, List.lookup_cons, hadapters, hdispatch, hrequired]

/-- A generic box with one binding of each kind, and an enumeration. -/
def boxModule : AdapterModule where
  name := "demo"
  adapters := [
    .struct {
      target := .named "demo::Box" [.var "T"]
      requirements := ⟨["T"], true, true⟩
      bindings := [⟨"key", NativeKind.path.typeRef, .known .path "path"⟩,
        ⟨"node", .named "demo::Node" [], .registry "node"⟩, ⟨"item", .var "T", .param 0⟩,
        ⟨"pair", .named "demo::Pair" [.var "T", .array (.named "demo::Node" [])],
          .discover (.parameterized "demo::Pair" [.param 0, .array (.class (.named "demo::Node" []))])⟩,
        ⟨"at", .named "chrono::DateTime" [], .attached "demo::millis"⟩]
      write := [.beginObject, .endIfAbsent, .endObject,
        .field ⟨"items", "Items", ⟨"items", "items"⟩, .sequence (.runtimeType (.binding 2)) .vecDeque, true⟩,
        .field ⟨"seen", "seen", ⟨"seen", "seen"⟩, .pairMap (.native .i32)
          (.objectMap .string .dynamic .indexMap) .hashMap, false⟩,
        .field ⟨"at", "at", ⟨"at", "at"⟩, .split (.attached 4 true) (.binding 3), false⟩]
      read := ⟨[⟨"items", "Items", ⟨"items", "items"⟩, [.beginArray, .null], .sequence (.binding 2) .vecDeque⟩],
        ["items"]⟩ },
    .enum ⟨.named "demo::Colour" [], [⟨"Red", "red"⟩, ⟨"Blue", "Blue"⟩]⟩]
  dispatch := [⟨"demo::Box", 1, 0⟩, ⟨"demo::Colour", 0, 1⟩]
  required := [.named "demo::Node" []]

theorem reload_boxModule : (∀ ty ∈ boxModule.types, ty.WellFormed) ∧ boxModule.reload = .ok boxModule := by
  have hwell : ∀ ty ∈ boxModule.types, ty.WellFormed := by decide +kernel
  exact ⟨hwell, reload_of_wellFormed hwell⟩

end AdapterModule

end Marshal
