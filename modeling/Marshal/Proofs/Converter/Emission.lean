import Marshal.Converter.Write
import Marshal.Proofs.Stream.Documents

/-!
# Writing documents

A computation writes a value of a document (`WriteM.Writes`) if, begun where a value may stand, it appends the text of
the value and leaves the store of the registry as it is.
-/

namespace Marshal

open Effect
open Text (quote)

theorem Codec.writeEach_append {α : Type} (write : α → WriteM Unit) (as bs : List α) :
    writeEach write (as ++ bs) = (do
      writeEach write as
      writeEach write bs) := by
  induction as with
  | nil => rfl
  | cons a as ih => rw [List.cons_append, writeEach, writeEach, ih, bind_assoc]

namespace WriteM

variable {s : Store} {m m' : WriteM Unit} {j : Json}

/-- Begun where a value may stand, the computation appends the text of the value. -/
def Writes (s : Store) (m : WriteM Unit) (j : Json) : Prop :=
  ∀ (w : Writer) (out : String) (started : Bool) (scopes : List WriteScope), w.separate = .ok ⟨out, started, scopes⟩ →
    m ⟨w, s⟩ = .ok ⟨⟩ ⟨⟨out ++ String.ofList j.text, started, scopes⟩, s⟩

/-- Begun in an open array, the computation appends elements. -/
def WritesItems (s : Store) (m : WriteM Unit) (js : List Json) : Prop :=
  ∀ (out : String) (started first : Bool) (outer : List WriteScope), m ⟨⟨out, started, .array first :: outer⟩, s⟩ =
    .ok ⟨⟩ ⟨⟨out ++ String.ofList (Json.itemsText first js), started, .array (first && js.isEmpty) :: outer⟩, s⟩

/-- Begun in an open object, the computation appends entries. -/
def WritesEntries (s : Store) (m : WriteM Unit) (es : List (String × Json)) : Prop :=
  ∀ (out : String) (started first : Bool) (outer : List WriteScope),
    m ⟨⟨out, started, .object first false :: outer⟩, s⟩ =
    .ok ⟨⟩ ⟨⟨out ++ String.ofList (Json.entriesText first es), started, .object (first && es.isEmpty) false :: outer⟩,
      s⟩

/-! ### Leaves -/

theorem value_apply (text : String) {w : Writer} {out : String} {started : Bool} {scopes : List WriteScope}
    (hw : w.separate = .ok ⟨out, started, scopes⟩) :
    token (Writer.value text) ⟨w, s⟩ = .ok ⟨⟩ ⟨⟨out ++ text, started, scopes⟩, s⟩ := by
  unfold token Writer.value
  rw [bind_of_ok (get_apply w)]
  simp only [hw]
  rfl

theorem writes_value {text : String} (h : text.toList = j.text) : Writes s (token (Writer.value text)) j := by
  intro w out started scopes hw
  rw [value_apply text hw, ← h, String.ofList_toList]

theorem writes_bool (b : Bool) : Writes s (token (Writer.bool b)) (.bool b) := by
  cases b <;> exact writes_value rfl

theorem writes_string (t : String) : Writes s (token (Writer.string t)) (.string t.toList) :=
  writes_value String.toList_ofList

theorem writes_number {lexeme : String} (h : IsNumber lexeme.toList) :
    Writes s (token (Writer.number lexeme)) (.number lexeme.toList h) := writes_value rfl

/-! ### Arrays -/

theorem writesItems_nil : WritesItems s (pure ⟨⟩) [] := by
  intro out started first outer
  simp [Json.itemsText, pure_apply]

theorem Writes.item (h : Writes s m j) : WritesItems s m [j] := by
  intro out started first outer
  rw [h _ (if first then out else out ++ ",") started (.array false :: outer) rfl]
  cases first
  · simp [Json.itemsText, String.append_assoc]
  · simp [Json.itemsText]

theorem itemsText_append (first : Bool) (js js' : List Json) :
    Json.itemsText first (js ++ js') = Json.itemsText first js ++ Json.itemsText (first && js.isEmpty) js' := by
  induction js generalizing first with
  | nil => simp [Json.itemsText]
  | cons j js ih => simp [Json.itemsText, ih]

theorem WritesItems.append {js js' : List Json} (h : WritesItems s m js) (h' : WritesItems s m' js') :
    WritesItems s (do m; m') (js ++ js') := by
  intro out started first outer
  have hempty : (first && js.isEmpty && js'.isEmpty) = (first && (js ++ js').isEmpty) := by cases js <;> simp
  rw [bind_of_ok (h out started first outer), h', itemsText_append, String.ofList_append, String.append_assoc, hempty]

theorem writesItems_writeEach {α : Type} {write : α → WriteM Unit} {as : List α} {js : List Json}
    (h : List.Forall₂ (fun a j => Writes s (write a) j) as js) : WritesItems s (Codec.writeEach write as) js := by
  induction h with
  | nil => exact writesItems_nil
  | cons ha _ ih => exact ha.item.append ih

theorem beginArray_apply {w : Writer} {out : String} {started : Bool} {scopes : List WriteScope}
    (hw : w.separate = .ok ⟨out, started, scopes⟩) :
    token Writer.beginArray ⟨w, s⟩ = .ok ⟨⟩ ⟨⟨out ++ "[", started, .array true :: scopes⟩, s⟩ := by
  unfold token Writer.beginArray Writer.value
  rw [bind_assoc, bind_of_ok (get_apply w)]
  simp only [hw]
  rfl

theorem endArray_apply (out : String) (started first : Bool) (outer : List WriteScope) :
    token Writer.endArray ⟨⟨out, started, .array first :: outer⟩, s⟩ = .ok ⟨⟩ ⟨⟨out ++ "]", started, outer⟩, s⟩ := rfl

theorem writes_array {js : List Json} (h : WritesItems s m js) :
    Writes s (do
      token Writer.beginArray
      m
      token Writer.endArray) (.array js) := by
  intro w out started scopes hw
  have htext :
      out ++ "[" ++ String.ofList (Json.itemsText true js) ++ "]" = out ++ String.ofList (Json.array js).text := by
    apply String.toList_inj.1
    simp [Json.text]
  rw [bind_of_ok (beginArray_apply hw), bind_of_ok (h _ _ _ _), endArray_apply, htext]

/-! ### Objects -/

theorem writesEntries_nil : WritesEntries s (pure ⟨⟩) [] := by
  intro out started first outer
  simp [Json.entriesText, pure_apply]

theorem name_apply (name out : String) (started first : Bool) (outer : List WriteScope) :
    token (Writer.name name) ⟨⟨out, started, .object first false :: outer⟩, s⟩ =
      .ok ⟨⟩ ⟨⟨out ++ (if first then String.ofList (quote name.toList) ++ ":"
        else "," ++ (String.ofList (quote name.toList) ++ ":")), started, .object false true :: outer⟩, s⟩ := rfl

theorem Writes.entry (h : Writes s m j) (name : String) :
    WritesEntries s (do
      token (Writer.name name)
      m) [(name, j)] := by
  intro out started first outer
  rw [bind_of_ok (name_apply name out started first outer), h _ _ started (.object false false :: outer) rfl]
  cases first
  · simp only [Bool.false_eq_true, if_false, Bool.false_and]
    have htext : out ++ ("," ++ (String.ofList (quote name.toList) ++ ":")) ++ String.ofList j.text =
        out ++ String.ofList (Json.entriesText false [(name, j)]) := by
      apply String.toList_inj.1
      simp [Json.entriesText]
    rw [htext]
  · simp only [if_true, Bool.true_and, List.isEmpty_cons]
    have htext : out ++ (String.ofList (quote name.toList) ++ ":") ++ String.ofList j.text =
        out ++ String.ofList (Json.entriesText true [(name, j)]) := by
      apply String.toList_inj.1
      simp [Json.entriesText]
    rw [htext]

theorem entriesText_append (first : Bool) (es es' : List (String × Json)) :
    Json.entriesText first (es ++ es') = Json.entriesText first es ++ Json.entriesText (first && es.isEmpty) es' := by
  induction es generalizing first with
  | nil => simp [Json.entriesText]
  | cons e es ih =>
    obtain ⟨name, j⟩ := e
    simp [Json.entriesText, ih]

theorem WritesEntries.append {es es' : List (String × Json)} (h : WritesEntries s m es)
    (h' : WritesEntries s m' es') : WritesEntries s (do m; m') (es ++ es') := by
  intro out started first outer
  have hempty : (first && es.isEmpty && es'.isEmpty) = (first && (es ++ es').isEmpty) := by cases es <;> simp
  rw [bind_of_ok (h out started first outer), h', entriesText_append, String.ofList_append,
    String.append_assoc, hempty]

theorem writesEntries_writeEach {α : Type} {write : α → WriteM Unit} {as : List α} {es : List (String × Json)}
    (h : List.Forall₂ (fun a e => WritesEntries s (write a) [e]) as es) :
    WritesEntries s (Codec.writeEach write as) es := by
  induction h with
  | nil => exact writesEntries_nil
  | cons ha _ ih => exact ha.append ih

theorem beginObject_apply {w : Writer} {out : String} {started : Bool} {scopes : List WriteScope}
    (hw : w.separate = .ok ⟨out, started, scopes⟩) :
    token Writer.beginObject ⟨w, s⟩ = .ok ⟨⟩ ⟨⟨out ++ "\x7b", started, .object true false :: scopes⟩, s⟩ := by
  unfold token Writer.beginObject Writer.value
  rw [bind_assoc, bind_of_ok (get_apply w)]
  simp only [hw]
  rfl

theorem endObject_apply (out : String) (started first : Bool) (outer : List WriteScope) :
    token Writer.endObject ⟨⟨out, started, .object first false :: outer⟩, s⟩ =
      .ok ⟨⟩ ⟨⟨out ++ "\x7d", started, outer⟩, s⟩ := rfl

theorem writes_object {es : List (String × Json)} (h : WritesEntries s m es) :
    Writes s (do
      token Writer.beginObject
      m
      token Writer.endObject) (.object es) := by
  intro w out started scopes hw
  have htext : out ++ "\x7b" ++ String.ofList (Json.entriesText true es) ++ "\x7d" =
      out ++ String.ofList (Json.object es).text := by
    apply String.toList_inj.1
    simp [Json.text]
  rw [bind_of_ok (beginObject_apply hw), bind_of_ok (h _ _ _ _), endObject_apply, htext]

end WriteM

end Marshal
