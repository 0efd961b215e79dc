import Marshal.Proofs.Converter.Faults
import Marshal.Proofs.Converter.Natives

/-!
# Orderly writing

Whatever it is given, a codec writes its tokens in order.  Begun where a value may stand, it appends one whole value,
or fails with a fault that is no misuse of the writer (`WriteM.Orderly`); between the elements of an array and between
the entries of an object the same is said of any number of them.  The text that is appended is that of a value of a
document under an assumption `V`, which has to ensure that the numbers that are written as they are spelled are well
spelled.
-/

namespace Marshal

open Effect
open Text (quote)

namespace WriteM

variable {I : Store → Prop} {V : Prop} {m m' : WriteM Unit}

/-! ### Where a computation ends -/

/-- Begun at the writer `w` and a store of which `I` holds, the computation ends at such a store: with a writer of
which `Q` holds, or with a fault that is no misuse of the writer. -/
def Ends (I : Store → Prop) (m : WriteM Unit) (w : Writer) (Q : Writer → Prop) : Prop :=
  ∀ s, I s →
    match m ⟨w, s⟩ with
    | .ok _ w' => I w'.store ∧ Q w'.writer
    | .error e w' => I w'.store ∧ e.isMisuse = false

section Ends

variable {w w' : Writer} {Q Q' : Writer → Prop}

private theorem ends_of_apply (h : ∀ s, m ⟨w, s⟩ = .ok ⟨⟩ ⟨w', s⟩) (hQ : Q w') : Ends I m w Q := by
  intro s hI
  rw [h s]
  exact ⟨hI, hQ⟩

private theorem ends_throw {e : Error} (he : e.isMisuse = false) : Ends I (throw e) w Q := fun _ hI => ⟨hI, he⟩

private theorem Ends.bind (hm : Ends I m w Q) (hm' : ∀ w', Q w' → Ends I m' w' Q') : Ends I (do m; m') w Q' := by
  intro s hI
  have hs := hm s hI
  cases h : m ⟨w, s⟩ with
  | ok a w₁ =>
    rw [h] at hs
    rw [bind_of_ok h]
    exact hm' w₁.writer hs.2 w₁.store hs.1
  | error e w₁ =>
    rw [h] at hs
    rw [bind_of_error h]
    exact hs

private theorem Ends.mono (hQ : ∀ w', Q w' → Q' w') (hm : Ends I m w Q) : Ends I m w Q' := by
  intro s hI
  have hs := hm s hI
  cases h : m ⟨w, s⟩ with
  | ok a w₁ =>
    rw [h] at hs
    exact ⟨hs.1, hQ _ hs.2⟩
  | error e w₁ =>
    rw [h] at hs
    exact hs

end Ends

/-! ### Orderly computations -/

/-- Begun where a value may stand, the computation appends one value, if it succeeds. -/
def Orderly (I : Store → Prop) (V : Prop) (m : WriteM Unit) : Prop :=
  ∀ (w : Writer) (out : String) (started : Bool) (scopes : List WriteScope), w.separate = .ok ⟨out, started, scopes⟩ →
    Ends I m w fun w' => ∃ text : String, w' = ⟨out ++ text, started, scopes⟩ ∧ (V → ∃ j : Json, text.toList = j.text)

/-- Begun in an open container, the computation appends parts of it: `content` is their text, and `scope` the state of
the container, both by whether the container is empty so far. -/
def OrderlyParts {α : Type} (scope : Bool → WriteScope) (content : Bool → List α → List Char)
    (I : Store → Prop) (V : Prop) (m : WriteM Unit) : Prop :=
  ∀ (out : String) (started first : Bool) (outer : List WriteScope),
    Ends I m ⟨out, started, scope first :: outer⟩ fun w' =>
      ∃ (text : String) (first' : Bool), w' = ⟨out ++ text, started, scope first' :: outer⟩ ∧
        (V → ∃ xs, text.toList = content first xs ∧ first' = (first && xs.isEmpty))

/-- Begun in an open array, the computation appends elements. -/
abbrev OrderlyItems : (I : Store → Prop) → (V : Prop) → (m : WriteM Unit) → Prop := OrderlyParts .array Json.itemsText

/-- Begun in an open object, the computation appends entries. -/
abbrev OrderlyEntries : (I : Store → Prop) → (V : Prop) → (m : WriteM Unit) → Prop :=
  OrderlyParts (.object · false) Json.entriesText

theorem orderly_throw {e : Error} (he : e.isMisuse = false) : Orderly I V (throw e) := fun _ _ _ _ _ => ends_throw he

theorem orderly_mismatch (expected : String) (found : Value) : Orderly I V (found.mismatch expected) :=
  orderly_throw rfl

/-! ### Leaves -/

private theorem orderly_value {text : String} (h : V → ∃ j : Json, text.toList = j.text) :
    Orderly I V (token (Writer.value text)) :=
  fun _ _ _ _ hw => ends_of_apply (fun _ => value_apply text hw) ⟨text, rfl, h⟩

theorem orderly_null : Orderly I V (token Writer.null) := orderly_value fun _ => ⟨.null, rfl⟩

theorem orderly_bool (b : Bool) : Orderly I V (token (Writer.bool b)) :=
  orderly_value fun _ => ⟨.bool b, by cases b <;> rfl⟩

theorem orderly_string (t : String) : Orderly I V (token (Writer.string t)) :=
  orderly_value fun _ => ⟨.string t.toList, String.toList_ofList⟩

theorem orderly_number {lexeme : String} (h : V → IsNumber lexeme.toList) :
    Orderly I V (token (Writer.number lexeme)) :=
  orderly_value fun hV => ⟨.number lexeme.toList (h hV), rfl⟩

theorem orderly_int (n : Int64) : Orderly I V (token (Writer.int n)) :=
  orderly_number fun _ => NativeKind.isNumber_toString n.toInt

/-- A finite float is displayed as a number, and one that is not is refused. -/
theorem orderly_float (x : Binary64) : Orderly I V (token (Writer.float x)) := by
  rw [Writer.float]
  by_cases hx : x.isFinite = true
  · rw [if_pos hx]
    refine orderly_number fun _ => ?_
    rw [Binary64.display, String.toList_ofList]
    exact (Binary64.isNumber_text hx).1
  · rw [if_neg hx]
    exact fun _ _ _ _ _ _ hI => ⟨hI, rfl⟩

/-! ### Parts of containers -/

section Parts

variable {α β : Type} {scope : Bool → WriteScope} {content : Bool → List α → List Char}

/-- The text of parts in a row is made up of theirs. -/
structure Content (content : Bool → List α → List Char) : Prop where
  nil (first : Bool) : content first [] = []
  append (first : Bool) (xs xs' : List α) : content first (xs ++ xs') = content first xs ++
  content (first && xs.isEmpty) xs'

theorem content_items : Content Json.itemsText := ⟨fun _ => rfl, itemsText_append⟩

theorem content_entries : Content Json.entriesText := ⟨fun _ => rfl, entriesText_append⟩

theorem orderlyParts_nil (hc : Content content) : OrderlyParts scope content I V (pure ⟨⟩) := by
  intro out started first outer
  refine ends_of_apply (fun _ => rfl) ⟨"", first, by rw [String.append_empty], fun _ => ⟨[], ?_, by simp⟩⟩
  rw [hc.nil]
  rfl

theorem orderlyParts_throw {e : Error} (he : e.isMisuse = false) : OrderlyParts scope content I V (throw e) :=
  fun _ _ _ _ => ends_throw he

theorem OrderlyParts.append (hc : Content content) (h : OrderlyParts scope content I V m)
    (h' : OrderlyParts scope content I V m') : OrderlyParts scope content I V (do m; m') := by
  intro out started first outer
  refine (h out started first outer).bind ?_
  rintro w₁ ⟨text, first₁, rfl, htext⟩
  refine (h' (out ++ text) started first₁ outer).mono ?_
  rintro w₂ ⟨text', first₂, rfl, htext'⟩
  refine ⟨text ++ text', first₂, by rw [String.append_assoc], fun hV => ?_⟩
  obtain ⟨xs, hxs, rfl⟩ := htext hV
  obtain ⟨xs', hxs', rfl⟩ := htext' hV
  refine ⟨xs ++ xs', ?_, by cases xs <;> simp⟩
  rw [String.toList_append, hxs, hxs', hc.append]

end Parts

/-! ### Arrays -/

theorem Orderly.item (h : Orderly I V m) : OrderlyItems I V m := by
  intro out started first outer
  have hm := h ⟨out, started, .array first :: outer⟩ (if first then out else out ++ ",") started
    (.array false :: outer) rfl
  refine hm.mono ?_
  rintro w' ⟨text, rfl, htext⟩
  refine ⟨(if first then "" else ",") ++ text, false, ?_, fun hV => ?_⟩
  · cases first <;> simp [String.append_assoc]
  · obtain ⟨j, hj⟩ := htext hV
    refine ⟨[j], ?_, by simp⟩
    cases first <;> simp [Json.itemsText, hj]

theorem orderly_array (h : OrderlyItems I V m) :
    Orderly I V (do
      token Writer.beginArray
      m
      token Writer.endArray) := by
  intro w out started scopes hw
  refine Ends.bind (ends_of_apply (Q := (· = ⟨out ++ "[", started, .array true :: scopes⟩))
    (fun _ => beginArray_apply hw) rfl) ?_
  rintro _ rfl
  refine (h (out ++ "[") started true scopes).bind ?_
  rintro w₁ ⟨text, first, rfl, htext⟩
  refine ends_of_apply (fun _ => endArray_apply _ started first scopes) ⟨"[" ++ text ++ "]", ?_, fun hV => ?_⟩
  · simp only [String.append_assoc]
  · obtain ⟨js, hjs, -⟩ := htext hV
    exact ⟨.array js, by simp [Json.text, hjs]⟩

/-! ### Objects -/

theorem Orderly.entry (h : Orderly I V m) (name : String) :
    OrderlyEntries I V (do
      token (Writer.name name)
      m) := by
  intro out started first outer
  refine Ends.bind (ends_of_apply (Q := (· = _)) (fun _ => name_apply name out started first outer) rfl) ?_
  rintro _ rfl
  refine (h _ _ started (.object false false :: outer) rfl).mono ?_
  rintro w' ⟨text, rfl, htext⟩
  refine ⟨(if first then "" else ",") ++ (String.ofList (quote name.toList) ++ ":" ++ text), false, ?_, fun hV => ?_⟩
  · cases first <;> simp [String.append_assoc]
  · obtain ⟨j, hj⟩ := htext hV
    refine ⟨[(name, j)], ?_, by simp⟩
    cases first <;> simp [Json.entriesText, hj]

theorem orderly_object (h : OrderlyEntries I V m) :
    Orderly I V (do
      token Writer.beginObject
      m
      token Writer.endObject) := by
  intro w out started scopes hw
  refine Ends.bind (ends_of_apply (Q := (· = ⟨out ++ "\x7b", started, .object true false :: scopes⟩))
    (fun _ => beginObject_apply hw) rfl) ?_
  rintro _ rfl
  refine (h (out ++ "\x7b") started true scopes).bind ?_
  rintro w₁ ⟨text, first, rfl, htext⟩
  refine ends_of_apply (fun _ => endObject_apply _ started first scopes) ⟨"\x7b" ++ text ++ "\x7d", ?_, fun hV => ?_⟩
  · simp only [String.append_assoc]
  · obtain ⟨es, hes, -⟩ := htext hV
    exact ⟨.object es, by simp [Json.text, hes]⟩

end WriteM

end Marshal
