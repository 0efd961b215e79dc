import Marshal.Proofs.Stream.Grammar

/-!
# Parts of documents

The values that stand in a document at any depth.  What the parts of a document have to be like is told container by
container: that no object repeats a name (`Document.Unrepeated`), and what the numbers are (`Document.AllNumbers`), of
which a text says that they are lexemes of the dialect (`Dialect.SpellsDocument.allNumbers`).
-/

namespace Marshal

namespace Document

/-- A value is another one or stands in it, at any depth. -/
inductive Within (i : Document) : Document → Prop
  | self : Within i i
  | item {j : Document} {js : List Document} (hj : j ∈ js) (h : Within i j) : Within i (.array js)
  | entry {e : String × Document} {es : List (String × Document)} (he : e ∈ es) (h : Within i e.2) : Within i
      (.object es)

/-- No object anywhere in the document has two entries of one name. -/
def Unrepeated (j : Document) : Prop := ∀ es, (object es).Within j → (es.map (·.1)).Nodup

/-- The numbers in the document are all so. -/
def AllNumbers (P : String → Prop) (j : Document) : Prop := ∀ lexeme, (number lexeme).Within j → P lexeme

variable {js : List Document} {es : List (String × Document)} {P Q : String → Prop}

theorem unrepeated_array : (array js).Unrepeated ↔ ∀ j ∈ js, j.Unrepeated := by
  constructor
  · intro h j hj es hes
    exact h es (.item hj hes)
  · intro h es hes
    cases hes with
    | item hj hes => exact h _ hj es hes

theorem unrepeated_object : (object es).Unrepeated ↔ (es.map (·.1)).Nodup ∧ ∀ e ∈ es, e.2.Unrepeated := by
  constructor
  · intro h
    exact ⟨h es .self, fun e he es' hes' => h es' (.entry he hes')⟩
  · rintro ⟨hnodup, h⟩ es' hes'
    cases hes' with
    | self => exact hnodup
    | entry he hes' => exact h _ he es' hes'

@[simp]
private theorem allNumbers_null : null.AllNumbers P := fun _ hin => nomatch hin

@[simp]
theorem allNumbers_number {lexeme : String} : (number lexeme).AllNumbers P ↔ P lexeme := by
  refine ⟨fun h => h lexeme .self, fun h lexeme hin => ?_⟩
  cases hin
  exact h

@[simp]
theorem allNumbers_array : (array js).AllNumbers P ↔ ∀ j ∈ js, j.AllNumbers P := by
  constructor
  · intro h j hj lexeme hin
    exact h lexeme (.item hj hin)
  · intro h lexeme hin
    cases hin with
    | item hj hin => exact h _ hj lexeme hin

@[simp]
theorem allNumbers_object : (object es).AllNumbers P ↔ ∀ e ∈ es, e.2.AllNumbers P := by
  constructor
  · intro h e he lexeme hin
    exact h lexeme (.entry he hin)
  · intro h lexeme hin
    cases hin with
    | entry he hin => exact h _ he lexeme hin

theorem AllNumbers.mono {j : Document} (h : j.AllNumbers P) (hPQ : ∀ lexeme, P lexeme → Q lexeme) : j.AllNumbers Q :=
  fun lexeme hin => hPQ lexeme (h lexeme hin)

/-- The numbers in what is spelled in one piece are all so. -/
def Part.AllNumbers (P : String → Prop) : Part → Prop
  | .value j => j.AllNumbers P
  | .items _ js => ∀ j ∈ js, j.AllNumbers P
  | .entries _ es => ∀ e ∈ es, e.2.AllNumbers P

end Document

namespace Dialect

open Document (Part)

variable {d : Dialect}

private theorem Spells.allNumbers {part : Part} {s : List Char} (h : d.Spells part s) :
    part.AllNumbers fun lexeme => d.IsLexeme lexeme.toList := by
  induction h with
  | null | true | false | string _ => exact fun _ hin => nomatch hin
  | number h => exact Document.allNumbers_number.2 h
  | array _ ih => exact Document.allNumbers_array.2 ih
  | object _ ih => exact Document.allNumbers_object.2 ih
  | endArray _ _ | endObject _ _ => exact List.forall_mem_nil _
  | item _ _ _ ihj ihjs => exact List.forall_mem_cons.2 ⟨ihj, ihjs⟩
  | entry _ _ _ _ _ _ ihj ihes => exact List.forall_mem_cons.2 ⟨ihj, ihes⟩

theorem SpellsDocument.allNumbers {j : Document} {text : List Char} (h : d.SpellsDocument j text) :
    j.AllNumbers fun lexeme => d.IsLexeme lexeme.toList := by
  obtain ⟨-, hj, -⟩ := h
  exact hj.allNumbers

end Dialect

end Marshal
