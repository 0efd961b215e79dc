import Marshal.Proofs.Number.Lexemes
import Marshal.Proofs.Value.Fields
import Marshal.Proofs.Value.Inside

/-!
# Numbers that are kept as they are spelled

Numbers of unbounded size are written as they are spelled, so what is written is a document only if all of them are
numbers of a document (`Value.WellSpelled`).
-/

namespace Marshal.Value

mutual

/-- The spellings of the numbers that a value keeps as they are spelled, those in its parts included. -/
def lexemes : Value → List String
  | bigInt lexeme | decimal lexeme | number lexeme => [lexeme]
  | list items => itemsLexemes items
  | map entries => entriesLexemes entries
  | object _ fields => fieldsLexemes fields
  | null | bool _ | int _ | float _ | char _ | str _ | path _ | ip _ | enum _ _ => []

def itemsLexemes : List Value → List String
  | [] => []
  | v :: vs => v.lexemes ++ itemsLexemes vs

def entriesLexemes : List (Value × Value) → List String
  | [] => []
  | (k, v) :: es => k.lexemes ++ (v.lexemes ++ entriesLexemes es)

def fieldsLexemes : List (String × Value) → List String
  | [] => []
  | (_, v) :: fs => v.lexemes ++ fieldsLexemes fs

end

def WellSpelled (v : Value) : Prop := ∀ lexeme ∈ v.lexemes, IsNumber lexeme.toList

/-- A value that may be absent is well spelled. -/
def WellSpelled? (v : Option Value) : Prop := ∀ w, v = some w → w.WellSpelled

/-! ### Parts -/

private theorem itemsLexemes_eq (items : List Value) : itemsLexemes items = items.flatMap lexemes := by
  induction items with
  | nil => rfl
  | cons v vs ih => rw [itemsLexemes, ih, List.flatMap_cons]

private theorem entriesLexemes_eq (entries : List (Value × Value)) :
    entriesLexemes entries = entries.flatMap fun e => e.1.lexemes ++ e.2.lexemes := by
  induction entries with
  | nil => rfl
  | cons e es ih => rw [entriesLexemes, ih, List.flatMap_cons, List.append_assoc]

private theorem fieldsLexemes_eq (fields : Fields) : fieldsLexemes fields = fields.flatMap (·.2.lexemes) := by
  induction fields with
  | nil => rfl
  | cons f fs ih => rw [fieldsLexemes, ih, List.flatMap_cons]

variable {v : Value}

private theorem WellSpelled.item {items : List Value} (h : (list items).WellSpelled) (hv : v ∈ items) :
    v.WellSpelled := by
  intro lexeme hl
  refine h lexeme ?_
  rw [lexemes, itemsLexemes_eq]
  exact List.mem_flatMap_of_mem hv hl

private theorem WellSpelled.entry {entries : List (Value × Value)} (h : (map entries).WellSpelled) {e : Value × Value}
    (he : e ∈ entries) : e.1.WellSpelled ∧ e.2.WellSpelled := by
  have hmem {lexeme : String} (hl : lexeme ∈ e.1.lexemes ++ e.2.lexemes) : lexeme ∈ (map entries).lexemes := by
    rw [lexemes, entriesLexemes_eq]
    exact List.mem_flatMap.2 ⟨e, he, hl⟩
  exact ⟨fun lexeme hl => h lexeme (hmem (List.mem_append_left _ hl)),
    fun lexeme hl => h lexeme (hmem (List.mem_append_right _ hl))⟩

theorem WellSpelled.field {ty : TypeRef} {fields : Fields} (h : (object ty fields).WellSpelled) {name : String}
    (hf : (name, v) ∈ fields) : v.WellSpelled := by
  intro lexeme hl
  refine h lexeme ?_
  rw [lexemes, fieldsLexemes_eq]
  exact List.mem_flatMap.2 ⟨(name, v), hf, hl⟩

theorem WellSpelled.of_inside {u : Value} (h : v.WellSpelled) (hu : u.Inside v) : u.WellSpelled := by
  induction hu with
  | self => exact h
  | item hv _ ih => exact ih (h.item hv)
  | key he _ ih => exact ih (h.entry he).1
  | value he _ ih => exact ih (h.entry he).2
  | field he _ ih => exact ih (h.field he)

/-! ### Values that may be absent -/

theorem wellSpelled?_none : WellSpelled? none := nofun

theorem WellSpelled.some (h : v.WellSpelled) : WellSpelled? (some v) := by
  rintro _ ⟨⟩
  exact h

theorem WellSpelled?.of_present? {v? : Option Value} (h : WellSpelled? v?) (hv : present? v? = Option.some v) :
    v.WellSpelled := h v (present?_eq_some hv)

end Marshal.Value
