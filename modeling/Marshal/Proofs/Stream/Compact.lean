import Marshal.Proofs.Stream.Acceptance

/-!
# Compact documents

The compact text of a value is a spelling of it in the standard grammar, so a reader takes it as a whole: it is
skipped up to its last character, and then the document is at its end.
-/

namespace Marshal

open Text (escape quote)

/-! ### Escaped text -/

namespace Dialect

private theorem spellsChar_escape (c : Char) : standard.SpellsChar c (escape c) := by
  unfold escape
  split_ifs with hquote hslash hn hr ht hb hf hunit
  · exact .short (by rw [hquote]; decide)
  · exact .short (by rw [hslash]; decide)
  · exact .short (by rw [hn]; decide)
  · exact .short (by rw [hr]; decide)
  · exact .short (by rw [ht]; decide)
  · exact .short (by rw [hb]; decide)
  · exact .short (by rw [hf]; decide)
  · -- control characters and the line separators are in the first plane
    have hlt : c.toNat < 0x10000 := by
      simp only [Bool.or_eq_true, decide_eq_true_eq] at hunit
      rcases hunit with (hunit | rfl) | rfl
      · omega
      · decide
      · decide
    exact .unit (.digits hlt (List.forall₂_same.2 fun _ _ => .inl rfl))
  · refine .plain ?_
    have hle : 0x20 ≤ c.toNat := by
      simp only [Bool.or_eq_true, decide_eq_true_eq, not_or] at hunit
      omega
    simp [isPlain, hquote, hslash, hle]

theorem spellsText_escape (s : List Char) : standard.SpellsText s (s.flatMap escape) := by
  induction s with
  | nil => exact .nil
  | cons c s ih => exact .cons (spellsChar_escape c) ih

theorem blank_nil (d : Dialect) : d.Blank [] := by
  intro c hc
  cases hc

/-- What a compact text has in front of an element. -/
private theorem separates_compact (d : Dialect) (first : Bool) : d.Separates first (if first then [] else [',']) := by
  cases first with
  | true => exact .first d.blank_nil
  | false => exact .next (b := []) d.blank_nil d.blank_nil

end Dialect

/-! ### Compact text -/

namespace Json

open Dialect (standard)

mutual

def document : Json → Document
  | null => .null
  | bool b => .bool b
  | string s => .string (String.ofList s)
  | number lexeme _ => .number (String.ofList lexeme)
  | array items => .array (itemsDocuments items)
  | object entries => .object (entriesDocuments entries)

def itemsDocuments : List Json → List Document
  | [] => []
  | j :: js => j.document :: itemsDocuments js

def entriesDocuments : List (String × Json) → List (String × Document)
  | [] => []
  | (name, j) :: es => (name, j.document) :: entriesDocuments es

end

mutual

theorem spells_text : ∀ j : Json, standard.Spells (.value j.document) j.text
  | null => .null
  | bool true => .true
  | bool false => .false
  | string s => by
    have htext : standard.SpellsText (String.ofList s).toList (s.flatMap escape) := by
      rw [String.toList_ofList]
      exact Dialect.spellsText_escape s
    exact .string htext
  | number lexeme h => by
    have hlexeme : standard.IsLexeme (String.ofList lexeme).toList := by
      rw [String.toList_ofList]
      exact .number h
    have hspells := Dialect.Spells.number hlexeme
    rwa [String.toList_ofList] at hspells
  | array items => .array (spells_itemsText true items)
  | object entries => .object (spells_entriesText true entries)

private theorem spells_itemsText (first : Bool) : ∀ js : List Json,
    standard.Spells (.items first (itemsDocuments js)) (itemsText first js ++ [']'])
  | [] => .endArray first standard.blank_nil
  | j :: js => by
    rw [itemsText, List.append_assoc, List.append_assoc]
    exact .item (standard.separates_compact first) (spells_text j) (spells_itemsText false js)

private theorem spells_entriesText (first : Bool) : ∀ es : List (String × Json),
    standard.Spells (.entries first (entriesDocuments es)) (entriesText first es ++ ['\x7d'])
  | [] => .endObject first standard.blank_nil
  | (name, j) :: es => by
    have hentry := Dialect.Spells.entry (standard.separates_compact first) (Dialect.spellsText_escape name.toList)
      standard.blank_nil standard.blank_nil (spells_text j) (spells_entriesText false es)
    simpa only [entriesText, entriesDocuments, quote, List.append_assoc, List.cons_append,
      List.nil_append] using hentry

end

theorem spellsDocument_text (j : Json) : standard.SpellsDocument j.document (String.ofList j.text).toList := by
  have htext := Dialect.SpellsDocument.mk standard.blank_nil j.spells_text standard.blank_nil
  rwa [List.nil_append, List.append_nil, ← String.toList_ofList (l := j.text)] at htext

end Json

/-! ### Skipping -/

namespace Reader

/-- A value that is spelled with nothing behind it is skipped to its last character. -/
theorem skipValue_of_spells {d : Dialect} {j : Document} {text : List Char} (h : d.Spells (.value j) text)
    (hdepth : j.depth ≤ maxDepth) :
    ∃ r r', skipValue (ofText text) = .ok ⟨⟩ r ∧ r.cursor.rest = [] ∧ peek r = .ok .endDocument r' := by
  obtain ⟨c, s, rfl, hc⟩ := h.head
  have hpeek : peek (ofText (c :: s)) = .ok j.kind ⟨⟨c :: s ++ [], 0⟩, true, [], some j.kind⟩ := by
    rw [List.append_nil]
    exact (Scans.document (b := []) d.blank_nil.loose hc).peek_eq
  obtain ⟨o, hpulls⟩ := pulled_of_spells h _ 0 true [] [] hpeek (follows_of_blank d.blank_nil)
    (by rw [List.length_nil]; omega)
  exact ⟨_, _, skipValue_of_pulls j hpulls, rfl, peek_endDocument⟩

end Reader

end Marshal
