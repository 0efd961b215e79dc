import Marshal.Proofs.Converter.Maps
import Marshal.Proofs.Number.Characters
import Marshal.Proofs.Stream.Within

/-!
# Numbers that are kept as they are spelled

The kinds for numbers of unbounded size keep the text that they read, of a number token or of a string, and write it
as it is (`NativeKind.write_kept`).  What they take from a string need not be a number token, so what is written may
be no document: it reads as the number that was written if it is a lexeme, and not at all if it is none
(`Converter.reread_kept`).
-/

namespace Marshal

open Effect Reader WriteM
open Dialect (loose)

/-! ### Documents in number characters -/

private theorem not_isNumeric_of_isBlank {c : Char} (h : loose.isBlank c = true) : isNumeric c = false := by
  have hblank : c ∈ [' ', '\t', '\n', '\r', '\x0c'] := by simpa [Dialect.isBlank, loose, or_assoc] using h
  have hnot : [' ', '\t', '\n', '\r', '\x0c'].any isNumeric = false := by decide
  exact Bool.eq_false_iff.2 (List.any_eq_false.1 hnot c hblank)

/-- A text of nothing but characters of numbers spells a number, if it spells a document. -/
private theorem eq_number_of_spells {j : Document} {s : List Char} (hs : ∀ x ∈ s, isNumeric x = true)
    (h : loose.SpellsDocument j s) : ∃ lexeme, j = .number lexeme ∧ s = lexeme.toList ∧ loose.IsLexeme s := by
  obtain ⟨hb, hj, hb'⟩ := h
  simp only [List.forall_mem_append] at hs
  obtain ⟨hfront, hs, hbehind⟩ := hs
  have hnil {b : List Char} (hb : loose.Blank b) (hnumeric : ∀ x ∈ b, isNumeric x = true) : b = [] := by
    refine List.eq_nil_iff_forall_not_mem.2 fun c hc => ?_
    have hnot := not_isNumeric_of_isBlank (hb c hc)
    rw [hnumeric c hc] at hnot
    cases hnot
  obtain rfl := hnil hb hfront
  obtain rfl := hnil hb' hbehind
  rw [List.nil_append, List.append_nil]
  -- every other value has a character that is in no number
  cases hj with
  | number hlexeme => exact ⟨_, rfl, rfl, hlexeme⟩
  | null => exact absurd (hs 'u' (by decide)) (by decide)
  | true => exact absurd (hs 'r' (by decide)) (by decide)
  | false => exact absurd (hs 'l' (by decide)) (by decide)
  | string | array | object => exact absurd (hs _ List.mem_cons_self) (by decide)

/-! ### What is kept -/

namespace NativeKind

/-- The kinds that keep the text of a number. -/
inductive Keeps : NativeKind → (String → Value) → Prop
  | bigInt : Keeps .bigInt .bigInt
  | bigDecimal : Keeps .bigDecimal .decimal
  | number : Keeps .number .number

variable {kind : NativeKind} {keep : String → Value} (hkind : kind.Keeps keep)

include hkind

private theorem ofText?_kept {text : String} {v : Value} (h : kind.ofText? text = some v) :
    v = keep text ∧ ∀ x ∈ text.toList, isNumeric x = true := by
  cases hkind with
  | bigInt =>
    obtain ⟨hint, hv⟩ := Option.ite_none_right_eq_some.1 h
    obtain rfl := Option.some.inj hv
    exact ⟨rfl, isNumeric_of_isIntegerLexeme hint⟩
  | bigDecimal | number =>
    obtain ⟨hfloat, hv⟩ := Option.ite_none_right_eq_some.1 h
    obtain rfl := Option.some.inj hv
    exact ⟨rfl, isNumeric_of_floatText? hfloat⟩

private theorem ofDocument?_kept {j : Document} {v : Value} (h : kind.ofDocument? j = some (some v)) :
    ∃ lexeme, j.text? = some lexeme ∧ kind.ofText? lexeme = some v := by
  have hj : j ≠ .null := by
    rintro rfl
    rw [kind.ofDocument?_null] at h
    cases h
  rw [ofDocument?_eq hj (by cases hkind <;> nofun) (by cases hkind <;> nofun)] at h
  obtain ⟨v', hv, hv'⟩ := Option.map_eq_some_iff.1 h
  obtain rfl := Option.some.inj hv'
  exact Option.bind_eq_some_iff.1 hv

private theorem ofDocument?_number (lexeme : String) :
    kind.ofDocument? (.number lexeme) = (kind.ofText? lexeme).map some := by
  cases hkind <;> rfl

theorem write_kept (lexeme : String) : kind.write (some (keep lexeme)) = token (Writer.number lexeme) := by
  cases hkind <;> rfl

end NativeKind

namespace Converter

/-- A number that is kept as it is spelled is written so, and what is written reads as the same number exactly if it
is a lexeme; if not, it is refused.  The text of a number token is one, that of a string may be none. -/
theorem reread_kept {ds : Delegates} {fuel id : Nat} {kind : NativeKind} {text : String} {v : Value}
    (hkind : kind ∈ [.bigInt, .bigDecimal, .number]) (h : (native id kind).fromJson ds (fuel + 1) text = .ok (some v))
    (reg : Registry) (n : Nat) (s : Store) :
    ∃ j lexeme, loose.SpellsDocument j text.toList ∧ (j = .number lexeme ∨ j = .string lexeme) ∧
      (native id kind).toJson reg (n + 1) (some v) s = .ok lexeme s ∧
      (j = .number lexeme → loose.IsLexeme lexeme.toList) ∧
      (loose.IsLexeme lexeme.toList → (native id kind).fromJson ds (fuel + 1) lexeme = .ok (some v)) ∧
      (¬loose.IsLexeme lexeme.toList → ∃ e, (native id kind).fromJson ds (fuel + 1) lexeme = .error e) := by
  obtain ⟨keep, hkeep⟩ : ∃ keep, kind.Keeps keep := by
    simp only [List.mem_cons, List.not_mem_nil, or_false] at hkind
    rcases hkind with rfl | rfl | rfl
    · exact ⟨_, .bigInt⟩
    · exact ⟨_, .bigDecimal⟩
    · exact ⟨_, .number⟩
  obtain ⟨j, hj, -, hv⟩ := (Leaf.native id kind).exists_spelled h
  obtain ⟨lexeme, htext, hlexeme⟩ := NativeKind.ofDocument?_kept hkeep hv
  obtain ⟨rfl, hnumeric⟩ := NativeKind.ofText?_kept hkeep hlexeme
  have hcases : j = .number lexeme ∨ j = .string lexeme := by
    cases j with
    | number t => exact .inl (congrArg _ (Option.some.inj htext))
    | string t => exact .inr (congrArg _ (Option.some.inj htext))
    | _ => cases htext
  refine ⟨j, lexeme, hj, hcases, ?_, ?_, ?_, ?_⟩
  · have happends : Appends s ((native id kind).write reg (n + 1) (some (keep lexeme))) lexeme.toList := by
      show Appends s (kind.write (some (keep lexeme))) lexeme.toList
      rw [NativeKind.write_kept hkeep]
      exact appends_value lexeme
    rw [toJson_of_appends happends, String.ofList_toList]
  · rintro rfl
    exact Document.allNumbers_number.1 hj.allNumbers
  · intro hl
    refine ((Leaf.native id kind).fromJson_eq_ok (Dialect.Spells.number hl).document).2 ⟨Nat.zero_le _, ?_⟩
    rw [NativeKind.ofDocument?_number hkeep, hlexeme, Option.map_some]
  · intro hl
    cases hread : (native id kind).fromJson ds (fuel + 1) lexeme with
    | error e => exact ⟨e, rfl⟩
    | ok u =>
      obtain ⟨j', hj', -⟩ := (Leaf.native id kind).exists_spelled hread
      obtain ⟨-, -, -, hlexeme'⟩ := eq_number_of_spells hnumeric hj'
      exact absurd hlexeme' hl

/-- What a kind makes of a string. -/
private theorem fromJson_string {kind : NativeKind} {text t : String} {v : Value}
    (htext : text.toList = Text.quote t.toList) (hkind : kind ∈ [.bigInt, .bigDecimal, .number])
    (h : kind.ofText? t = some v) : (native 0 kind).fromJson [] 1 text = .ok (some v) := by
  have hspells := (Json.string t.toList).spellsDocument_text
  rw [String.toList_ofList, Json.text, ← htext] at hspells
  refine ((Leaf.native 0 kind).fromJson_eq_ok hspells).2 ⟨Nat.zero_le _, ?_⟩
  simp only [List.mem_cons, List.not_mem_nil, or_false] at hkind
  rw [Json.document, String.ofList_toList]
  rcases hkind with rfl | rfl | rfl <;> exact congrArg (Option.map some) h

theorem reread_kept_decimal : (native 0 .bigDecimal).fromJson [] 1 "\"-1.50\"" = .ok (some (.decimal "-1.50")) ∧
    ∃ lexeme, (native 0 .bigDecimal).toJson (.ofModules [] []) 1 (some (.decimal "-1.50")) .empty =
      .ok lexeme .empty ∧
      (loose.IsLexeme lexeme.toList → (native 0 .bigDecimal).fromJson [] 1 lexeme =
        .ok (some (.decimal "-1.50"))) := by
  have hread : (native 0 .bigDecimal).fromJson [] 1 "\"-1.50\"" = .ok (some (.decimal "-1.50")) :=
    fromJson_string (by decide) (by decide) (if_pos (by decide))
  obtain ⟨j, lexeme, -, -, hwrite, -, hreread, -⟩ := reread_kept (by decide) hread (.ofModules [] []) 0 .empty
  exact ⟨hread, lexeme, hwrite, hreread⟩

/-- A number that was read off a string need not be read off what is written of it. -/
theorem not_forall_kept_reread : ¬∀ kind ∈ [NativeKind.bigInt, .bigDecimal, .number], ∀ (text : String) (v : Value),
    (native 0 kind).fromJson [] 1 text = .ok (some v) →
      ∃ lexeme, (native 0 kind).toJson (.ofModules [] []) 1 (some v) .empty = .ok lexeme .empty ∧
        (native 0 kind).fromJson [] 1 lexeme = .ok (some v) := by
  intro h
  have hread : (native 0 .bigInt).fromJson [] 1 "\"007\"" = .ok (some (.bigInt "007")) :=
    fromJson_string (by decide) (by decide) (if_pos (by decide))
  obtain ⟨lexeme, hwrite, hreread⟩ := h .bigInt (by decide) "\"007\"" (.bigInt "007") hread
  have hwrite' : (native 0 .bigInt).toJson (.ofModules [] []) 1 (some (.bigInt "007")) .empty = .ok "007" .empty :=
    rfl
  obtain ⟨rfl, -⟩ := ok_inj.1 (hwrite'.symm.trans hwrite)
  -- the text in a string begins with needless zeros
  obtain ⟨j, hj, -⟩ := (Leaf.native 0 .bigInt).exists_spelled hreread
  obtain ⟨-, -, -, hlexeme⟩ := eq_number_of_spells (isNumeric_of_isDigits (by decide)) hj
  exact absurd hlexeme.isLexeme (by decide)

end Converter

end Marshal
