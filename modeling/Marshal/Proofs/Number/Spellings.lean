import Mathlib.Data.List.TakeWhile
import Marshal.Proofs.Number.Lexemes

/-!
# Which texts are lexemes

The lexemes are the numbers of the grammar, and those in which the point stands right in front of the exponent
(`isLexeme_iff`): `1.e5` is a lexeme, `1.` is not.
-/

namespace Marshal

/-- A number with a point that has no digits after it but an exponent. -/
inductive IsPointed : List Char → Prop
  | mk {minus whole exponent : List Char} (hm : minus = [] ∨ minus = ['-']) (hw : IsWhole whole)
    (he : IsExponent exponent)
    (hne : exponent ≠ []) : IsPointed (minus ++ (whole ++ '.' :: exponent))

/-! ### Lexemes are spelled so -/

private theorem isExponent_of_exponentText? {s : List Char} {n : Int} (h : exponentText? s = some n) :
    IsExponent s := by
  have hdigits {letter : Char} {t : List Char} (hletter : letter = 'e' ∨ letter = 'E')
      (ht : integerText? t = some n) : IsExponent (letter :: t) := by
    unfold integerText? splitSign at ht
    split at ht
    next negative u hsplit =>
    have hu : isDigits u = true := by
      by_contra hu
      rw [if_neg hu] at ht
      cases ht
    split at hsplit
    all_goals obtain ⟨-, rfl⟩ := Prod.mk.inj hsplit
    · exact .signed hletter (.inr rfl) hu
    · exact .signed hletter (.inl rfl) hu
    · exact .unsigned hletter hu
  unfold exponentText? at h
  split at h
  · exact hdigits (.inl rfl) h
  · exact hdigits (.inr rfl) h
  · exact .none
  · cases h

/-- The parts of a text with a decimal value. -/
private theorem parts_of_decimalText? {negative : Bool} {s : List Char}
    (h : (decimalText? negative s).isSome = true) :
    ∃ fraction exponent, s = s.takeWhile Char.isDigit ++ (fraction ++ exponent) ∧
      (IsFraction fraction ∨ fraction = ['.']) ∧ IsExponent exponent := by
  have hs := (List.takeWhile_append_dropWhile (p := Char.isDigit) (l := s)).symm
  obtain ⟨x, h⟩ := Option.isSome_iff_exists.1 h
  unfold decimalText? at h
  dsimp only at h
  split at h
  · next t ht =>
    split at h
    · cases h
    obtain ⟨n, hn, -⟩ := Option.bind_eq_some_iff.1 h
    refine ⟨'.' :: t.takeWhile Char.isDigit, t.dropWhile Char.isDigit, ?_, ?_, isExponent_of_exponentText? hn⟩
    · rw [List.cons_append, List.takeWhile_append_dropWhile, ← ht, ← hs]
    · by_cases hne : t.takeWhile Char.isDigit = []
      · exact .inr (by rw [hne])
      · exact .inl (.digits (isDigits_iff.2 ⟨hne, fun _ => List.mem_takeWhile_imp⟩))
  · split at h
    · cases h
    obtain ⟨n, hn, -⟩ := Option.bind_eq_some_iff.1 h
    exact ⟨[], _, hs, .inl .none, isExponent_of_exponentText? hn⟩

/-- The digits in front have no needless zero. -/
private theorem isWhole_of_starts {s : List Char} (h : (match s with
      | '0' :: d :: _ => !d.isDigit
      | d :: _ => d.isDigit
      | [] => false) = true) : IsWhole (s.takeWhile Char.isDigit) := by
  split at h
  · next d t =>
    have hd : d.isDigit = false := by simpa using h
    rw [List.takeWhile_cons_of_pos (by rfl), List.takeWhile_cons_of_neg (by simp [hd])]
    exact .zero
  · next d t hzero =>
    rw [List.takeWhile_cons_of_pos h]
    by_cases hd : d = '0'
    · subst hd
      cases t with
      | nil => exact .zero
      | cons e t => exact absurd rfl (hzero e t rfl)
    · refine .digits (isDigits_iff.2 ⟨by simp, ?_⟩) (by simpa using hd)
      intro c hc
      rcases List.mem_cons.1 hc with rfl | hc
      · exact h
      · exact List.mem_takeWhile_imp hc
  · cases h

/-- A point at the very end is refused. -/
private theorem ne_nil_of_ends {s whole exponent : List Char} (hs : s = whole ++ '.' :: exponent)
    (h : (match s.getLast? with
      | some c => !(c = '.' || c = 'e' || c = 'E' || c = '+' || c = '-')
      | none => false) = true) : exponent ≠ [] := by
  rintro rfl
  subst hs
  simp at h

/-- What stands behind the minus. -/
private def unsigned : List Char → List Char
  | '-' :: s => s
  | s => s

/-- What begins with a digit is no word, so its float value is that of its parts. -/
private theorem decimalText?_of_floatText? {s : List Char} (h : (floatText? s).isSome = true)
    (hhead : ∃ c u, unsigned s = c :: u ∧ c.isDigit = true) :
    ∃ minus negative, (minus = [] ∨ minus = ['-']) ∧ s = minus ++ unsigned s ∧
      (decimalText? negative (unsigned s)).isSome = true := by
  obtain ⟨c, u, hcu, hc⟩ := hhead
  unfold unsigned at hcu ⊢
  split at hcu
  · next t =>
    rw [floatText?_of_head true rfl hcu hc] at h
    exact ⟨['-'], true, .inr rfl, rfl, h⟩
  · rw [floatText?_of_head false (hcu ▸ splitSign_of_isDigit hc) hcu hc] at h
    exact ⟨[], false, .inl rfl, rfl, h⟩

/-- A lexeme is a number, unless its point stands right in front of its exponent. -/
private theorem isNumber_or_isPointed_of_isLexeme {s : List Char} (h : isLexeme s = true) :
    IsNumber s ∨ IsPointed s := by
  unfold isLexeme at h
  extract_lets digits starts ends at h
  simp only [Bool.and_eq_true] at h
  obtain ⟨⟨hstarts, hends⟩, hvalue⟩ := h
  have hwhole : IsWhole (digits.takeWhile Char.isDigit) := isWhole_of_starts hstarts
  have hhead : ∃ c u, digits = c :: u ∧ c.isDigit = true := by
    obtain ⟨hne, hall⟩ := isDigits_iff.1 hwhole.isDigits
    cases hd : digits with
    | nil =>
      rw [hd] at hne
      exact absurd rfl hne
    | cons c u =>
      refine ⟨c, u, rfl, ?_⟩
      by_contra hc
      rw [hd, List.takeWhile_cons_of_neg hc] at hne
      exact hne rfl
  obtain ⟨minus, negative, hm, hs, hvalue⟩ := decimalText?_of_floatText? hvalue hhead
  obtain ⟨fraction, exponent, hparts, hfraction, hexponent⟩ := parts_of_decimalText? hvalue
  change s = minus ++ digits at hs
  change digits = digits.takeWhile Char.isDigit ++ (fraction ++ exponent) at hparts
  rcases hfraction with hfraction | rfl
  · left
    have hmagnitude := IsMagnitude.mk hwhole hfraction hexponent
    rw [← hparts] at hmagnitude
    rcases hm with rfl | rfl
    · rw [hs]
      exact .plain hmagnitude
    · rw [hs]
      exact .minus hmagnitude
  · right
    have hpointed := IsPointed.mk hm hwhole hexponent (ne_nil_of_ends hparts hends)
    rw [hs, hparts]
    exact hpointed

/-! ### What is spelled so is a lexeme -/

private theorem isDigit_point {s : List Char} : ∀ c, ('.' :: s).head? = some c → c.isDigit = false := by
  intro c hc
  obtain rfl := Option.some.inj hc
  rfl

private theorem decimalText?_pointed {whole exponent : List Char} (hw : isDigits whole = true)
    (he : IsExponent exponent) (negative : Bool) :
    (decimalText? negative (whole ++ '.' :: exponent)).isSome = true := by
  obtain ⟨hne, hall⟩ := isDigits_iff.1 hw
  have hempty : whole.isEmpty = false := by simpa using hne
  obtain ⟨htake, hdrop⟩ := takeWhile_isDigit hall (isDigit_point (s := exponent))
  obtain ⟨hetake, hedrop⟩ := takeWhile_isDigit (s := []) (by simp) fun c hc => (he.head c hc).1
  rw [List.nil_append] at hetake hedrop
  obtain ⟨n, hn⟩ := exponentText?_of_isExponent he
  unfold decimalText?
  simp only [htake, hdrop, hetake, hedrop, hempty, Bool.false_and, Bool.false_eq_true, if_false, hn]
  rfl

private theorem last_of_isExponent {exponent : List Char} (he : IsExponent exponent) (hne : exponent ≠ [])
    (s : List Char) : ∃ c, (s ++ exponent).getLast? = some c ∧ c.isDigit = true := by
  have hlast {t : List Char} (ht : isDigits t = true) (u : List Char) :
      ∃ c, (u ++ t).getLast? = some c ∧ c.isDigit = true := by
    obtain ⟨c, hc, hdigit⟩ := getLast?_of_isDigits ht
    exact ⟨c, by rw [List.getLast?_append, hc]; rfl, hdigit⟩
  cases he with
  | none => exact absurd rfl hne
  | @unsigned t letter _ ht => simpa using hlast ht (s ++ [letter])
  | @signed t letter sign _ _ ht => simpa using hlast ht (s ++ [letter, sign])

private theorem isLexeme_of_isPointed {s : List Char} (h : IsPointed s) : isLexeme s = true := by
  obtain ⟨hm, hw, he, hne⟩ := h
  rename_i minus whole exponent
  obtain ⟨c, t, hct, hc⟩ : ∃ c t, whole ++ '.' :: exponent = c :: t ∧ c.isDigit = true := by
    obtain ⟨hwhole, hall⟩ := isDigits_iff.1 hw.isDigits
    cases whole with
    | nil => exact absurd rfl hwhole
    | cons c whole => exact ⟨c, _, rfl, hall c (List.mem_cons_self ..)⟩
  have hvalue : (floatText? (minus ++ (whole ++ '.' :: exponent))).isSome = true := by
    rcases hm with rfl | rfl
    · rw [List.nil_append, floatText?_of_head false (hct ▸ splitSign_of_isDigit hc) hct hc]
      exact decimalText?_pointed hw.isDigits he false
    · rw [List.singleton_append, floatText?_of_head true rfl hct hc]
      exact decimalText?_pointed hw.isDigits he true
  have hlast := last_of_isExponent he hne (whole ++ ['.'])
  rw [List.append_assoc, List.singleton_append] at hlast
  have hstarts := starts_of_isWhole hw (isDigit_point (s := exponent))
  have hends := ends_of_getLast? hlast
  unfold isLexeme
  rw [hvalue]
  extract_lets digits starts ends
  have hdigits : whole ++ '.' :: exponent = digits := by
    rcases hm with rfl | rfl
    · simp only [digits, List.nil_append, hct]
      split
      · next heq =>
        cases (List.cons.inj heq).1
        cases hc
      · rfl
    · rfl
  rw [hdigits] at hstarts hends
  have hstarts' : starts = true := hstarts
  have hends' : ends = true := hends
  rw [hstarts', hends']
  rfl

/-- The lexemes, as a grammar. -/
theorem isLexeme_iff {s : List Char} : isLexeme s = true ↔ IsNumber s ∨ IsPointed s :=
  ⟨isNumber_or_isPointed_of_isLexeme, fun h => h.elim isLexeme_of_isNumber isLexeme_of_isPointed⟩

end Marshal
