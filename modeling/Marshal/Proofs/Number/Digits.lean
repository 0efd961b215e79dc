import Mathlib.Tactic.Ring
import Mathlib.Tactic.Linarith
import Marshal.Number.Numeral

/-!
# Decimal digits

The digits of a natural number denote it, and so do the texts of integers.
-/

namespace Marshal

/-! ### Values of digits -/

private theorem digitsValue_eq (s : List Char) : digitsValue s = Nat.ofDigitChars 10 s 0 := rfl

theorem digitsValue_toDigits (n : Nat) : digitsValue (Nat.toDigits 10 n) = n := by
  rw [digitsValue_eq, Nat.ofDigitChars_ten_toDigits]

theorem digitsValue_append (s t : List Char) :
    digitsValue (s ++ t) = digitsValue s * 10 ^ t.length + digitsValue t := by
  rw [digitsValue_eq, Nat.ofDigitChars_append, Nat.ofDigitChars_eq_ofDigitChars_zero]
  simp only [digitsValue_eq]
  ring

private theorem digitsValue_replicate_zero (n : Nat) : digitsValue (List.replicate n '0') = 0 := by
  rw [digitsValue_eq, Nat.ofDigitChars_replicate_zero, Nat.mul_zero]

theorem digitsValue_append_zeros (s : List Char) (n : Nat) :
    digitsValue (s ++ List.replicate n '0') = digitsValue s * 10 ^ n := by
  rw [digitsValue_append, digitsValue_replicate_zero, List.length_replicate, Nat.add_zero]

theorem digitsValue_zeros_append (n : Nat) (s : List Char) :
    digitsValue (List.replicate n '0' ++ s) = digitsValue s := by
  rw [digitsValue_append, digitsValue_replicate_zero, Nat.zero_mul, Nat.zero_add]

/-! ### Digits -/

theorem isDigit_of_mem_toDigits {n : Nat} {c : Char} (hc : c ∈ Nat.toDigits 10 n) : c.isDigit = true :=
  Nat.isDigit_of_mem_toDigits (by decide) (by decide) hc

theorem isDigits_iff {s : List Char} : isDigits s = true ↔ s ≠ [] ∧ ∀ c ∈ s, c.isDigit = true := by
  simp [isDigits]

theorem isDigits_toDigits (n : Nat) : isDigits (Nat.toDigits 10 n) = true :=
  isDigits_iff.2 ⟨Nat.toDigits_ne_nil, fun _ => isDigit_of_mem_toDigits⟩

/-- The number of digits bounds a number from both sides. -/
theorem pow_length_toDigits_le {n : Nat} (hn : 0 < n) : 10 ^ ((Nat.toDigits 10 n).length - 1) ≤ n := by
  by_cases hone : (Nat.toDigits 10 n).length ≤ 1
  · rw [show (Nat.toDigits 10 n).length - 1 = 0 by omega]
    exact hn
  · by_contra hlt
    have hle := (Nat.length_toDigits_le_iff (b := 10) (k := (Nat.toDigits 10 n).length - 1) (by decide) (by omega)).2
      (Nat.lt_of_not_le hlt)
    omega

theorem lt_pow_length_toDigits (n : Nat) : n < 10 ^ (Nat.toDigits 10 n).length :=
  (Nat.length_toDigits_le_iff (by decide) Nat.length_toDigits_pos).1 (Nat.le_refl _)

/-- The digits of a positive number do not begin with a zero. -/
theorem head?_toDigits_ne_zero {n : Nat} (hn : 0 < n) : (Nat.toDigits 10 n).head? ≠ some '0' := by
  induction n using Nat.strongRecOn with
  | ind n ih =>
    by_cases hlt : n < 10
    · rw [Nat.toDigits_of_lt_base hlt]
      intro h
      have hdigit : n = 0 := by simpa using h
      omega
    · have hle : 10 ≤ n := by omega
      rw [Nat.toDigits_of_base_le (by decide) hle, List.head?_append]
      have hpos : 0 < n / 10 := by omega
      have hrec := ih (n / 10) (by omega) hpos
      cases hd : Nat.toDigits 10 (n / 10) with
      | nil => exact absurd hd Nat.toDigits_ne_nil
      | cons c s => simpa [hd] using hrec

theorem splitSign_of_isDigit {c : Char} {s : List Char} (hc : c.isDigit = true) :
    splitSign (c :: s) = (false, c :: s) := by
  unfold splitSign
  split
  · next heq =>
    cases heq
    cases hc
  · next heq =>
    cases heq
    cases hc
  · rfl

theorem splitSign_of_isDigits {s : List Char} (hs : isDigits s = true) : splitSign s = (false, s) := by
  obtain ⟨hne, hall⟩ := isDigits_iff.1 hs
  cases s with
  | nil => exact absurd rfl hne
  | cons c s => exact splitSign_of_isDigit (hall c (List.mem_cons_self ..))

/-! ### Texts of integers -/

theorem toList_toString_int (n : Int) :
    (toString n).toList = if 0 ≤ n then Nat.toDigits 10 n.toNat else '-' :: Nat.toDigits 10 (-n).toNat := by
  cases n with
  | ofNat n =>
    rw [if_pos (show 0 ≤ Int.ofNat n from Int.natCast_nonneg n)]
    exact Nat.toList_repr
  | negSucc n =>
    rw [if_neg (by omega)]
    show ("-" ++ Nat.repr (n + 1)).toList = _
    rw [String.toList_append, Nat.toList_repr]
    rfl

private theorem integerText?_toString (n : Int) : integerText? (toString n).toList = some n := by
  rw [toList_toString_int]
  by_cases hn : 0 ≤ n
  · rw [if_pos hn, integerText?, splitSign_of_isDigits (isDigits_toDigits _)]
    simp only [isDigits_toDigits, if_true, digitsValue_toDigits]
    simp only [Bool.false_eq_true, if_false, Option.some.injEq]
    omega
  · rw [if_neg hn, integerText?]
    simp only [splitSign, isDigits_toDigits, if_true, digitsValue_toDigits, Option.some.injEq]
    omega

theorem fitsInt64_toInt (n : Int64) : fitsInt64 n.toInt = true := by
  rw [fitsInt64, Bool.and_eq_true, decide_eq_true_iff, decide_eq_true_iff]
  exact ⟨n.minValue_le_toInt, n.toInt_le⟩

theorem int64Text?_toString (n : Int64) : int64Text? (toString n.toInt).toList = some n := by
  simp only [int64Text?, integerText?_toString, bind, Option.bind_some, fitsInt64_toInt, if_true, Int64.ofInt_toInt]

/-! ### Blanks -/

theorem not_isBlank_of_isDigit {c : Char} (hc : c.isDigit = true) : Text.isBlank c = false := by
  have hrange := Char.isDigit_iff_toNat.1 hc
  have h0 : '0'.toNat = 48 := rfl
  have h9 : '9'.toNat = 57 := rfl
  simp only [Text.isBlank, Text.blankRanges, List.any_cons, List.any_nil, Bool.or_false, Bool.or_eq_false_iff,
    Bool.and_eq_false_iff, decide_eq_false_iff_not]
  omega

/-- A text without blanks at its ends is left as it is. -/
theorem trim_eq_self {s : List Char} (hhead : ∀ c, s.head? = some c → Text.isBlank c = false)
    (hlast : ∀ c, s.getLast? = some c → Text.isBlank c = false) : Text.trim s = s := by
  have hdrop : ∀ t : List Char, (∀ c, t.head? = some c → Text.isBlank c = false) → t.dropWhile Text.isBlank = t := by
    intro t ht
    cases t with
    | nil => rfl
    | cons c t => rw [List.dropWhile_cons_of_neg (by simp [ht c rfl])]
  rw [Text.trim, hdrop s hhead, hdrop s.reverse (by simpa [List.head?_reverse] using hlast), List.reverse_reverse]

end Marshal
