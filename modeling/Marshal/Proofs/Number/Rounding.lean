import Mathlib.Algebra.Order.Field.Power
import Mathlib.Tactic.FieldSimp
import Mathlib.Tactic.Positivity
import Marshal.Proofs.Number.Digits
import Marshal.Number.Shortest

/-!
# Rounding intervals

The reals that round to a finite magnitude form an interval around it.  `Magnitude.InInterval` says in quarter units
when a number lies in it, and `ofRatio` of such a number is the magnitude (`ofRatio_of_inInterval`).
-/

namespace Marshal

/-! ### Rounding to the nearest natural number -/

namespace Binary64

/-- A quotient closer to `s` than to any other natural number, or halfway and `s` is even, rounds to `s`. -/
private theorem roundEven_eq {num den s : Nat} (hden : 0 < den) (hlow : 2 * s * den ≤ 2 * num + den)
    (hhigh : 2 * num ≤ 2 * s * den + den)
    (htie : s % 2 = 1 → 2 * s * den < 2 * num + den ∧ 2 * num < 2 * s * den + den) : roundEven num den = s := by
  have hnum : den * (num / den) + num % den = num := Nat.div_add_mod num den
  have hmod : num % den < den := Nat.mod_lt num hden
  unfold roundEven
  generalize num / den = q at hnum
  generalize num % den = r at hnum hmod
  subst hnum
  -- the quotient rounded down is `s` or the number before it
  have hq : q = s ∨ q + 1 = s := by
    have hle : q < s + 1 := by
      by_contra hge
      have : den * (s + 1) ≤ den * q := Nat.mul_le_mul_left den (by omega)
      nlinarith
    have hge : s ≤ q + 1 := by
      by_contra hlt
      have : den * (q + 2) ≤ den * s := Nat.mul_le_mul_left den (by omega)
      nlinarith
    omega
  rcases hq with rfl | rfl
  · have hr : 2 * r ≤ den := by nlinarith
    by_cases hlt : 2 * r < den
    · simp only [if_pos hlt]
    · have heq : 2 * r = den := by omega
      have heven : q % 2 = 0 := by
        by_contra hodd
        have hstrict := (htie (by omega)).2
        nlinarith
      simp only [heq, Nat.lt_irrefl, if_false, heven, if_true]
  · have hr : den ≤ 2 * r := by nlinarith
    by_cases hlt : den < 2 * r
    · simp only [if_neg (show ¬2 * r < den by omega), if_pos hlt]
    · have heq : 2 * r = den := by omega
      have hodd : q % 2 ≠ 0 := by
        intro heven
        have hstrict := (htie (by omega)).1
        nlinarith
      simp only [heq, Nat.lt_irrefl, if_false, if_neg hodd]

private theorem shiftFor_of_lt {units : Nat} (h : units < 2 ^ 53) : shiftFor units = 0 := by
  rw [shiftFor, if_pos]
  rwa [Nat.shiftLeft_eq, one_mul]

private theorem shiftFor_eq {units shift : Nat} (hlow : 2 ^ (52 + shift) ≤ units) (hhigh : units < 2 ^ (53 + shift)) :
    shiftFor units = shift := by
  cases shift with
  | zero => exact shiftFor_of_lt hhigh
  | succ e =>
    have hne : units ≠ 0 := by
      have : 0 < 2 ^ (52 + (e + 1)) := by positivity
      omega
    have hlog : units.log2 = 52 + (e + 1) := by
      rw [Nat.log2_eq_iff hne]
      exact ⟨hlow, by rwa [show 52 + (e + 1) + 1 = 53 + (e + 1) by omega]⟩
    have hge : ¬units < 1 <<< 53 := by
      have hpow : 2 ^ 53 ≤ 2 ^ (52 + (e + 1)) := Nat.pow_le_pow_right (by decide) (by omega)
      rw [Nat.shiftLeft_eq, one_mul]
      omega
    rw [shiftFor, if_neg hge, hlog]
    omega

/-- The shift of a quotient that lies in a binade, or below all of them. -/
private theorem shiftFor_div {n den shift : Nat} (hden : 0 < den) (hlow : shift = 0 ∨ 2 ^ 52 * (den * 2 ^ shift) ≤ n)
    (hhigh : n < 2 ^ 53 * (den * 2 ^ shift)) : shiftFor (n / den) = shift := by
  have hdiv : n / den < 2 ^ (53 + shift) := by
    rw [Nat.div_lt_iff_lt_mul hden]
    calc n < 2 ^ 53 * (den * 2 ^ shift) := hhigh
      _ = 2 ^ (53 + shift) * den := by ring
  rcases hlow with rfl | hlow
  · exact shiftFor_of_lt hdiv
  · refine shiftFor_eq ?_ hdiv
    rw [Nat.le_div_iff_mul_le hden]
    calc 2 ^ (52 + shift) * den = 2 ^ 52 * (den * 2 ^ shift) := by ring
      _ ≤ n := hlow

end Binary64

namespace Magnitude

private theorem shiftLeft_eq_mul_shiftLeft_one (n k : Nat) : n <<< k = n * 1 <<< k := by
  rw [Nat.shiftLeft_eq, Nat.shiftLeft_eq, one_mul]

theorem shiftRight_eq_div_shiftLeft_one (n k : Nat) : n >>> k = n / 1 <<< k := by
  rw [Nat.shiftRight_eq_div_pow, Nat.shiftLeft_eq, one_mul]

/-- The number of quarter units in one. -/
def quartersPerOne : Nat := 1 <<< 1076

theorem quartersPerOne_pos : 0 < quartersPerOne := by decide

theorem shiftLeft_eq_mul_quartersPerOne (n : Nat) : n <<< 1076 = n * quartersPerOne :=
  shiftLeft_eq_mul_shiftLeft_one n 1076

theorem mul_quartersPerOne (n : Nat) : n * quartersPerOne = 4 * n <<< 1074 := by
  rw [← shiftLeft_eq_mul_quartersPerOne, Nat.shiftLeft_add n 1074 2]
  omega

theorem quartersPerOne_eq {a b : Nat} (h : a + b = 1076) : quartersPerOne = 2 ^ a * 2 ^ b := by
  rw [quartersPerOne, ← h, Nat.shiftLeft_eq, one_mul, pow_add]

theorem units_eq (m : Magnitude) : m.units = m.significand * 2 ^ m.shift := Nat.shiftLeft_eq _ _

theorem significand_lt' (m : Magnitude) : m.significand < 2 ^ 53 := by
  have h := m.significand_lt
  rwa [Nat.shiftLeft_eq, one_mul] at h

theorem normal' (m : Magnitude) : 2 ^ 52 ≤ m.significand ∨ m.shift = 0 := by
  have h := m.normal
  rwa [Nat.shiftLeft_eq, one_mul] at h

private theorem ofParts?_self (m : Magnitude) : ofParts? m.significand m.shift = some m := by
  rw [ofParts?, dif_pos ⟨m.significand_lt, m.normal, m.shift_le⟩]

private theorem eq_of_parts {m m' : Magnitude} (hsig : m.significand = m'.significand) (hshift : m.shift = m'.shift) :
    m = m' := by
  have hself := m.ofParts?_self
  rw [hsig, hshift, ofParts?_self] at hself
  exact (Option.some.inj hself).symm

theorem eq_zero {m : Magnitude} (h : m.significand = 0) : m = zero :=
  eq_of_parts h (m.normal'.resolve_left (by omega))

/-! ### The interval -/

/-- Whether the magnitude is the least one of its binade, whose lower neighbour is closer. -/
def IsPower (m : Magnitude) : Prop := m.significand = 2 ^ 52 ∧ 0 < m.shift

theorem lowerGap_of_isPower {m : Magnitude} (h : m.IsPower) : m.lowerGap = 2 ^ m.shift := by
  have hif : m.significand = 1 <<< 52 ∧ 0 < m.shift := h
  rw [lowerGap, if_pos hif, Nat.shiftLeft_eq, one_mul]

theorem lowerGap_of_not_isPower {m : Magnitude} (h : ¬m.IsPower) : m.lowerGap = 2 * 2 ^ m.shift := by
  have hif : ¬(m.significand = 1 <<< 52 ∧ 0 < m.shift) := h
  rw [lowerGap, if_neg hif, Nat.shiftLeft_eq]

theorem upperGap_eq (m : Magnitude) : m.upperGap = 2 * 2 ^ m.shift := Nat.shiftLeft_eq _ _

theorem lowerGap_le_upperGap (m : Magnitude) : m.lowerGap ≤ m.upperGap := by
  by_cases h : m.IsPower
  · rw [lowerGap_of_isPower h, upperGap_eq]
    omega
  · rw [lowerGap_of_not_isPower h, upperGap_eq]

theorem quarters_eq (m : Magnitude) : m.quarters = 4 * (m.significand * 2 ^ m.shift) := by
  rw [quarters, units_eq]

theorem quarters_lt (m : Magnitude) : m.quarters < 2 ^ (55 + m.shift) := by
  have hlt : m.significand * 2 ^ m.shift < 2 ^ 53 * 2 ^ m.shift :=
    Nat.mul_lt_mul_of_pos_right m.significand_lt' (Nat.two_pow_pos _)
  rw [quarters_eq, pow_add]
  omega

section LastPlace

/-! Quotients are compared in units of the last place, `p` of which make one. -/

variable {m : Magnitude} {den p : Nat} (hp : den * 2 ^ m.shift = p)

include hp

theorem quarters_mul : m.quarters * den = 4 * (m.significand * p) := by
  rw [quarters_eq, ← hp]
  ring

theorem upperGap_mul : m.upperGap * den = 2 * p := by
  rw [upperGap_eq, ← hp]
  ring

theorem lowerGap_mul_of_isPower (h : m.IsPower) : m.lowerGap * den = p := by
  rw [lowerGap_of_isPower h, ← hp, Nat.mul_comm]

theorem lowerGap_mul_of_not_isPower (h : ¬m.IsPower) : m.lowerGap * den = 2 * p := by
  rw [lowerGap_of_not_isPower h, ← hp]
  ring

end LastPlace

/-- The gaps are less than the magnitude. -/
theorem lowerGap_lt (m : Magnitude) (hm : 0 < m.significand) : m.lowerGap + 2 ≤ m.quarters := by
  have hpow : 2 ^ m.shift ≤ m.significand * 2 ^ m.shift := Nat.le_mul_of_pos_left _ hm
  have hpos : 0 < 2 ^ m.shift := Nat.two_pow_pos m.shift
  have hle := m.lowerGap_le_upperGap
  rw [upperGap_eq] at hle
  rw [quarters_eq]
  omega

theorem upperGap_le (m : Magnitude) (hm : 0 < m.significand) : m.upperGap ≤ m.quarters := by
  have hpow : 2 ^ m.shift ≤ m.significand * 2 ^ m.shift := Nat.le_mul_of_pos_left _ hm
  rw [upperGap_eq, quarters_eq]
  omega

/-- A number of quarter units lies in the interval that rounds to the magnitude; the ends belong to an even
significand. -/
def InInterval (m : Magnitude) (y : ℚ) : Prop :=
  (m.quarters : ℚ) - m.lowerGap ≤ y ∧ y ≤ m.quarters + m.upperGap ∧
    (m.significand % 2 = 1 → (m.quarters : ℚ) - m.lowerGap < y ∧ y < m.quarters + m.upperGap)

/-- The interval for quotients, in natural numbers. -/
theorem inInterval_div {m : Magnitude} {num den : Nat} (hden : 0 < den) :
    m.InInterval (num / den) ↔ m.quarters * den ≤ num + m.lowerGap * den ∧ num ≤ m.quarters * den + m.upperGap * den ∧
      (m.significand % 2 = 1 → m.quarters * den < num + m.lowerGap * den ∧
        num < m.quarters * den + m.upperGap * den) := by
  have hpos : (0 : ℚ) < den := by exact_mod_cast hden
  unfold InInterval
  rw [le_div_iff₀ hpos, div_le_iff₀ hpos, lt_div_iff₀ hpos, div_lt_iff₀ hpos, sub_mul, sub_le_iff_le_add,
    sub_lt_iff_lt_add, add_mul]
  norm_cast

end Magnitude

open Magnitude

namespace Binary64

/-- The parts that `ofRatio` works out make the value. -/
private theorem ofRatio_of_parts {negative : Bool} {m : Magnitude} {num den : Nat} (shift significand : Nat)
    (hshift : shiftFor (num <<< 1074 / den) = shift)
    (hround : roundEven (num <<< 1074) (den * 2 ^ shift) = significand)
    (hm : (if significand < 2 ^ 53 then ofParts? significand shift else ofParts? (significand / 2) (shift + 1)) =
      some m) :
    ofRatio negative num den = finite negative m := by
  have hden : den <<< shift = den * 2 ^ shift := Nat.shiftLeft_eq den shift
  have hone : 1 <<< 53 = 2 ^ 53 := rfl
  unfold ofRatio
  simp only [hshift, hden, hround, hone]
  rw [hm]

/-- Whatever lies in the interval of a magnitude rounds to it. -/
theorem ofRatio_of_inInterval {m : Magnitude} {num den : Nat} (hden : 0 < den)
    (h : m.InInterval ((num * quartersPerOne : Nat) / den)) (negative : Bool) :
    ofRatio negative num den = finite negative m := by
  obtain ⟨hlow, hhigh, hstrict⟩ := (inInterval_div hden).1 h
  have hlt := m.significand_lt'
  -- in units of the last place, `p` of which make one
  obtain ⟨n, hn⟩ : ∃ n, num <<< 1074 = n := ⟨_, rfl⟩
  obtain ⟨p, hp⟩ : ∃ p, den * 2 ^ m.shift = p := ⟨_, rfl⟩
  have hppos : 0 < p := hp ▸ Nat.mul_pos hden (Nat.two_pow_pos _)
  have hquad : num * quartersPerOne = 4 * n := by
    rw [mul_quartersPerOne, hn]
  rw [hquad, quarters_mul hp, upperGap_mul hp] at hhigh hstrict
  rw [hquad, quarters_mul hp] at hlow
  have hle : (m.significand + 1) * p ≤ 2 ^ 53 * p := Nat.mul_le_mul_right p hlt
  rw [add_mul, one_mul] at hle
  -- the shift is that of the magnitude, unless the number lies below a power of two
  have hsame (hbinade : m.shift = 0 ∨ 2 ^ 52 * p ≤ n) (hlow : 2 * (m.significand * p) ≤ 2 * n + p)
      (hodd : m.significand % 2 = 1 → 2 * (m.significand * p) < 2 * n + p) :
      ofRatio negative num den = finite negative m := by
    have hbelow : n < 2 ^ 53 * p := by omega
    refine ofRatio_of_parts m.shift m.significand ?_ ?_ ?_
    · rw [hn]
      exact shiftFor_div hden (hp ▸ hbinade) (hp ▸ hbelow)
    · rw [hn, hp]
      refine roundEven_eq hppos ?_ ?_ fun htie => ?_
      · rw [Nat.mul_assoc]
        exact hlow
      · rw [Nat.mul_assoc]
        omega
      · rw [Nat.mul_assoc]
        have := hstrict htie
        have := hodd htie
        omega
    · rw [if_pos hlt, ofParts?_self]
  by_cases hpower : m.IsPower
  · rw [lowerGap_mul_of_isPower hp hpower] at hlow
    obtain ⟨hsig, hpos⟩ := hpower
    by_cases hbelow : 2 ^ 52 * p ≤ n
    · refine hsame (.inr hbelow) ?_ fun hodd => ?_
      · rw [hsig]
        omega
      · rw [hsig] at hodd
        cases hodd
    · -- the quotient rounds up to the power of two from the binade below
      obtain ⟨t, ht⟩ := Nat.exists_eq_succ_of_ne_zero (Nat.ne_of_gt hpos)
      have hhalf : p = 2 * (den * 2 ^ t) := by
        rw [← hp, ht, Nat.pow_succ]
        ring
      rw [hsig] at hlow
      refine ofRatio_of_parts t (2 ^ 53) ?_ ?_ ?_
      · rw [hn]
        exact shiftFor_div hden (.inr (by omega)) (by omega)
      · rw [hn]
        refine roundEven_eq (by omega) (by omega) (by omega) fun htie => ?_
        cases htie
      · rw [if_neg (Nat.lt_irrefl _), ← ofParts?_self, hsig, ht]
        rfl
  · rw [lowerGap_mul_of_not_isPower hp hpower] at hlow hstrict
    refine hsame ?_ (by omega) fun hodd => ?_
    · rcases m.normal' with hnormal | hzero
      · by_cases hshift : m.shift = 0
        · exact .inl hshift
        · have hne : m.significand ≠ 2 ^ 52 := fun heq => hpower ⟨heq, Nat.pos_of_ne_zero hshift⟩
          have hmul : (2 ^ 52 + 1) * p ≤ m.significand * p := Nat.mul_le_mul_right p (by omega)
          exact .inr (by omega)
      · exact .inl hzero
    · have := hstrict hodd
      omega

end Binary64

end Marshal
