import Marshal.Proofs.Number.Shortest

/-!
# What rounds to a magnitude

A quotient lies in the rounding interval of the magnitude that `ofRatio` makes of it, and so a decimal has a finite
value exactly if it lies in the interval (`Binary64.ofDecimal_eq_finite_iff`).
-/

namespace Marshal

open Magnitude

namespace Binary64

/-! ### Rounded quotients -/

/-- The natural number is no further from the quotient than half, and halfway only if it is even. -/
def RoundsEven (q num den : Nat) : Prop :=
  2 * (q * den) ≤ 2 * num + den ∧ 2 * num ≤ 2 * (q * den) + den ∧
    (q % 2 = 1 → 2 * (q * den) < 2 * num + den ∧ 2 * num < 2 * (q * den) + den)

private theorem roundsEven_roundEven (num : Nat) {den : Nat} (hden : 0 < den) :
    RoundsEven (roundEven num den) num den := by
  have hnum : den * (num / den) + num % den = num := Nat.div_add_mod num den
  have hmod : num % den < den := Nat.mod_lt num hden
  unfold RoundsEven roundEven
  generalize num / den = q at hnum
  generalize num % den = r at hnum hmod
  subst hnum
  have hq : q * den = den * q := Nat.mul_comm q den
  have hq' : (q + 1) * den = den * q + den := by ring
  dsimp only
  split
  · rw [hq]
    omega
  · split
    · rw [hq']
      omega
    · split
      · rw [hq]
        omega
      · rw [hq']
        omega

/-- With its shift taken off, a number has at most 53 bits, and 53 if any are taken off. -/
private theorem shiftFor_spec (units : Nat) :
    (shiftFor units = 0 ∨ 2 ^ (52 + shiftFor units) ≤ units) ∧ units < 2 ^ (53 + shiftFor units) := by
  have hone : 1 <<< 53 = 2 ^ 53 := rfl
  unfold shiftFor
  rw [hone]
  split
  · next h => exact ⟨.inl rfl, h⟩
  · next h =>
    have hne : units ≠ 0 := by omega
    have hlog : 53 ≤ units.log2 := (Nat.le_log2 hne).2 (by omega)
    rw [show 52 + (units.log2 - 52) = units.log2 by omega, show 53 + (units.log2 - 52) = units.log2 + 1 by omega]
    exact ⟨.inr (Nat.log2_self_le hne), Nat.lt_log2_self⟩

private theorem parts_of_ofParts? {significand shift : Nat} {m : Magnitude}
    (h : ofParts? significand shift = some m) : m.significand = significand ∧ m.shift = shift := by
  unfold ofParts? at h
  split at h
  · obtain rfl := Option.some.inj h
    exact ⟨rfl, rfl⟩
  · cases h

section Quotient

variable {m : Magnitude} {n den p : Nat}

/-- A quotient lies in the interval if it rounds to the significand, in units of the last place. -/
private theorem inInterval_of_significand (hden : 0 < den) (hp : den * 2 ^ m.shift = p)
    (habove : m.shift = 0 ∨ 2 ^ 52 * p ≤ n) (hround : RoundsEven m.significand n p) :
    m.InInterval ((4 * n : Nat) / den) := by
  obtain ⟨hlow, hhigh, hodd⟩ := hround
  rw [inInterval_div hden, quarters_mul hp, upperGap_mul hp]
  by_cases hpower : m.IsPower
  · -- no number of this binade lies below a power of two
    have hle := habove.resolve_left (Nat.ne_of_gt hpower.2)
    rw [hpower.1] at hhigh
    rw [lowerGap_mul_of_isPower hp hpower, hpower.1]
    omega
  · rw [lowerGap_mul_of_not_isPower hp hpower]
    omega

/-- A quotient lies in the interval of a power of two if it rounds up to it from the binade below. -/
private theorem inInterval_of_carry {shift : Nat} (hden : 0 < den) (hp : den * 2 ^ shift = p)
    (hbelow : n < 2 ^ 53 * p) (hround : RoundsEven (2 ^ 53) n p) (hsig : m.significand = 2 ^ 52)
    (hshift : m.shift = shift + 1) : m.InInterval ((4 * n : Nat) / den) := by
  have hpower : m.IsPower := ⟨hsig, by omega⟩
  have hdouble : den * 2 ^ m.shift = 2 * p := by
    rw [hshift, ← hp, Nat.pow_succ]
    ring
  obtain ⟨hlow, hhigh, -⟩ := hround
  rw [inInterval_div hden, quarters_mul hdouble, upperGap_mul hdouble, lowerGap_mul_of_isPower hdouble hpower, hsig]
  omega

/-- A quotient lies in the interval of what it rounds to. -/
private theorem inInterval_of_ofRatio {negative b : Bool} {num : Nat} (hden : 0 < den)
    (h : ofRatio negative num den = finite b m) :
    b = negative ∧ m.InInterval ((num * quartersPerOne : Nat) / den) := by
  obtain ⟨n, hn⟩ : ∃ n, num <<< 1074 = n := ⟨_, rfl⟩
  obtain ⟨hlow, hhigh⟩ := shiftFor_spec (n / den)
  have hone : 1 <<< 53 = 2 ^ 53 := rfl
  unfold ofRatio at h
  dsimp only at h
  rw [hn, hone] at h
  generalize shiftFor (n / den) = shift at hlow hhigh h
  -- in units of the last place, `p` of which make one
  obtain ⟨p, hp⟩ : ∃ p, den * 2 ^ shift = p := ⟨_, rfl⟩
  have hbelow : n < 2 ^ 53 * p := by
    rw [Nat.div_lt_iff_lt_mul hden] at hhigh
    calc n < 2 ^ (53 + shift) * den := hhigh
      _ = 2 ^ 53 * p := by rw [← hp]; ring
  have habove : shift = 0 ∨ 2 ^ 52 * p ≤ n := by
    refine hlow.imp_right fun hlow => ?_
    rw [Nat.le_div_iff_mul_le hden] at hlow
    calc 2 ^ 52 * p = 2 ^ (52 + shift) * den := by rw [← hp]; ring
      _ ≤ n := hlow
  rw [Nat.shiftLeft_eq, hp] at h
  have hround := roundsEven_roundEven n (hp ▸ Nat.mul_pos hden (Nat.two_pow_pos shift) : 0 < p)
  generalize roundEven n p = significand at hround h
  rw [mul_quartersPerOne, hn]
  split at h
  · next hm =>
    obtain ⟨rfl, rfl⟩ := finite.inj h
    refine ⟨rfl, ?_⟩
    split at hm
    · obtain ⟨rfl, rfl⟩ := parts_of_ofParts? hm
      exact inInterval_of_significand hden hp habove hround
    · next hge =>
      have hle : significand ≤ 2 ^ 53 := by
        by_contra hlt
        have hmul : (2 ^ 53 + 1) * p ≤ significand * p := Nat.mul_le_mul_right p (by omega)
        have hlow := hround.1
        omega
      obtain rfl : significand = 2 ^ 53 := by omega
      obtain ⟨hsig, hshift⟩ := parts_of_ofParts? hm
      exact inInterval_of_carry hden hp hbelow hround hsig hshift
  · cases h

end Quotient

/-! ### Rounded decimals -/

variable {digits : Nat} {exponent : Int} {m : Magnitude}

/-- The interval of zero ends at half a unit. -/
private theorem inInterval_zero {y : ℚ} (hy : 0 ≤ y) : zero.InInterval y ↔ y ≤ 2 := by
  have hends : (zero.quarters : ℚ) = 0 ∧ (zero.lowerGap : ℚ) = 2 ∧ (zero.upperGap : ℚ) = 2 := by
    norm_num [zero, quarters, units, lowerGap, upperGap]
  obtain ⟨hquarters, hlower, hupper⟩ := hends
  unfold InInterval
  rw [hquarters, hlower, hupper, zero_add]
  refine ⟨fun h => h.2.1, fun h => ⟨by linarith, h, fun hodd => absurd hodd (by decide)⟩⟩

theorem decimal_nonneg (digits : Nat) (exponent : Int) : 0 ≤ decimal digits exponent := by
  rw [decimal_eq_mul_step]
  exact mul_nonneg (Nat.cast_nonneg _) (step_pos _).le

/-- What is not worked out because it is small has the value zero. -/
private theorem ofDecimal_of_small (h : digits = 0 ∨ exponent + (Nat.toDigits 10 digits).length < -330)
    (negative : Bool) :
    ofDecimal negative digits exponent = finite negative zero ∧ zero.InInterval (decimal digits exponent) := by
  refine ⟨if_pos h, ?_⟩
  rw [inInterval_zero (decimal_nonneg digits exponent)]
  rcases h with rfl | hsmall
  · rw [decimal_eq_mul_step]
    norm_num
  · have hle := decimal_le_one hsmall
    linarith

/-- A decimal has a finite value exactly if it lies in the interval of the magnitude. -/
theorem ofDecimal_eq_finite_iff {negative b : Bool} :
    ofDecimal negative digits exponent = finite b m ↔ b = negative ∧ m.InInterval (decimal digits exponent) := by
  by_cases hsmall : digits = 0 ∨ exponent + (Nat.toDigits 10 digits).length < -330
  · obtain ⟨hzero, hin⟩ := ofDecimal_of_small hsmall negative
    constructor
    · intro h
      obtain ⟨rfl, rfl⟩ := finite.inj (hzero.symm.trans h)
      exact ⟨rfl, hin⟩
    · rintro ⟨rfl, h⟩
      by_cases hm : m.significand = 0
      · rw [eq_zero hm, hzero]
      · exact ofDecimal_of_inInterval (Nat.pos_of_ne_zero hm) h b
  obtain ⟨hne, hsmall⟩ := not_or.1 hsmall
  by_cases hlarge : 320 < exponent + (Nat.toDigits 10 digits).length
  · have hinfinite : ofDecimal negative digits exponent = infinite negative := by
      unfold ofDecimal
      rw [if_neg (not_or.2 ⟨hne, hsmall⟩), if_pos hlarge]
    constructor
    · intro h
      cases hinfinite.symm.trans h
    · rintro ⟨rfl, h⟩
      by_cases hm : m.significand = 0
      · obtain rfl := eq_zero hm
        obtain ⟨b, hb, hge⟩ := two_pow_le_decimal hne hlarge
        have hle := (inInterval_zero (decimal_nonneg digits exponent)).1 h
        have hlt : (2 : ℚ) ^ 1 < 2 ^ b := pow_lt_pow_right₀ (by norm_num) (by omega)
        linarith
      · exact ofDecimal_of_inInterval (Nat.pos_of_ne_zero hm) h b
  · obtain ⟨num, den, hden, hdecimal, hratio⟩ := exists_ofDecimal_eq_ofRatio hne hsmall hlarge negative
    rw [hratio, hdecimal]
    constructor
    · exact inInterval_of_ofRatio hden
    · rintro ⟨rfl, h⟩
      exact ofRatio_of_inInterval hden h b

end Binary64

end Marshal
