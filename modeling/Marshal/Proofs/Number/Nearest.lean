import Marshal.Proofs.Number.Rounded

/-!
# The nearest float

Neighbouring magnitudes are twice as far from each other as the rounding interval between them reaches, so what lies
in the interval of a magnitude is nearest to it, and the other way round.  The value that a decimal rounds to is the
nearest one, and of two that are as near the one with the even significand (`Binary64.nearest_of_ofDecimal`).
-/

namespace Marshal

open Magnitude

namespace Magnitude

/-! ### Neighbours -/

/-- Multiples of a power of two are that far apart. -/
private theorem add_two_pow_le {k n a : Nat} (h : k * 2 ^ a < n * 2 ^ a) : k * 2 ^ a + 2 ^ a ≤ n * 2 ^ a := by
  have hlt : k < n := Nat.lt_of_mul_lt_mul_right h
  calc k * 2 ^ a + 2 ^ a = (k + 1) * 2 ^ a := by ring
    _ ≤ n * 2 ^ a := Nat.mul_le_mul_right _ hlt

variable {m m' : Magnitude}

/-- A magnitude of a smaller shift is smaller, by half a last place of the larger one or more. -/
private theorem two_mul_units_add_le (h : m'.shift < m.shift) :
    2 * m'.units + 2 ^ m.shift ≤ 2 * (2 ^ 52 * 2 ^ m.shift) := by
  obtain ⟨t, ht⟩ := Nat.exists_eq_add_of_lt h
  have hlt := m'.significand_lt'
  have hone : 1 ≤ 2 ^ t := Nat.one_le_two_pow
  have hpow : 2 ^ m.shift = 2 * (2 ^ t * 2 ^ m'.shift) := by
    rw [ht]
    ring
  have hsig : m'.significand * 2 ^ m'.shift ≤ (2 ^ 53 - 1) * 2 ^ m'.shift := Nat.mul_le_mul_right _ (by omega)
  have hmul : (2 ^ 53 - 1) * 2 ^ m'.shift ≤ (2 ^ 53 - 1) * (2 ^ t * 2 ^ m'.shift) :=
    Nat.mul_le_mul_left _ (Nat.le_mul_of_pos_left _ hone)
  rw [units_eq, hpow]
  omega

/-- Units of the last place of a magnitude with a shift that is not larger make the other one. -/
private theorem units_eq_mul (h : m.shift ≤ m'.shift) : ∃ n, m'.units = n * 2 ^ m.shift := by
  obtain ⟨t, ht⟩ := Nat.exists_eq_add_of_le h
  refine ⟨m'.significand * 2 ^ t, ?_⟩
  rw [units_eq, ht]
  ring

private theorem two_pow_mul_le_units (h : m'.shift < m.shift) : 2 ^ 52 * 2 ^ m.shift ≤ m.units := by
  rw [units_eq]
  exact Nat.mul_le_mul_right _ (m.normal'.resolve_right (by omega))

/-- A larger magnitude lies beyond the interval by as much as the interval reaches up. -/
private theorem quarters_add_upperGap_le (h : m.quarters < m'.quarters) :
    m.quarters + 2 * m.upperGap ≤ m'.quarters := by
  have hlt : m.units < m'.units := by
    unfold quarters at h
    omega
  have hle : m.units + 2 ^ m.shift ≤ m'.units := by
    by_cases hshift : m.shift ≤ m'.shift
    · obtain ⟨n, hn⟩ := units_eq_mul hshift
      rw [hn, units_eq] at hlt ⊢
      exact add_two_pow_le hlt
    · have hbelow := two_mul_units_add_le (Nat.lt_of_not_le hshift)
      have habove := two_pow_mul_le_units (Nat.lt_of_not_le hshift)
      omega
  rw [upperGap_eq, quarters, quarters]
  omega

/-- A smaller magnitude lies beyond the interval by as much as the interval reaches down. -/
private theorem quarters_add_lowerGap_le (h : m'.quarters < m.quarters) :
    m'.quarters + 2 * m.lowerGap ≤ m.quarters := by
  have hlt : m'.units < m.units := by
    unfold quarters at h
    omega
  rw [quarters, quarters]
  by_cases hshift : m.shift ≤ m'.shift
  · obtain ⟨n, hn⟩ := units_eq_mul hshift
    have hgap := m.lowerGap_le_upperGap
    rw [hn, units_eq] at hlt ⊢
    rw [upperGap_eq] at hgap
    have hle := add_two_pow_le hlt
    omega
  · have hbelow := two_mul_units_add_le (Nat.lt_of_not_le hshift)
    by_cases hpower : m.IsPower
    · rw [lowerGap_of_isPower hpower, units_eq m, hpower.1]
      omega
    · have hnormal := m.normal'.resolve_right (by omega)
      have hsig : (2 ^ 52 + 1) * 2 ^ m.shift ≤ m.units := by
        rw [units_eq]
        refine Nat.mul_le_mul_right _ (Nat.lt_of_le_of_ne hnormal fun heq => hpower ⟨heq.symm, ?_⟩)
        omega
      rw [lowerGap_of_not_isPower hpower]
      omega

/-! The neighbours are magnitudes. -/

private theorem exists_above (h : m.shift < 2045) : ∃ m' : Magnitude, m'.quarters = m.quarters + 2 * m.upperGap := by
  have hone : 1 <<< 53 = 2 ^ 53 ∧ 1 <<< 52 = 2 ^ 52 := ⟨rfl, rfl⟩
  have hlt := m.significand_lt'
  by_cases hsig : m.significand + 1 < 2 ^ 53
  · refine ⟨⟨m.significand + 1, m.shift, hsig, ?_, m.shift_le⟩, ?_⟩
    · have hnormal := m.normal'
      rw [hone.2]
      omega
    · rw [quarters_eq, quarters_eq, upperGap_eq]
      ring
  · refine ⟨⟨2 ^ 52, m.shift + 1, by decide, .inl (by decide), h⟩, ?_⟩
    have htop : m.significand + 1 = 2 ^ 53 := by omega
    rw [quarters_eq, quarters_eq, upperGap_eq]
    calc 4 * (2 ^ 52 * 2 ^ (m.shift + 1)) = 4 * (2 ^ 53 * 2 ^ m.shift) := by ring
      _ = 4 * ((m.significand + 1) * 2 ^ m.shift) := by rw [htop]
      _ = 4 * (m.significand * 2 ^ m.shift) + 2 * (2 * 2 ^ m.shift) := by ring

private theorem exists_below (h : 0 < m.significand) :
    ∃ m' : Magnitude, m'.quarters + 2 * m.lowerGap = m.quarters := by
  have hone : 1 <<< 53 = 2 ^ 53 ∧ 1 <<< 52 = 2 ^ 52 := ⟨rfl, rfl⟩
  have hlt := m.significand_lt'
  have hle := m.shift_le
  by_cases hpower : m.IsPower
  · obtain ⟨t, ht⟩ := Nat.exists_eq_succ_of_ne_zero (Nat.ne_of_gt hpower.2)
    refine ⟨⟨2 ^ 53 - 1, t, by decide, .inl (by decide), by omega⟩, ?_⟩
    rw [lowerGap_of_isPower hpower, quarters_eq m, hpower.1, ht, quarters_eq]
    dsimp only
    rw [Nat.pow_succ]
    omega
  · refine ⟨⟨m.significand - 1, m.shift, by rw [hone.1]; omega, ?_, hle⟩, ?_⟩
    · rw [hone.2]
      by_cases hshift : m.shift = 0
      · exact .inr hshift
      · have hne : m.significand ≠ 2 ^ 52 := fun heq => hpower ⟨heq, Nat.pos_of_ne_zero hshift⟩
        have hnormal := m.normal'.resolve_right hshift
        omega
    · rw [quarters_eq, quarters_eq, lowerGap_of_not_isPower hpower]
      dsimp only
      obtain ⟨k, hk⟩ := Nat.exists_eq_succ_of_ne_zero (Nat.ne_of_gt h)
      rw [hk, Nat.succ_sub_one, Nat.succ_eq_add_one]
      ring

/-! ### Nearness -/

/-- Of two numbers the one is nearer up to the middle, the other one from the middle on. -/
private theorem abs_sub_le_iff {a b : ℚ} (hab : a < b) (y : ℚ) :
    (|y - a| ≤ |y - b| ↔ 2 * y ≤ a + b) ∧ (|y - b| ≤ |y - a| ↔ a + b ≤ 2 * y) := by
  have hpos : 0 < b - a := sub_pos.2 hab
  have hsq : (y - b) ^ 2 - (y - a) ^ 2 = (b - a) * (a + b - 2 * y) := by ring
  rw [← sq_le_sq, ← sq_le_sq, ← sub_nonneg, hsq, mul_nonneg_iff_of_pos_left hpos, sub_nonneg]
  refine ⟨Iff.rfl, ?_⟩
  rw [← sub_nonpos, hsq, mul_nonpos_iff_pos_imp_nonpos, sub_nonpos]
  exact ⟨fun h => h.1 hpos, fun h => ⟨fun _ => h, fun h' => by linarith⟩⟩

/-- No magnitude is nearer, and none but an even one is as near as another one; all in quarter units. -/
def IsNearest (m : Magnitude) (y : ℚ) : Prop := ∀ m' : Magnitude, |y - m.quarters| ≤ |y - m'.quarters| ∧
  (|y - m'.quarters| = |y - m.quarters| → m'.quarters ≠ m.quarters → m.significand % 2 = 0)

variable {y : ℚ}

/-- A magnitude is the nearest to what lies in its interval. -/
private theorem InInterval.isNearest (h : m.InInterval y) : m.IsNearest y := by
  obtain ⟨hlow, hhigh, hodd⟩ := h
  intro m'
  rcases Nat.lt_trichotomy m'.quarters m.quarters with hlt | heq | hlt
  · have hgap : (m'.quarters : ℚ) + 2 * m.lowerGap ≤ m.quarters := by exact_mod_cast quarters_add_lowerGap_le hlt
    have hcast : (m'.quarters : ℚ) < m.quarters := by exact_mod_cast hlt
    obtain ⟨hbelow, habove⟩ := abs_sub_le_iff hcast y
    refine ⟨habove.2 (by linarith), fun heq _ => ?_⟩
    have hmiddle := hbelow.1 heq.le
    by_contra hne
    have hstrict := (hodd (by omega)).1
    linarith
  · rw [heq]
    exact ⟨le_rfl, fun _ hne => absurd rfl hne⟩
  · have hgap : (m.quarters : ℚ) + 2 * m.upperGap ≤ m'.quarters := by exact_mod_cast quarters_add_upperGap_le hlt
    have hcast : (m.quarters : ℚ) < m'.quarters := by exact_mod_cast hlt
    obtain ⟨hbelow, habove⟩ := abs_sub_le_iff hcast y
    refine ⟨hbelow.2 (by linarith), fun heq _ => ?_⟩
    have hmiddle := habove.1 heq.le
    by_contra hne
    have hstrict := (hodd (by omega)).2
    linarith

private theorem upperGap_pos (m : Magnitude) : 0 < m.upperGap := by
  rw [upperGap_eq]
  positivity

private theorem lowerGap_pos (m : Magnitude) : 0 < m.lowerGap := by
  by_cases hpower : m.IsPower
  · rw [lowerGap_of_isPower hpower]
    positivity
  · rw [lowerGap_of_not_isPower hpower]
    positivity

/-- What a magnitude is nearest to lies below the middle to the next larger one. -/
private theorem le_of_isNearest (h : m.IsNearest y) (hshift : m.shift < 2045) :
    y ≤ m.quarters + m.upperGap ∧ (m.significand % 2 = 1 → y < m.quarters + m.upperGap) := by
  have hgap := m.upperGap_pos
  obtain ⟨m', hm'⟩ := exists_above hshift
  obtain ⟨hle, htie⟩ := h m'
  have hcast : (m'.quarters : ℚ) = m.quarters + 2 * m.upperGap := by exact_mod_cast hm'
  have hlt : (m.quarters : ℚ) < m'.quarters := by exact_mod_cast (by omega : m.quarters < m'.quarters)
  obtain ⟨hnear, hfar⟩ := abs_sub_le_iff hlt y
  have hmiddle := hnear.1 hle
  refine ⟨by linarith, fun hodd => ?_⟩
  by_contra hge
  have heven := htie (le_antisymm (hfar.2 (by linarith)) hle) (by omega)
  omega

/-- What a magnitude is nearest to lies above the middle to the next smaller one. -/
private theorem le_of_isNearest_of_pos (h : m.IsNearest y) (hm : 0 < m.significand) :
    (m.quarters : ℚ) - m.lowerGap ≤ y ∧ (m.significand % 2 = 1 → (m.quarters : ℚ) - m.lowerGap < y) := by
  have hgap := m.lowerGap_pos
  obtain ⟨m', hm'⟩ := exists_below hm
  obtain ⟨hle, htie⟩ := h m'
  have hcast : (m'.quarters : ℚ) + 2 * m.lowerGap = m.quarters := by exact_mod_cast hm'
  have hlt : (m'.quarters : ℚ) < m.quarters := by exact_mod_cast (by omega : m'.quarters < m.quarters)
  obtain ⟨hfar, hnear⟩ := abs_sub_le_iff hlt y
  have hmiddle := hnear.1 hle
  refine ⟨by linarith, fun hodd => ?_⟩
  by_contra hge
  have heven := htie (le_antisymm (hfar.2 (by linarith)) hle) (by omega)
  omega

/-- What a magnitude is nearest to lies in its interval, if there is a larger magnitude. -/
private theorem IsNearest.inInterval (h : m.IsNearest y) (hy : 0 ≤ y) (hshift : m.shift < 2045) : m.InInterval y := by
  have hhigh := le_of_isNearest h hshift
  have hlow : (m.quarters : ℚ) - m.lowerGap ≤ y ∧ (m.significand % 2 = 1 → (m.quarters : ℚ) - m.lowerGap < y) := by
    by_cases hm : m.significand = 0
    · have hquarters : m.quarters = 0 := by
        rw [quarters_eq, hm, Nat.zero_mul]
      have hgap : (0 : ℚ) ≤ m.lowerGap := Nat.cast_nonneg _
      rw [hquarters, hm, Nat.cast_zero]
      exact ⟨by linarith, fun hodd => absurd hodd (by decide)⟩
    · exact le_of_isNearest_of_pos h (Nat.pos_of_ne_zero hm)
  exact ⟨hlow.1, hhigh.1, fun hodd => ⟨hlow.2 hodd, hhigh.2 hodd⟩⟩

/-- The exact value. -/
def value (m : Magnitude) : ℚ := m.units / 2 ^ 1074

private theorem value_zero : zero.value = 0 := by
  norm_num [value, units, zero]

theorem value_nonneg (m : Magnitude) : 0 ≤ m.value := by
  unfold value
  positivity

private theorem value_mul (m : Magnitude) : m.value * quartersPerOne = m.quarters := by
  obtain ⟨k, hk⟩ : ∃ k, k = 1074 := ⟨_, rfl⟩
  have hone : quartersPerOne = 2 ^ k * 2 ^ 2 := quartersPerOne_eq (by omega)
  rw [value, quarters, hone, ← hk]
  push_cast
  field_simp

end Magnitude

/-- The number with the sign. -/
def signed (negative : Bool) (q : ℚ) : ℚ := if negative then -q else q

namespace Binary64

/-- The finite value is the nearest one to `x`, and none but an even significand is as near as another value. -/
structure Nearest (x : ℚ) (negative : Bool) (m : Magnitude) : Prop where
  closest (negative' : Bool) (m' : Magnitude) : |x - signed negative m.value| ≤ |x - signed negative' m'.value|
  even (negative' : Bool) (m' : Magnitude) : |x - signed negative' m'.value| = |x - signed negative m.value| →
    signed negative' m'.value ≠ signed negative m.value → m.significand % 2 = 0

private theorem abs_signed_sub (negative : Bool) (a b : ℚ) : |signed negative a - signed negative b| = |a - b| := by
  cases negative
  · rfl
  · show |-a - -b| = |a - b|
    rw [neg_sub_neg, abs_sub_comm]

private theorem abs_signed_sub_not (negative : Bool) {a b : ℚ} (ha : 0 ≤ a) (hb : 0 ≤ b) :
    |signed negative a - signed (!negative) b| = a + b := by
  cases negative
  · show |a - -b| = a + b
    rw [sub_neg_eq_add, abs_of_nonneg (by linarith)]
  · show |-a - b| = a + b
    rw [abs_of_nonpos (by linarith)]
    ring

/-- In quarter units the distances are as many times as large. -/
private theorem abs_sub_quarters (q : ℚ) (m : Magnitude) :
    |q * quartersPerOne - m.quarters| = |q - m.value| * quartersPerOne := by
  have hpos : (0 : ℚ) < quartersPerOne := by exact_mod_cast quartersPerOne_pos
  rw [← m.value_mul, ← sub_mul, abs_mul, abs_of_pos hpos]

variable {q : ℚ} {m : Magnitude} {negative : Bool}

private theorem signed_inj {a b : ℚ} : signed negative a = signed negative b ↔ a = b := by
  cases negative
  · exact Iff.rfl
  · exact neg_inj

/-- A value is no nearer with the other sign. -/
private theorem abs_sub_le_abs_signed_sub (hq : 0 ≤ q) (b : Bool) (m : Magnitude) :
    |q - m.value| ≤ |signed negative q - signed b m.value| := by
  by_cases hb : b = negative
  · rw [hb, abs_signed_sub]
  · have hv := value_nonneg m
    rw [Bool.eq_not.2 hb, abs_signed_sub_not negative hq hv]
    exact abs_le.2 ⟨by linarith, by linarith⟩

/-- What is nearest to a number is found among the values of its sign. -/
private theorem nearest_iff (hq : 0 ≤ q) :
    Nearest (signed negative q) negative m ↔ m.IsNearest (q * quartersPerOne) := by
  have hpos : (0 : ℚ) < quartersPerOne := by exact_mod_cast quartersPerOne_pos
  have hvalue (m' : Magnitude) : m'.quarters ≠ m.quarters ↔ m'.value ≠ m.value := by
    rw [Ne, Ne, ← Nat.cast_inj (R := ℚ), ← m.value_mul, ← m'.value_mul, mul_left_inj' hpos.ne']
  unfold IsNearest
  simp only [abs_sub_quarters, mul_le_mul_iff_of_pos_right hpos, mul_left_inj' hpos.ne', hvalue]
  constructor
  · intro h m'
    have hclosest := h.closest negative m'
    have heven := h.even negative m'
    rw [abs_signed_sub, abs_signed_sub] at hclosest heven
    exact ⟨hclosest, fun heq hne => heven heq (fun hsigned => hne (signed_inj.1 hsigned))⟩
  · intro h
    constructor
    · intro b m'
      rw [abs_signed_sub]
      exact (h m').1.trans (abs_sub_le_abs_signed_sub hq b m')
    · intro b m' heq hne
      rw [abs_signed_sub] at heq
      have htie : |q - m'.value| = |q - m.value| := le_antisymm (heq ▸ abs_sub_le_abs_signed_sub hq b m') (h m').1
      refine (h m').2 htie fun hvalue => hne ?_
      by_cases hb : b = negative
      · rw [hb, hvalue]
      · -- zero would be nearer than a value with either sign
        have hzero := (h zero).1
        rw [Bool.eq_not.2 hb, abs_signed_sub_not negative hq (value_nonneg m'), hvalue] at heq
        rw [value_zero, sub_zero, abs_of_nonneg hq, ← heq] at hzero
        have hv : m.value = 0 := le_antisymm (by linarith) (value_nonneg m)
        rw [hvalue, hv]
        cases b <;> cases negative <;> simp [signed]

/-- The finite value of a decimal is the nearest one. -/
theorem nearest_of_ofDecimal {digits : Nat} {exponent : Int} {b : Bool}
    (h : ofDecimal negative digits exponent = finite b m) :
    b = negative ∧ Nearest (signed negative (digits * 10 ^ exponent)) negative m := by
  obtain ⟨hb, hin⟩ := ofDecimal_eq_finite_iff.1 h
  exact ⟨hb, (nearest_iff (by positivity)).2 hin.isNearest⟩

/-- The nearest value is that of the decimal, up to the sign of zero, if it is not the last one before infinity. -/
theorem ofDecimal_of_nearest {digits : Nat} {exponent : Int} {b : Bool} (hshift : m.shift < 2045)
    (h : Nearest (signed negative (digits * 10 ^ exponent)) b m) :
    ofDecimal negative digits exponent = finite negative m ∧ signed negative m.value = signed b m.value := by
  have hq : (0 : ℚ) ≤ digits * 10 ^ exponent := by positivity
  have hsigned : signed negative m.value = signed b m.value := by
    by_cases hb : b = negative
    · rw [hb]
    · -- a value of the other sign is zero
      have hzero := h.closest negative zero
      rw [Bool.eq_not.2 hb, abs_signed_sub_not negative hq (value_nonneg m), abs_signed_sub, value_zero, sub_zero,
        abs_of_nonneg hq] at hzero
      have hv : m.value = 0 := le_antisymm (by linarith) (value_nonneg m)
      rw [hv]
      cases negative <;> cases b <;> simp [signed]
  have hnearest : Nearest (signed negative (digits * 10 ^ exponent)) negative m :=
    ⟨hsigned ▸ h.closest, hsigned ▸ h.even⟩
  refine ⟨ofDecimal_eq_finite_iff.2 ⟨rfl, ?_⟩, hsigned⟩
  exact ((nearest_iff hq).1 hnearest).inInterval (decimal_nonneg digits exponent) hshift

end Binary64

end Marshal
