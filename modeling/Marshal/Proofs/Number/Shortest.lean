import Mathlib.Data.Nat.Cast.Order.Field
import Marshal.Proofs.Number.Lexemes
import Marshal.Proofs.Number.Rounding

/-!
# The shortest text

The digits of a float read back to it.  What is read is a decimal in the rounding interval of the magnitude, for
either a shorter decimal was found there, or the interval is wider than the seventeenth decimal place.
-/

namespace Marshal

namespace Magnitude

/-! ### Decimals -/

/-- The value of `digits * 10 ^ exponent`, in quarter units. -/
def decimal (digits : Nat) (exponent : Int) : ℚ := digits * 10 ^ exponent * quartersPerOne

/-- Zeros at the end of the digits count for the exponent. -/
private theorem decimal_mul_pow (digits places : Nat) (exponent : Int) :
    decimal (digits * 10 ^ places) exponent = decimal digits (exponent + places) := by
  unfold decimal
  rw [zpow_add₀ (by norm_num), zpow_natCast]
  push_cast
  ring

private theorem decimal_ofNat (digits exponent : Nat) :
    decimal digits exponent = (digits * 10 ^ exponent * quartersPerOne : Nat) := by
  unfold decimal
  rw [zpow_natCast]
  push_cast
  ring

private theorem decimal_neg (digits places : Nat) :
    decimal digits (-places) = (digits * quartersPerOne : Nat) / (10 ^ places : Nat) := by
  unfold decimal
  rw [zpow_neg, zpow_natCast]
  push_cast
  ring

private theorem quotientOf_div (digits : Nat) (exponent : Int) :
    0 < (quotientOf digits exponent).2 ∧
      ((quotientOf digits exponent).1 : ℚ) / (quotientOf digits exponent).2 = decimal digits exponent := by
  unfold quotientOf
  by_cases h : 0 ≤ exponent
  · obtain ⟨n, rfl⟩ := Int.eq_ofNat_of_zero_le h
    rw [if_pos h]
    refine ⟨Nat.one_pos, ?_⟩
    rw [decimal_ofNat, shiftLeft_eq_mul_quartersPerOne, Nat.cast_one, div_one]
    rfl
  · obtain ⟨n, rfl⟩ : ∃ n : Nat, exponent = -n := ⟨(-exponent).toNat, by omega⟩
    rw [if_neg h]
    have htoNat : (- -(n : Int)).toNat = n := by omega
    simp only [htoNat, shiftLeft_eq_mul_quartersPerOne]
    exact ⟨Nat.pow_pos (by decide), (decimal_neg digits n).symm⟩

private theorem readsBack_iff (m : Magnitude) (hm : 0 < m.significand) (digits : Nat) (exponent : Int) :
    m.readsBack digits exponent = true ↔ m.InInterval (decimal digits exponent) := by
  obtain ⟨hden, hdiv⟩ := quotientOf_div digits exponent
  have hgap := m.lowerGap_lt hm
  rw [← hdiv, inInterval_div hden]
  unfold readsBack
  rcases quotientOf digits exponent with ⟨num, den⟩
  have hsub : (m.quarters - m.lowerGap) * den + m.lowerGap * den = m.quarters * den := by
    rw [← Nat.add_mul, Nat.sub_add_cancel (by omega)]
  have hadd : (m.quarters + m.upperGap) * den = m.quarters * den + m.upperGap * den := Nat.add_mul ..
  by_cases heven : m.significand % 2 = 0
  · simp only [if_pos heven, Bool.and_eq_true, decide_eq_true_iff]
    omega
  · simp only [if_neg heven, Bool.and_eq_true, decide_eq_true_iff]
    omega

/-! ### The grid of a decimal place -/

/-- One step of the grid of `10 ^ exponent`, in quarter units. -/
def step (exponent : Int) : ℚ := 10 ^ exponent * quartersPerOne

theorem decimal_eq_mul_step (digits : Nat) (exponent : Int) : decimal digits exponent = digits * step exponent :=
  mul_assoc ..

theorem step_pos (exponent : Int) : 0 < step exponent := by
  have hone : (0 : ℚ) < quartersPerOne := by exact_mod_cast quartersPerOne_pos
  unfold step
  positivity

private theorem step_add (exponent : Int) (places : Nat) :
    step (exponent + places) = step exponent * 10 ^ places := by
  unfold step
  rw [zpow_add₀ (by norm_num), zpow_natCast]
  ring

private theorem step_mono {a b : Int} (h : a ≤ b) : step a ≤ step b := by
  unfold step
  gcongr
  norm_num

/-- The magnitude lies between two neighbours of the grid. -/
private theorem floorAt_spec (m : Magnitude) (exponent : Int) :
    decimal (m.floorAt exponent) exponent ≤ m.quarters ∧
    (m.quarters : ℚ) < decimal (m.floorAt exponent + 1) exponent := by
  -- a floor of `a / b` that stands for `a' / b'`
  have hfloor {a b : Nat} {c : ℚ} (hb : 0 < b) (hc : (a : ℚ) / b = m.quarters / c) (hpos : 0 < c) :
      (a / b : Nat) * c ≤ m.quarters ∧ (m.quarters : ℚ) < ((a / b : Nat) + 1 : Nat) * c := by
    have hlow : ((a / b : Nat) : ℚ) ≤ a / b := Nat.cast_div_le
    have hhigh : (a : ℚ) / b < ((a / b : Nat) + 1 : Nat) := by
      rw [div_lt_iff₀ (by exact_mod_cast hb)]
      exact_mod_cast Nat.lt_mul_of_div_lt (Nat.lt_succ_self _) hb
    rw [hc] at hlow hhigh
    exact ⟨(le_div_iff₀ hpos).1 hlow, (div_lt_iff₀ hpos).1 hhigh⟩
  rw [decimal_eq_mul_step, decimal_eq_mul_step]
  unfold floorAt
  by_cases h : 0 ≤ exponent
  · obtain ⟨n, rfl⟩ := Int.eq_ofNat_of_zero_le h
    have hpow : Nat.pow 10 n <<< 1076 = 10 ^ n * quartersPerOne := shiftLeft_eq_mul_quartersPerOne _
    rw [if_pos h, Int.toNat_natCast, hpow]
    refine hfloor (Nat.mul_pos (by positivity) quartersPerOne_pos) ?_ (step_pos _)
    rw [step, zpow_natCast]
    push_cast
    rfl
  · obtain ⟨n, rfl⟩ : ∃ n : Nat, exponent = -n := ⟨(-exponent).toNat, by omega⟩
    have htoNat : (- -(n : Int)).toNat = n := by omega
    have hshift : (m.quarters * Nat.pow 10 n) >>> 1076 = m.quarters * 10 ^ n / quartersPerOne :=
      shiftRight_eq_div_shiftLeft_one _ 1076
    rw [if_neg h, htoNat, hshift]
    refine hfloor quartersPerOne_pos ?_ (step_pos _)
    have hone : (quartersPerOne : ℚ) ≠ 0 := by exact_mod_cast quartersPerOne_pos.ne'
    rw [step, zpow_neg, zpow_natCast]
    push_cast
    field_simp

/-! ### The top decimal place -/

private theorem pow_ten_estimate : ∀ k < 1077, Nat.pow 10 (k * 30103 / 100000) ≤ 10 * Nat.pow 2 k ∧
    Nat.pow 2 k ≤ 10 * Nat.pow 10 ((k * 30103 + 99999) / 100000) := by
  decide +kernel

/-- The estimate of the top decimal place is not too high. -/
private theorem step_estimate_le {log : Nat} (hlog : log < 2100) :
    step (((log : Int) - 1076) * 30103 / 100000 - 1) ≤ 2 ^ log := by
  by_cases hle : 1076 ≤ log
  · obtain ⟨a, k, ha, rfl⟩ : ∃ a k, a = 1076 ∧ log = a + k := ⟨1076, log - 1076, rfl, by omega⟩
    have hest : (10 : ℚ) ^ (k * 30103 / 100000) ≤ 10 * 2 ^ k := by exact_mod_cast (pow_ten_estimate k (by omega)).1
    have hguess : (((a + k : Nat) : Int) - 1076) * 30103 / 100000 = (k * 30103 / 100000 : Nat) := by omega
    have hone : (quartersPerOne : ℚ) = 2 ^ a := by
      rw [quartersPerOne_eq (show a + 0 = 1076 from ha)]
      push_cast
      ring
    rw [hguess, step, zpow_sub₀ (by norm_num), zpow_natCast, zpow_one, hone, pow_add, mul_comm ((2 : ℚ) ^ a)]
    gcongr
    rw [div_le_iff₀ (by norm_num), mul_comm _ (10 : ℚ)]
    exact hest
  · obtain ⟨k, hk⟩ := Nat.exists_eq_add_of_le (Nat.le_of_not_le hle)
    have hest : (2 : ℚ) ^ k ≤ 10 * 10 ^ ((k * 30103 + 99999) / 100000) := by
      exact_mod_cast (pow_ten_estimate k (by omega)).2
    have hguess : ((log : Int) - 1076) * 30103 / 100000 - 1 = -((k * 30103 + 99999) / 100000 + 1 : Nat) := by omega
    have hone : (quartersPerOne : ℚ) = 2 ^ log * 2 ^ k := by exact_mod_cast quartersPerOne_eq hk.symm
    rw [hguess, step, zpow_neg, zpow_natCast, hone, pow_succ, mul_comm, ← div_eq_mul_inv, div_le_iff₀ (by positivity)]
    gcongr
    rw [mul_comm]
    exact hest

private theorem step_decimalTop_le (m : Magnitude) (hm : 0 < m.significand) :
    step (m.decimalTop - 1) ≤ m.quarters := by
  have hne : m.quarters ≠ 0 := by
    have := m.lowerGap_lt hm
    omega
  -- a grid whose floor is not zero has a step of at most the magnitude
  have hfloor {e : Int} (h : m.floorAt e ≠ 0) : step e ≤ m.quarters := by
    have hone : (1 : ℚ) ≤ m.floorAt e := by exact_mod_cast Nat.one_le_iff_ne_zero.2 h
    calc step e = 1 * step e := (one_mul _).symm
      _ ≤ m.floorAt e * step e := mul_le_mul_of_nonneg_right hone (step_pos e).le
      _ = decimal (m.floorAt e) e := (decimal_eq_mul_step ..).symm
      _ ≤ m.quarters := (m.floorAt_spec e).1
  unfold decimalTop
  dsimp only
  split
  · have hlog : m.quarters.log2 < 2100 := by
      have hlt := (Nat.log2_lt hne).2 m.quarters_lt
      have hshift := m.shift_le
      omega
    calc step _ ≤ 2 ^ m.quarters.log2 := step_estimate_le hlog
      _ ≤ m.quarters := by exact_mod_cast Nat.log2_self_le hne
  · next hguess =>
    split
    · rw [add_sub_cancel_right]
      exact hfloor hguess
    · next hnext =>
      rw [show (2 : Int) = 1 + 1 from rfl, ← add_assoc, add_sub_cancel_right]
      exact hfloor hnext

/-! ### Reading back -/

private theorem readsBack_of_onGrid? {m : Magnitude} {exponent : Int} {p : Nat × Int}
    (h : m.onGrid? exponent = some p) : m.readsBack p.1 p.2 = true := by
  unfold onGrid? at h
  dsimp only at h
  cases hlow : m.readsBack (m.floorAt exponent) exponent <;>
    cases hhigh : m.readsBack (m.floorAt exponent + 1) exponent <;>
    simp only [hlow, hhigh, Option.some.injEq, reduceCtorEq] at h
  · subst h
    exact hhigh
  · subst h
    exact hlow
  · subst h
    dsimp only
    split
    · exact hhigh
    · exact hlow

/-- A grid of sixteen places below the magnitude has a point in the interval. -/
private theorem onGrid?_ne_none (m : Magnitude) (hm : 0 < m.significand) {exponent : Int}
    (h : step exponent * 10 ^ 16 ≤ m.quarters) : m.onGrid? exponent ≠ none := by
  obtain ⟨hlow, hhigh⟩ := m.floorAt_spec exponent
  have hnext : decimal (m.floorAt exponent + 1) exponent = decimal (m.floorAt exponent) exponent + step exponent := by
    rw [decimal_eq_mul_step, decimal_eq_mul_step]
    push_cast
    ring
  -- the lower neighbour lies in the interval, or the magnitude is closer to the upper one
  have hone :
      m.readsBack (m.floorAt exponent) exponent = true ∨ m.readsBack (m.floorAt exponent + 1) exponent = true := by
    rw [readsBack_iff m hm, readsBack_iff m hm, hnext]
    rw [hnext] at hhigh
    obtain ⟨u, hu⟩ : ∃ u, 2 ^ m.shift = u := ⟨_, rfl⟩
    have hpos : (0 : ℚ) < u := by exact_mod_cast hu ▸ Nat.two_pow_pos m.shift
    have hquarters : (m.quarters : ℚ) = 4 * m.significand * u := by
      rw [quarters_eq, hu]
      push_cast
      ring
    have hupper : (m.upperGap : ℚ) = 2 * u := by
      rw [upperGap_eq, hu]
      push_cast
      rfl
    have hsig : (m.significand : ℚ) ≤ 2 ^ 53 := by exact_mod_cast m.significand_lt'.le
    have hbound : (m.significand : ℚ) * u ≤ 2 ^ 53 * u := by gcongr
    unfold InInterval
    by_cases hpower : m.IsPower
    · have hlower : (m.lowerGap : ℚ) = u := by
        rw [lowerGap_of_isPower hpower, hu]
      have hexact : (m.significand : ℚ) = 2 ^ 52 := by exact_mod_cast hpower.1
      rw [hexact] at hquarters
      by_cases hclose : (m.quarters : ℚ) - m.lowerGap < decimal (m.floorAt exponent) exponent
      · exact .inl ⟨hclose.le, by linarith, fun _ => ⟨hclose, by linarith⟩⟩
      · exact .inr ⟨by linarith, by linarith, fun _ => ⟨by linarith, by linarith⟩⟩
    · have hlower : (m.lowerGap : ℚ) = 2 * u := by
        rw [lowerGap_of_not_isPower hpower, hu]
        push_cast
        rfl
      by_cases hclose : (m.quarters : ℚ) - m.lowerGap < decimal (m.floorAt exponent) exponent
      · exact .inl ⟨hclose.le, by linarith, fun _ => ⟨hclose, by linarith⟩⟩
      · exact .inr ⟨by linarith, by linarith, fun _ => ⟨by linarith, by linarith⟩⟩
  unfold onGrid?
  dsimp only
  cases hl : m.readsBack (m.floorAt exponent) exponent <;>
    cases hh : m.readsBack (m.floorAt exponent + 1) exponent <;> simp [hl, hh] at hone ⊢

/-- The digits of a magnitude round to it. -/
private theorem inInterval_shortest (m : Magnitude) (hm : 0 < m.significand) :
    m.InInterval (decimal m.shortest.1 m.shortest.2) := by
  rw [← readsBack_iff m hm]
  unfold shortest
  dsimp only
  cases hfind : (List.range 17).findSome? fun (n : Nat) => m.onGrid? (m.decimalTop - (n + 1)) with
  | some p =>
    obtain ⟨n, -, hn⟩ := List.exists_of_findSome?_eq_some hfind
    exact readsBack_of_onGrid? hn
  | none =>
    have hlast := List.findSome?_eq_none_iff.1 hfind 16 (by decide)
    have hstep : step (m.decimalTop - 1) = step (m.decimalTop - (((16 : Nat) : Int) + 1)) * 10 ^ 16 := by
      rw [← step_add]
      congr 1
      omega
    exact absurd hlast (m.onGrid?_ne_none hm (hstep ▸ m.step_decimalTop_le hm))

end Magnitude

/-! ### Reading decimals -/

open Magnitude

namespace Binary64

private theorem quartersPerOne_le : ∃ a, a = 331 ∧ quartersPerOne ≤ Nat.pow 10 a := ⟨_, rfl, by decide +kernel⟩

private theorem pow_two_le : ∃ a b, a = 320 ∧ b = 2101 ∧ Nat.pow 2 b ≤ Nat.pow 10 a * quartersPerOne :=
  ⟨_, _, rfl, rfl, by decide +kernel⟩

/-- What is so small that it is not worked out is less than a unit. -/
theorem decimal_le_one {digits : Nat} {exponent : Int} (h : exponent + (Nat.toDigits 10 digits).length < -330) :
    decimal digits exponent ≤ 1 := by
  obtain ⟨a, ha, hpow⟩ := quartersPerOne_le
  have hpos := step_pos exponent
  have hupper : (digits : ℚ) ≤ 10 ^ (Nat.toDigits 10 digits).length := by
    exact_mod_cast (lt_pow_length_toDigits digits).le
  have hone : (quartersPerOne : ℚ) ≤ 10 ^ a := by exact_mod_cast hpow
  rw [decimal_eq_mul_step]
  calc (digits : ℚ) * step exponent ≤ 10 ^ (Nat.toDigits 10 digits).length * step exponent := by gcongr
    _ = step (exponent + (Nat.toDigits 10 digits).length) := by rw [step_add, mul_comm]
    _ ≤ step (-a) := step_mono (by omega)
    _ = quartersPerOne / 10 ^ a := by rw [step, zpow_neg, zpow_natCast, mul_comm, div_eq_mul_inv]
    _ ≤ 1 := (div_le_one (by positivity)).2 hone

/-- What is so large that it is not worked out is more than any finite magnitude. -/
theorem two_pow_le_decimal {digits : Nat} {exponent : Int} (hne : digits ≠ 0)
    (h : 320 < exponent + (Nat.toDigits 10 digits).length) :
    ∃ b, b = 2101 ∧ (2 : ℚ) ^ b ≤ decimal digits exponent := by
  obtain ⟨a, b, ha, hb, hle⟩ := pow_two_le
  refine ⟨b, hb, ?_⟩
  have hlen := Nat.length_toDigits_pos (b := 10) (n := digits)
  have hpos := step_pos exponent
  have hlower : (10 : ℚ) ^ ((Nat.toDigits 10 digits).length - 1) ≤ digits := by
    exact_mod_cast pow_length_toDigits_le (Nat.pos_of_ne_zero hne)
  have hpow : (2 : ℚ) ^ b ≤ 10 ^ a * quartersPerOne := by exact_mod_cast hle
  rw [decimal_eq_mul_step]
  calc (2 : ℚ) ^ b ≤ step a := by rwa [step, zpow_natCast]
    _ ≤ step (exponent + ((Nat.toDigits 10 digits).length - 1 : Nat)) := step_mono (by omega)
    _ = 10 ^ ((Nat.toDigits 10 digits).length - 1) * step exponent := by rw [step_add, mul_comm]
    _ ≤ digits * step exponent := by gcongr

/-- A decimal in the interval of a magnitude is neither too small nor too large to be worked out. -/
private theorem top_of_inInterval {m : Magnitude} (hm : 0 < m.significand) {digits : Nat} {exponent : Int}
    (h : m.InInterval (decimal digits exponent)) :
    digits ≠ 0 ∧ ¬exponent + (Nat.toDigits 10 digits).length < -330 ∧
      ¬320 < exponent + (Nat.toDigits 10 digits).length := by
  obtain ⟨hlow, hhigh, -⟩ := h
  have htwo : (2 : ℚ) ≤ decimal digits exponent := by
    have hgap : (m.lowerGap : ℚ) + 2 ≤ m.quarters := by exact_mod_cast m.lowerGap_lt hm
    linarith
  have hne : digits ≠ 0 := by
    rintro rfl
    rw [decimal_eq_mul_step, Nat.cast_zero, zero_mul] at htwo
    linarith
  refine ⟨hne, fun hsmall => ?_, fun hlarge => ?_⟩
  · have hle := decimal_le_one hsmall
    linarith
  · obtain ⟨b, hb, hge⟩ := two_pow_le_decimal hne hlarge
    have hgap : (m.upperGap : ℚ) ≤ m.quarters := by exact_mod_cast m.upperGap_le hm
    have hquarters : (m.quarters : ℚ) < 2 ^ (55 + m.shift) := by exact_mod_cast m.quarters_lt
    have hlt : decimal digits exponent < 2 ^ b := by
      calc decimal digits exponent ≤ 2 * m.quarters := by linarith
        _ < 2 * 2 ^ (55 + m.shift) := by gcongr
        _ = 2 ^ (56 + m.shift) := by ring
        _ ≤ 2 ^ b := by
          have hshift := m.shift_le
          gcongr
          · norm_num
          · omega
    linarith

/-- A decimal that is worked out is rounded as a quotient. -/
theorem exists_ofDecimal_eq_ofRatio {digits : Nat} {exponent : Int} (hne : digits ≠ 0)
    (hsmall : ¬exponent + (Nat.toDigits 10 digits).length < -330)
    (hlarge : ¬320 < exponent + (Nat.toDigits 10 digits).length) (negative : Bool) : ∃ num den, 0 < den ∧
      decimal digits exponent = (num * quartersPerOne : Nat) / (den : Nat) ∧
      ofDecimal negative digits exponent = ofRatio negative num den := by
  unfold ofDecimal
  dsimp only
  rw [if_neg (not_or.2 ⟨hne, hsmall⟩), if_neg hlarge]
  by_cases hexp : 0 ≤ exponent
  · obtain ⟨n, rfl⟩ := Int.eq_ofNat_of_zero_le hexp
    rw [if_pos hexp, Int.toNat_natCast]
    refine ⟨_, 1, Nat.one_pos, ?_, rfl⟩
    rw [decimal_ofNat, Nat.cast_one, div_one]
    rfl
  · obtain ⟨n, rfl⟩ : ∃ n : Nat, exponent = -n := ⟨(-exponent).toNat, by omega⟩
    have htoNat : (- -(n : Int)).toNat = n := by omega
    rw [if_neg hexp, htoNat]
    exact ⟨digits, _, Nat.pow_pos (by decide), decimal_neg digits n, rfl⟩

theorem ofDecimal_of_inInterval {m : Magnitude} (hm : 0 < m.significand) {digits : Nat} {exponent : Int}
    (h : m.InInterval (decimal digits exponent)) (negative : Bool) :
    ofDecimal negative digits exponent = finite negative m := by
  obtain ⟨hne, hsmall, hlarge⟩ := top_of_inInterval hm h
  obtain ⟨num, den, hden, hdecimal, hratio⟩ := exists_ofDecimal_eq_ofRatio hne hsmall hlarge negative
  rw [hratio]
  exact ofRatio_of_inInterval hden (hdecimal ▸ h) negative

/-! ### Positional text -/

private theorem eq_dropTrailingZeros_append (digits : List Char) :
    ∃ zeros, digits = dropTrailingZeros digits ++ List.replicate zeros '0' := by
  have hsplit := List.takeWhile_append_dropWhile (p := fun c => decide (c = '0')) (l := digits.reverse)
  have hall : ∀ c ∈ digits.reverse.takeWhile fun c => decide (c = '0'), c = '0' := by
    intro c hc
    simpa using List.all_eq_true.1 List.all_takeWhile c hc
  generalize digits.reverse.takeWhile (fun c => decide (c = '0')) = zeros at hsplit hall
  refine ⟨zeros.length, ?_⟩
  rw [← List.reverse_inj, List.reverse_append, List.reverse_replicate, dropTrailingZeros, List.reverse_reverse,
    ← List.eq_replicate_iff.2 ⟨rfl, hall⟩]
  exact hsplit.symm

/-- Digits written positionally are a number with the value of the digits. -/
private theorem positional_spec {digits : List Char} (hdigits : isDigits digits = true)
    (hzero : digits.head? ≠ some '0') (exponent : Int) :
    ∃ whole fraction, positional digits exponent = whole ++ (fraction ++ []) ∧ IsWhole whole ∧
      IsFraction fraction ∧ decimal (digitsValue (whole ++ fractionDigits fraction))
        (0 - (fractionDigits fraction).length) = decimal (digitsValue digits) exponent := by
  obtain ⟨hne, hall⟩ := isDigits_iff.1 hdigits
  unfold positional
  by_cases hexp : 0 ≤ exponent
  · obtain ⟨n, rfl⟩ := Int.eq_ofNat_of_zero_le hexp
    rw [if_pos hexp, Int.toNat_natCast]
    refine ⟨digits ++ List.replicate n '0', [], by simp, .digits ?_ ?_, .none, ?_⟩
    · refine isDigits_iff.2 ⟨by simp [hne], fun c hc => ?_⟩
      rcases List.mem_append.1 hc with hc | hc
      · exact hall c hc
      · obtain ⟨-, rfl⟩ := List.mem_replicate.1 hc
        rfl
    · rwa [List.head?_append_of_ne_nil _ hne]
    · show decimal (digitsValue ((digits ++ List.replicate n '0') ++ [])) (0 - ([] : List Char).length) = _
      rw [List.append_nil, digitsValue_append_zeros, List.length_nil, decimal_mul_pow]
      simp
  · obtain ⟨n, rfl⟩ : ∃ n : Nat, exponent = -n := ⟨(-exponent).toNat, by omega⟩
    have htoNat : (- -(n : Int)).toNat = n := by omega
    rw [if_neg hexp]
    dsimp only
    rw [htoNat]
    by_cases hpoint : n < digits.length
    · -- the point stands between two digits
      rw [if_pos hpoint]
      have hlen : (digits.drop (digits.length - n)).length = n := by
        rw [List.length_drop]
        omega
      refine ⟨digits.take (digits.length - n), '.' :: digits.drop (digits.length - n),
        by simp, .digits ?_ ?_, .digits ?_, ?_⟩
      · refine isDigits_iff.2 ⟨?_, fun c hc => hall c (List.mem_of_mem_take hc)⟩
        rw [Ne, List.take_eq_nil_iff]
        simp only [hne, or_false]
        omega
      · rwa [List.head?_take, if_neg (by omega)]
      · refine isDigits_iff.2 ⟨?_, fun c hc => hall c (List.mem_of_mem_drop hc)⟩
        intro hnil
        rw [hnil, List.length_nil] at hlen
        omega
      · rw [fractionDigits, List.take_append_drop, hlen]
        congr 1
        omega
    · rw [if_neg hpoint]
      have hlen : (List.replicate (n - digits.length) '0' ++ digits).length = n := by
        rw [List.length_append, List.length_replicate]
        omega
      refine ⟨['0'], '.' :: (List.replicate (n - digits.length) '0' ++ digits), by simp, .zero, .digits ?_, ?_⟩
      · refine isDigits_iff.2 ⟨by simp [hne], fun c hc => ?_⟩
        rcases List.mem_append.1 hc with hc | hc
        · obtain ⟨-, rfl⟩ := List.mem_replicate.1 hc
          rfl
        · exact hall c hc
      · have hvalue := digitsValue_zeros_append (n - digits.length + 1) digits
        rw [fractionDigits, hlen, List.singleton_append, ← List.cons_append, ← List.replicate_succ, hvalue]
        congr 1
        omega

/-- The text of a magnitude is a number that reads back to it. -/
private theorem Magnitude.text_spec (m : Marshal.Magnitude) :
    IsMagnitude (text m) ∧ ∀ negative, decimalText? negative (text m) = some (finite negative m) := by
  unfold text
  by_cases hzero : m.significand = 0
  · rw [if_pos hzero]
    obtain rfl := eq_zero hzero
    exact ⟨.mk .zero .none .none, fun negative => by cases negative <;> rfl⟩
  · rw [if_neg hzero]
    have hm : 0 < m.significand := Nat.pos_of_ne_zero hzero
    have hinterval := m.inInterval_shortest hm
    generalize m.shortest = p at hinterval ⊢
    obtain ⟨n, exponent⟩ := p
    dsimp only at hinterval ⊢
    have hn : 0 < n := Nat.pos_of_ne_zero (top_of_inInterval hm hinterval).1
    obtain ⟨zeros, hsplit⟩ := eq_dropTrailingZeros_append (Nat.toDigits 10 n)
    have hhead := head?_toDigits_ne_zero hn
    have hvalue := digitsValue_toDigits n
    have hall (c : Char) (hc : c ∈ dropTrailingZeros (Nat.toDigits 10 n)) : c.isDigit = true :=
      isDigit_of_mem_toDigits (n := n) (by rw [hsplit]; exact List.mem_append_left _ hc)
    generalize hkept : dropTrailingZeros (Nat.toDigits 10 n) = kept at *
    have hne : kept ≠ [] := by
      rintro rfl
      rw [hsplit, List.nil_append] at hhead hvalue
      cases zeros with
      | zero =>
        have : n = 0 := hvalue.symm
        omega
      | succ zeros => exact hhead rfl
    rw [hsplit, digitsValue_append_zeros] at hvalue
    rw [hsplit, List.head?_append_of_ne_nil _ hne] at hhead
    have hlen : ((Nat.toDigits 10 n).length - kept.length : Nat) = zeros := by
      rw [hsplit, List.length_append, List.length_replicate]
      omega
    rw [hlen]
    obtain ⟨whole, fraction, htext, hw, hf, hdecimal⟩ :=
      positional_spec (isDigits_iff.2 ⟨hne, hall⟩) hhead (exponent + zeros)
    rw [htext]
    refine ⟨.mk hw hf .none, fun negative => ?_⟩
    rw [decimalText?_eq hw.isDigits hf .none rfl]
    rw [← decimal_mul_pow, hvalue] at hdecimal
    rw [ofDecimal_of_inInterval hm (hdecimal ▸ hinterval)]

/-! ### Floats -/

/-- The text of a finite float is a number that reads back to it. -/
theorem isNumber_text {x : Binary64} (hx : x.isFinite = true) : IsNumber x.text ∧ floatText? x.text = some x := by
  cases x with
  | finite negative m =>
    obtain ⟨hmagnitude, hvalue⟩ := Magnitude.text_spec m
    cases negative with
    | true => exact ⟨.minus hmagnitude, (floatText?_minus hmagnitude).trans (hvalue true)⟩
    | false => exact ⟨.plain hmagnitude, (floatText?_plain hmagnitude).trans (hvalue false)⟩
  | _ => cases hx

end Binary64

end Marshal
