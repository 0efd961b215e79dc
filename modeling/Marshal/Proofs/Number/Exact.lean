import Marshal.Proofs.Number.Nearest

/-!
# Integers among the floats

A finite float is an integer if its exact value is (`Binary64.integer?_finite`), and what is nearest to a number that
is a float has the value of the number (`Binary64.Nearest.eq_signed`).  All integers up to 2^53 are floats.
-/

namespace Marshal

open Magnitude

namespace Magnitude

variable {m : Magnitude}

/-- The magnitudes that are natural numbers, by their units. -/
private theorem value_eq_natCast_iff {c : Nat} : m.value = c ↔ m.units = c * 1 <<< 1074 := by
  obtain ⟨k, hk⟩ : ∃ k, k = 1074 := ⟨_, rfl⟩
  have hpos : (2 : ℚ) ^ k ≠ 0 := by positivity
  rw [value, ← hk, Nat.one_shiftLeft, div_eq_iff hpos]
  exact_mod_cast Iff.rfl

theorem value_eq_natAbs {negative : Bool} {n : Int} (h : signed negative m.value = n) : m.value = n.natAbs := by
  have hnonneg := m.value_nonneg
  rw [Nat.cast_natAbs, Int.cast_abs, ← h]
  cases negative <;> simp [signed, abs_of_nonneg hnonneg]

private theorem exists_value_eq {n : Nat} (h : n ≤ 2 ^ 53) : ∃ m : Magnitude, m.value = n := by
  obtain ⟨k, hk⟩ : ∃ k, k = 1074 := ⟨_, rfl⟩
  suffices hunits : ∃ m : Magnitude, m.units = n * 2 ^ k by
    obtain ⟨m, hm⟩ := hunits
    rw [← Nat.one_shiftLeft, hk] at hm
    exact ⟨m, value_eq_natCast_iff.2 hm⟩
  by_cases hzero : n = 0
  · exact ⟨zero, by rw [hzero, Nat.zero_mul]; rfl⟩
  by_cases htop : n = 2 ^ 53
  · refine ⟨⟨2 ^ 52, k + 1, by decide, .inl (by decide), by omega⟩, ?_⟩
    rw [units_eq, htop]
    ring
  · -- shifted up, the number has 53 bits
    have hlog : n.log2 ≤ 52 := Nat.lt_succ_iff.1 ((Nat.log2_lt hzero).2 (by omega))
    have hsplit : 52 - n.log2 + n.log2 = 52 := Nat.sub_add_cancel hlog
    generalize 52 - n.log2 = up at hsplit
    have hlow : 2 ^ 52 ≤ n * 2 ^ up := by
      calc 2 ^ 52 = 2 ^ n.log2 * 2 ^ up := by rw [← Nat.pow_add, Nat.add_comm, hsplit]
        _ ≤ n * 2 ^ up := Nat.mul_le_mul_right _ (Nat.log2_self_le hzero)
    have hhigh : n * 2 ^ up < 2 ^ 53 := by
      calc n * 2 ^ up < 2 ^ (n.log2 + 1) * 2 ^ up := Nat.mul_lt_mul_of_pos_right Nat.lt_log2_self (Nat.two_pow_pos up)
        _ = 2 ^ 53 := by rw [← Nat.pow_add, show n.log2 + 1 + up = 53 by omega]
    refine ⟨⟨n * 2 ^ up, 1022 + n.log2, hhigh, .inl hlow, by omega⟩, ?_⟩
    rw [units_eq]
    dsimp only
    rw [Nat.mul_assoc, ← Nat.pow_add, show up + (1022 + n.log2) = k by omega]

/-- The integers up to 2^53 are floats. -/
theorem exists_signed_eq {n : Int} (h : n.natAbs ≤ 2 ^ 53) : ∃ negative m, signed negative (value m) = n := by
  obtain ⟨m, hm⟩ := exists_value_eq h
  refine ⟨decide (n < 0), m, ?_⟩
  rw [hm, Nat.cast_natAbs, Int.cast_abs]
  by_cases hn : n < 0
  · have hcast : (n : ℚ) < 0 := by exact_mod_cast hn
    simp [signed, hn, abs_of_neg hcast]
  · have hcast : (0 : ℚ) ≤ n := by exact_mod_cast not_lt.1 hn
    simp [signed, hn, abs_of_nonneg hcast]

/-- An integer of 64 bits is far from the largest magnitude. -/
theorem shift_lt_of_value_eq {c : Nat} (hc : c < 2 ^ 64) (h : m.value = c) : m.shift < 2045 := by
  obtain ⟨k, hk⟩ : ∃ k, k = 1074 := ⟨_, rfl⟩
  rw [value_eq_natCast_iff, ← hk, Nat.one_shiftLeft, units_eq] at h
  by_contra hge
  have hnormal := m.normal'.resolve_right (by omega)
  have hlt : 2 ^ (52 + m.shift) < 2 ^ (64 + k) := by
    calc 2 ^ (52 + m.shift) = 2 ^ 52 * 2 ^ m.shift := Nat.pow_add ..
      _ ≤ m.significand * 2 ^ m.shift := Nat.mul_le_mul_right _ hnormal
      _ = c * 2 ^ k := h
      _ < 2 ^ 64 * 2 ^ k := Nat.mul_lt_mul_of_pos_right hc (Nat.two_pow_pos k)
      _ = 2 ^ (64 + k) := (Nat.pow_add ..).symm
  have hexponents := (Nat.pow_lt_pow_iff_right (by decide)).1 hlt
  omega

end Magnitude

namespace Binary64

/-- A float is an integer if its exact value is. -/
theorem integer?_finite {negative : Bool} {m : Magnitude} {n : Int} :
    (finite negative m).integer? = some n ↔ signed negative m.value = n := by
  unfold integer?
  dsimp only
  by_cases hmod : m.units % 1 <<< 1074 = 0
  · obtain ⟨c, hc⟩ := Nat.dvd_of_mod_eq_zero hmod
    have hvalue : m.value = c := value_eq_natCast_iff.2 (hc.trans (Nat.mul_comm ..))
    rw [if_pos hmod, shiftRight_eq_div_shiftLeft_one, hc, Nat.mul_div_cancel_left _ (by decide),
      Option.some.injEq, hvalue]
    cases negative
    · show (c : Int) = n ↔ (c : ℚ) = n
      exact_mod_cast Iff.rfl
    · show -(c : Int) = n ↔ -(c : ℚ) = n
      exact_mod_cast Iff.rfl
  · rw [if_neg hmod]
    refine ⟨nofun, fun h => absurd ?_ hmod⟩
    rw [value_eq_natCast_iff.1 (value_eq_natAbs h), Nat.mul_mod_left]

/-- A float is nearest to its own value. -/
theorem nearest_self (negative : Bool) (m : Magnitude) : Nearest (signed negative m.value) negative m where
  closest _ _ := by
    rw [sub_self, abs_zero]
    exact abs_nonneg _
  even _ _ h hne := by
    rw [sub_self, abs_zero, abs_eq_zero, sub_eq_zero] at h
    exact absurd h.symm hne

/-- What is nearest to a float has its value. -/
theorem Nearest.eq_signed {negative b : Bool} {m m' : Magnitude} (h : Nearest (signed b m'.value) negative m) :
    signed negative m.value = signed b m'.value := by
  have hclosest := h.closest b m'
  rw [sub_self, abs_zero] at hclosest
  exact (sub_eq_zero.1 (abs_eq_zero.1 (le_antisymm hclosest (abs_nonneg _)))).symm

end Binary64

end Marshal
