import Marshal.Proofs.Number.Exact

/-!
# What numbers denote

The exact value of a number text (`HasValue`), and what is made of it where an integer of 64 bits is to be read
(`HasValue.integralText?_eq_some_iff`): an integer that is spelled as such and fits is kept, and of any other number
the nearest float is taken, which is another number unless the value is a float itself (`Reads64.eq_iff`).
-/

namespace Marshal

open Binary64 (Nearest)

/-! ### Values -/

/-- The value of an exponent. -/
inductive HasExponent : List Char → Int → Prop
  | none : HasExponent [] 0
  | unsigned {s : List Char} {letter : Char} (hl : letter = 'e' ∨ letter = 'E') (hs : isDigits s = true) :
    HasExponent (letter :: s) (digitsValue s)
  | plus {s : List Char} {letter : Char} (hl : letter = 'e' ∨ letter = 'E') (hs : isDigits s = true) :
    HasExponent (letter :: '+' :: s) (digitsValue s)
  | minus {s : List Char} {letter : Char} (hl : letter = 'e' ∨ letter = 'E') (hs : isDigits s = true) :
    HasExponent (letter :: '-' :: s) (-digitsValue s)

/-- The value of a number without a minus: the digits behind the point count as a fraction. -/
inductive HasMagnitude : List Char → ℚ → Prop
  | mk {whole fraction exponent : List Char} {n : Int} (hw : IsWhole whole) (hf : IsFraction fraction)
    (he : HasExponent exponent n) : HasMagnitude (whole ++ (fraction ++ exponent))
      ((digitsValue whole + digitsValue (fractionDigits fraction) / 10 ^ (fractionDigits fraction).length) * 10 ^ n)

/-- The exact value of a number. -/
inductive HasValue : List Char → ℚ → Prop
  | plain {s : List Char} {x : ℚ} (h : HasMagnitude s x) : HasValue s x
  | minus {s : List Char} {x : ℚ} (h : HasMagnitude s x) : HasValue ('-' :: s) (-x)

variable {s : List Char} {x : ℚ} {n : Int}

private theorem HasExponent.exponentText?_eq (h : HasExponent s n) : exponentText? s = some n := by
  cases h with
  | none => rfl
  | @unsigned t _ hl hs =>
    have hint : integerText? t = some (digitsValue t : Int) := by
      simp only [integerText?, splitSign_of_isDigits hs, hs, if_true, Bool.false_eq_true, if_false]
    rcases hl with rfl | rfl <;> exact hint
  | plus hl hs | minus hl hs =>
    rcases hl with rfl | rfl <;> simp only [exponentText?, integerText?, splitSign, hs, if_true] <;> rfl

private theorem HasExponent.isExponent (h : HasExponent s n) : IsExponent s := by
  cases h with
  | none => exact .none
  | unsigned hl hs => exact .unsigned hl hs
  | plus hl hs => exact .signed hl (.inl rfl) hs
  | minus hl hs => exact .signed hl (.inr rfl) hs

private theorem HasMagnitude.isMagnitude (h : HasMagnitude s x) : IsMagnitude s := by
  obtain ⟨hw, hf, he⟩ := h
  exact .mk hw hf he.isExponent

/-- Every number has a value. -/
theorem IsNumber.exists_hasValue (h : IsNumber s) : ∃ x, HasValue s x := by
  have hmagnitude {s : List Char} (h : IsMagnitude s) : ∃ x, HasMagnitude s x := by
    obtain ⟨hw, hf, he⟩ := h
    cases he with
    | none => exact ⟨_, .mk hw hf .none⟩
    | unsigned hl hs => exact ⟨_, .mk hw hf (.unsigned hl hs)⟩
    | signed hl hg hs =>
      rcases hg with rfl | rfl
      · exact ⟨_, .mk hw hf (.plus hl hs)⟩
      · exact ⟨_, .mk hw hf (.minus hl hs)⟩
  cases h with
  | plain hs =>
    obtain ⟨x, hx⟩ := hmagnitude hs
    exact ⟨x, .plain hx⟩
  | minus hs =>
    obtain ⟨x, hx⟩ := hmagnitude hs
    exact ⟨-x, .minus hx⟩

theorem HasValue.isNumber (h : HasValue s x) : IsNumber s := by
  cases h with
  | plain h => exact .plain h.isMagnitude
  | minus h => exact .minus h.isMagnitude

/-! ### Decimals -/

/-- A number is rounded as a decimal of its value. -/
private theorem HasMagnitude.exists_decimal (h : HasMagnitude s x) : ∃ (digits : Nat) (exponent : Int),
    x = digits * 10 ^ exponent ∧ ∀ negative, decimalText? negative s =
      some (.ofDecimal negative digits exponent) := by
  obtain ⟨hw, hf, he⟩ := h
  refine ⟨_, _, ?_, decimalText?_eq hw.isDigits hf he.isExponent he.exponentText?_eq⟩
  rw [digitsValue_append, zpow_sub₀ (by norm_num), zpow_natCast]
  push_cast
  field_simp

private theorem HasValue.exists_decimal (h : HasValue s x) : ∃ (negative : Bool) (digits : Nat) (exponent : Int),
    x = signed negative (digits * 10 ^ exponent) ∧ floatText? s = some (.ofDecimal negative digits exponent) := by
  cases h with
  | plain h =>
    obtain ⟨digits, exponent, rfl, hdecimal⟩ := h.exists_decimal
    exact ⟨false, digits, exponent, rfl, (floatText?_plain h.isMagnitude).trans (hdecimal false)⟩
  | minus h =>
    obtain ⟨digits, exponent, rfl, hdecimal⟩ := h.exists_decimal
    exact ⟨true, digits, exponent, rfl, (floatText?_minus h.isMagnitude).trans (hdecimal true)⟩

/-! ### Integers -/

/-- Digits denote what they count. -/
private theorem HasMagnitude.eq_of_isDigits (h : HasMagnitude s x) (hs : isDigits s = true) : x = digitsValue s := by
  obtain ⟨hw, hf, he⟩ := h
  have hdigit {c : Char} (hc : c ∈ _) : c.isDigit = true := (isDigits_iff.1 hs).2 c hc
  cases hf with
  | digits => exact absurd (hdigit (c := '.') (by simp)) (by decide)
  | none =>
    cases he with
    | none => simp [fractionDigits, digitsValue]
    | @unsigned _ letter hl | @plus _ letter hl | @minus _ letter hl =>
      have hletter := hdigit (c := letter) (by simp)
      rcases hl with rfl | rfl <;> cases hletter

/-- The integer that a number is spelled as is its value. -/
private theorem HasValue.integerText?_eq_some_iff (h : HasValue s x) :
    integerText? s = some n ↔ isIntegerLexeme s = true ∧ x = n := by
  cases h with
  | plain h =>
    obtain ⟨c, t, rfl, hc⟩ := h.isMagnitude.head
    have hint : isIntegerLexeme (c :: t) = isDigits (c :: t) := by
      unfold isIntegerLexeme
      split
      · next heq =>
        cases heq
        cases hc
      · rfl
    rw [integerText?, splitSign_of_isDigit hc, hint]
    dsimp only
    rw [Option.ite_none_right_eq_some, Option.some.injEq]
    refine and_congr_right fun hdigits => ?_
    rw [h.eq_of_isDigits hdigits]
    exact_mod_cast Iff.rfl
  | minus h =>
    show (if isDigits _ then some (-(digitsValue _ : Int)) else none) = some n ↔ isDigits _ = true ∧ _
    rw [Option.ite_none_right_eq_some, Option.some.injEq]
    refine and_congr_right fun hdigits => ?_
    rw [h.eq_of_isDigits hdigits]
    exact_mod_cast Iff.rfl

private theorem toInt_ofInt_of_fits (hn : fitsInt64 n = true) : (Int64.ofInt n).toInt = n := by
  rw [fitsInt64, Bool.and_eq_true, decide_eq_true_iff, decide_eq_true_iff, Int64.toInt_minValue,
    Int64.toInt_maxValue] at hn
  exact Int64.toInt_ofInt_of_le hn.1 (by omega)

/-- An integer that fits is kept. -/
private theorem ofInt_eq_some_iff {n' : Int64} :
    (if fitsInt64 n then some (Int64.ofInt n) else none) = some n' ↔ n = n'.toInt := by
  constructor
  · intro h
    obtain ⟨hfits, hn'⟩ := Option.ite_none_right_eq_some.1 h
    obtain rfl := Option.some.inj hn'
    exact (toInt_ofInt_of_fits hfits).symm
  · rintro rfl
    rw [if_pos (fitsInt64_toInt n'), Int64.ofInt_toInt]

private theorem HasValue.int64Text?_eq_some_iff (h : HasValue s x) {n : Int64} :
    int64Text? s = some n ↔ isIntegerLexeme s = true ∧ x = n.toInt := by
  rw [← h.integerText?_eq_some_iff]
  unfold int64Text?
  simp only [Option.bind_eq_bind, Option.bind_eq_some_iff, ofInt_eq_some_iff]
  exact ⟨fun ⟨k, hk, heq⟩ => heq ▸ hk, fun hk => ⟨_, hk, rfl⟩⟩

/-- The integer that is read off a number of the value `x`: the value, if it is spelled as an integer and has 64 bits,
and else that of the nearest float. -/
def Reads64 (s : List Char) (x : ℚ) (n : Int64) : Prop :=
  (isIntegerLexeme s = true ∧ x = n.toInt) ∨
    ((isIntegerLexeme s = true → ∀ k : Int64, x ≠ k.toInt) ∧
      ∃ negative m, Nearest x negative m ∧ signed negative m.value = n.toInt)

/-- The floats that are an integer of 64 bits nearest to a number are what it is rounded to. -/
private theorem exists_rounded_iff {negative : Bool} {digits : Nat} {exponent : Int} {n : Int64} :
    (Binary64.ofDecimal negative digits exponent).integer? = some n.toInt ↔
      ∃ b m, Nearest (signed negative (digits * 10 ^ exponent)) b m ∧ signed b m.value = n.toInt := by
  constructor
  · intro h
    cases hrounded : Binary64.ofDecimal negative digits exponent with
    | finite b m =>
      rw [hrounded, Binary64.integer?_finite] at h
      obtain ⟨rfl, hnearest⟩ := Binary64.nearest_of_ofDecimal hrounded
      exact ⟨b, m, hnearest, h⟩
    | infinite | nan =>
      rw [hrounded] at h
      cases h
  · rintro ⟨b, m, hnearest, hvalue⟩
    have hsmall : n.toInt.natAbs < 2 ^ 64 := by
      have hlow := n.minValue_le_toInt
      have hhigh := n.toInt_le
      rw [Int64.toInt_minValue] at hlow
      rw [Int64.toInt_maxValue] at hhigh
      omega
    have hshift := Magnitude.shift_lt_of_value_eq hsmall (Magnitude.value_eq_natAbs hvalue)
    obtain ⟨hrounded, hsigned⟩ := Binary64.ofDecimal_of_nearest hshift hnearest
    rw [hrounded, Binary64.integer?_finite, hsigned, hvalue]

theorem HasValue.integralText?_eq_some_iff (h : HasValue s x) {n : Int64} :
    integralText? s = some n ↔ Reads64 s x n := by
  unfold integralText? Reads64
  dsimp only
  rw [trim_of_isNumber h.isNumber]
  cases hint : int64Text? s with
  | some k =>
    obtain ⟨hlexeme, rfl⟩ := h.int64Text?_eq_some_iff.1 hint
    have hk : (k.toInt : ℚ) = n.toInt ↔ k = n := by
      rw [Int.cast_inj, Int64.toInt_inj]
    rw [Option.some.injEq, hk]
    exact ⟨fun hn => .inl ⟨hlexeme, hn⟩, fun hn => hn.elim (·.2) fun hother => absurd rfl (hother.1 hlexeme k)⟩
  | none =>
    have hother : isIntegerLexeme s = true → ∀ k : Int64, x ≠ k.toInt := by
      rintro hlexeme k rfl
      rw [h.int64Text?_eq_some_iff.2 ⟨hlexeme, rfl⟩] at hint
      cases hint
    obtain ⟨negative, digits, exponent, rfl, hfloat⟩ := h.exists_decimal
    simp only [hfloat, Option.bind_eq_bind, Option.bind_some, Option.bind_eq_some_iff, ofInt_eq_some_iff]
    constructor
    · rintro ⟨k, hk, rfl⟩
      exact .inr ⟨hother, exists_rounded_iff.1 hk⟩
    · rintro (⟨hlexeme, hn⟩ | ⟨-, hnearest⟩)
      · exact absurd hn (hother hlexeme n)
      · exact ⟨_, exists_rounded_iff.2 hnearest, rfl⟩

/-! ### Exactness -/

/-- The value is kept as it is: it is spelled as an integer of 64 bits, or it is a float. -/
def IsExact64 (s : List Char) (x : ℚ) : Prop :=
  (isIntegerLexeme s = true ∧ ∃ n : Int64, x = n.toInt) ∨ ∃ negative m, x = signed negative (Magnitude.value m)

/-- The integers up to 2^53 are kept, however they are spelled. -/
theorem isExact64_of_natAbs_le {k : Int} (hk : k.natAbs ≤ 2 ^ 53) (s : List Char) : IsExact64 s k := by
  obtain ⟨negative, m, hm⟩ := Magnitude.exists_signed_eq hk
  exact .inr ⟨negative, m, hm.symm⟩

/-- The integer that is read off a number is its value if that is kept, and only then. -/
theorem Reads64.eq_iff {n : Int64} (h : Reads64 s x n) : x = n.toInt ↔ IsExact64 s x := by
  constructor
  · rintro rfl
    obtain ⟨hlexeme, -⟩ | ⟨-, negative, m, -, hvalue⟩ := h
    · exact .inl ⟨hlexeme, n, rfl⟩
    · exact .inr ⟨negative, m, hvalue.symm⟩
  · intro hexact
    obtain ⟨-, hn⟩ | ⟨hother, negative, m, hnearest, hvalue⟩ := h
    · exact hn
    · obtain ⟨hlexeme, k, hk⟩ | ⟨b, m', rfl⟩ := hexact
      · exact absurd hk (hother hlexeme k)
      · rw [← hvalue, hnearest.eq_signed]

/-- An integer of 64 bits that is kept is read. -/
theorem IsExact64.reads {n : Int64} (h : IsExact64 s n.toInt) : Reads64 s n.toInt n := by
  by_cases hlexeme : isIntegerLexeme s = true
  · exact .inl ⟨hlexeme, rfl⟩
  · obtain ⟨hint, -⟩ | ⟨negative, m, hm⟩ := h
    · exact absurd hint hlexeme
    · exact .inr ⟨fun hint => absurd hint hlexeme, negative, m, hm ▸ Binary64.nearest_self negative m, hm.symm⟩

end Marshal
