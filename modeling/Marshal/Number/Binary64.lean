/-!
# Binary floating-point numbers

The values of the 64-bit binary format.  A finite magnitude is a significand of at most 53 bits shifted left, counted
in units of `2 ^ -1074`, so the exact value of a magnitude is the natural number `Magnitude.units`.
`Binary64.ofRatio` rounds a quotient of naturals to the nearest value, a tie to the even significand, and overflows to
infinity.
-/

namespace Marshal

/-- A finite magnitude in normal form: the top bit of the significand is set unless the shift is zero. -/
structure Magnitude where
  significand : Nat
  shift : Nat
  significand_lt : significand < 1 <<< 53
  normal : 1 <<< 52 ≤ significand ∨ shift = 0
  shift_le : shift ≤ 2045
deriving Repr, DecidableEq

namespace Magnitude

def zero : Magnitude := ⟨0, 0, by decide, .inr rfl, by decide⟩

instance : Inhabited Magnitude := ⟨zero⟩

/-- The value in units of `2 ^ -1074`. -/
def units (m : Magnitude) : Nat := m.significand <<< m.shift

def ofParts? (significand shift : Nat) : Option Magnitude :=
  if h : significand < 1 <<< 53 ∧ (1 <<< 52 ≤ significand ∨ shift = 0) ∧ shift ≤ 2045 then
    some ⟨significand, shift, h.1, h.2.1, h.2.2⟩
  else none

end Magnitude

inductive Binary64 where
  | nan
  | infinite (negative : Bool)
  | finite (negative : Bool) (magnitude : Magnitude)
deriving Repr, DecidableEq, Inhabited

namespace Binary64

/-- The quotient rounded to the nearest natural number, a tie to the even one. -/
def roundEven (num den : Nat) : Nat :=
  let q := num / den
  let r := num % den
  if 2 * r < den then q
  else if den < 2 * r then q + 1
  else if q % 2 = 0 then q
  else q + 1

/-- The shift that leaves at most 53 bits of a number of units. -/
def shiftFor (units : Nat) : Nat :=
  if units < 1 <<< 53 then 0 else units.log2 - 52

/-- The value nearest to `num / den`. -/
def ofRatio (negative : Bool) (num den : Nat) : Binary64 :=
  let scaled := num <<< 1074
  let shift := shiftFor (scaled / den)
  let significand := roundEven scaled (den <<< shift)
  match if significand < 1 <<< 53 then Magnitude.ofParts? significand shift
      else Magnitude.ofParts? (significand / 2) (shift + 1) with
  | some m => finite negative m
  | none => infinite negative

/-- The value nearest to `digits * 10 ^ exponent`.  Exponents so far out that the value overflows, or rounds to zero,
are not worked out. -/
def ofDecimal (negative : Bool) (digits : Nat) (exponent : Int) : Binary64 :=
  let top := exponent + (Nat.toDigits 10 digits).length
  if digits = 0 ∨ top < -330 then finite negative Magnitude.zero
  else if 320 < top then infinite negative
  else if 0 ≤ exponent then ofRatio negative (digits * Nat.pow 10 exponent.toNat) 1
  else ofRatio negative digits (Nat.pow 10 (-exponent).toNat)

def isFinite : Binary64 → Bool
  | finite .. => true
  | _ => false

/-- Equality of numbers: the two zeros are equal, and what is no number is not equal to itself. -/
def same : Binary64 → Binary64 → Bool
  | finite negative m, finite negative' m' => m = m' && (negative = negative' || m = .zero)
  | infinite negative, infinite negative' => negative = negative'
  | _, _ => false

/-- The exact value where it is an integer. -/
def integer? : Binary64 → Option Int
  | finite negative m =>
    if m.units % (1 <<< 1074) = 0 then
      let n : Int := m.units >>> 1074
      some (if negative then -n else n)
    else none
  | _ => none

end Binary64

end Marshal
