import Marshal.Number.Binary64

/-!
# Shortest decimal text

The digits of a float are the fewest that read back to it, and among those the closest to it; of two equally close
ones the larger.  They are written positionally, whatever the magnitude, and an integral value has no point.
-/

namespace Marshal

namespace Magnitude

/-- A quarter of a unit is the resolution at which the ends of the rounding interval are naturals. -/
def quarters (m : Magnitude) : Nat := 4 * m.units

/-- The distance, in quarter units, to the lower end of the interval of reals that round to the magnitude.  Below a
power of two the neighbours are twice as dense. -/
def lowerGap (m : Magnitude) : Nat :=
  if m.significand = 1 <<< 52 ∧ 0 < m.shift then 1 <<< m.shift else 2 <<< m.shift

def upperGap (m : Magnitude) : Nat := 2 <<< m.shift

/-- `digits * 10 ^ exponent`, in quarter units, as a quotient. -/
def quotientOf (digits : Nat) (exponent : Int) : Nat × Nat :=
  if 0 ≤ exponent then ((digits * Nat.pow 10 exponent.toNat) <<< 1076, 1)
  else (digits <<< 1076, Nat.pow 10 (-exponent).toNat)

/-- Whether `digits * 10 ^ exponent` rounds to the magnitude.  The ends of the interval belong to an even
significand. -/
def readsBack (m : Magnitude) (digits : Nat) (exponent : Int) : Bool :=
  let (num, den) := quotientOf digits exponent
  let low := (m.quarters - m.lowerGap) * den
  let high := (m.quarters + m.upperGap) * den
  if m.significand % 2 = 0 then low ≤ num && num ≤ high else low < num && num < high

/-- The largest multiple of `10 ^ exponent` that is at most the magnitude, as a count of `10 ^ exponent`. -/
def floorAt (m : Magnitude) (exponent : Int) : Nat :=
  if 0 ≤ exponent then m.quarters / (Nat.pow 10 exponent.toNat <<< 1076)
  else (m.quarters * Nat.pow 10 (-exponent).toNat) >>> 1076

/-- Whether `digits + 1` is at least as close to the magnitude as `digits`, both in steps of `10 ^ exponent`. -/
def upperIsCloser (m : Magnitude) (digits : Nat) (exponent : Int) : Bool :=
  let (num, den) := quotientOf (2 * digits + 1) exponent
  num ≤ 2 * m.quarters * den

/-- The point of the grid of step `10 ^ exponent` that stands for the magnitude, if one reads back. -/
def onGrid? (m : Magnitude) (exponent : Int) : Option (Nat × Int) :=
  let low := m.floorAt exponent
  match m.readsBack low exponent, m.readsBack (low + 1) exponent with
  | true, true => some (if m.upperIsCloser low exponent then low + 1 else low, exponent)
  | true, false => some (low, exponent)
  | false, true => some (low + 1, exponent)
  | false, false => none

/-- The least power of ten above the magnitude, which is not zero.  The binary logarithm gives an estimate that is
at most a step too low. -/
def decimalTop (m : Magnitude) : Int :=
  let guess : Int := ((m.quarters.log2 : Int) - 1076) * 30103 / 100000
  if m.floorAt guess = 0 then guess
  else if m.floorAt (guess + 1) = 0 then guess + 1
  else guess + 2

/-- The fewest digits that read back, with the power of ten of the last one. -/
def shortest (m : Magnitude) : Nat × Int :=
  let top := m.decimalTop
  ((List.range 17).findSome? fun (n : Nat) => m.onGrid? (top - (n + 1))).getD (m.floorAt (top - 17), top - 17)

end Magnitude

namespace Binary64

def dropTrailingZeros (digits : List Char) : List Char :=
  (digits.reverse.dropWhile (· = '0')).reverse

/-- Digits whose last one has the given power of ten, written positionally. -/
def positional (digits : List Char) (exponent : Int) : List Char :=
  if 0 ≤ exponent then digits ++ List.replicate exponent.toNat '0'
  else
    let places := (-exponent).toNat
    if places < digits.length then
      digits.take (digits.length - places) ++ '.' :: digits.drop (digits.length - places)
    else '0' :: '.' :: (List.replicate (places - digits.length) '0' ++ digits)

def Magnitude.text (m : Magnitude) : List Char :=
  if m.significand = 0 then ['0']
  else
    let (n, exponent) := m.shortest
    let digits := Nat.toDigits 10 n
    let kept := dropTrailingZeros digits
    positional kept (exponent + (digits.length - kept.length : Nat))

/-- The text of a float. -/
def text : Binary64 → List Char
  | nan => "NaN".toList
  | infinite negative => if negative then "-inf".toList else "inf".toList
  | finite negative m => if negative then '-' :: Magnitude.text m else Magnitude.text m

def display (x : Binary64) : String := String.ofList x.text

end Binary64

end Marshal
