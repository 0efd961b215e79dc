import Marshal.Number.Binary64
import Marshal.Text.Blank

/-!
# Number texts

Three grammars of numbers.  An integer text has an optional sign and digits.  A float text also allows a point, with
digits on at least one side of it, an exponent, and the words `inf`, `infinity` and `nan` in any case.  A lexeme is a
stricter float text: after an optional minus it begins with a digit, has no needless zero in front, and ends in a
digit.
-/

namespace Marshal

open Text (trim)

/-! ### Digits -/

def digitValue (c : Char) : Nat := c.toNat - '0'.toNat

/-- The number that decimal digits denote. -/
def digitsValue (s : List Char) : Nat := s.foldl (fun n c => 10 * n + digitValue c) 0

/-- One or more digits. -/
def isDigits (s : List Char) : Bool := !s.isEmpty && s.all Char.isDigit

/-- Takes a sign off the front: whether it is a minus, and the rest. -/
def splitSign : List Char → Bool × List Char
  | '-' :: s => (true, s)
  | '+' :: s => (false, s)
  | s => (false, s)

/-! ### Integers -/

/-- The integer denoted by an optional sign and digits. -/
def integerText? (s : List Char) : Option Int :=
  let (negative, s) := splitSign s
  if isDigits s then some (if negative then -(digitsValue s : Int) else digitsValue s) else none

def fitsInt64 (n : Int) : Bool := Int64.minValue.toInt ≤ n && n ≤ Int64.maxValue.toInt

/-- The 64-bit integer denoted by an optional sign and digits; one out of range has no value. -/
def int64Text? (s : List Char) : Option Int64 := do
  let n ← integerText? s
  if fitsInt64 n then some (Int64.ofInt n) else none

/-! ### Floats -/

/-- An exponent after its letter. -/
def exponentText? : List Char → Option Int
  | 'e' :: s | 'E' :: s => integerText? s
  | [] => some 0
  | _ => none

/-- The value of digits, an optional point with digits, and an optional exponent. -/
def decimalText? (negative : Bool) (s : List Char) : Option Binary64 := do
  let whole := s.takeWhile Char.isDigit
  let rest := s.dropWhile Char.isDigit
  let (fraction, rest) := match rest with
    | '.' :: rest => (rest.takeWhile Char.isDigit, rest.dropWhile Char.isDigit)
    | rest => ([], rest)
  if whole.isEmpty && fraction.isEmpty then none
  else do
    let exponent ← exponentText? rest
    some (Binary64.ofDecimal negative (digitsValue (whole ++ fraction)) (exponent - fraction.length))

/-- The float a text denotes. -/
def floatText? (s : List Char) : Option Binary64 :=
  let (negative, s) := splitSign s
  let word := s.map Char.toLower
  if word = "inf".toList || word = "infinity".toList then some (.infinite negative)
  else if word = "nan".toList then some .nan
  else decimalText? negative s

/-! ### Lexemes -/

/-- Whether a run of number characters is a number token. -/
def isLexeme (s : List Char) : Bool :=
  let digits := match s with
    | '-' :: s => s
    | s => s
  let starts := match digits with
    | '0' :: d :: _ => !d.isDigit
    | d :: _ => d.isDigit
    | [] => false
  let ends := match digits.getLast? with
    | some c => !(c = '.' || c = 'e' || c = 'E' || c = '+' || c = '-')
    | none => false
  starts && ends && (floatText? s).isSome

/-- Whether a lexeme is a plain integer: an optional minus and digits. -/
def isIntegerLexeme : List Char → Bool
  | '-' :: s => isDigits s
  | s => isDigits s

/-- The 64-bit integer of a number text between blanks.  A decimal or exponent form counts if the float nearest to
it is integral and in range. -/
def integralText? (s : List Char) : Option Int64 :=
  let s := trim s
  match int64Text? s with
  | some n => some n
  | none => do
    let x ← floatText? s
    let n ← x.integer?
    if fitsInt64 n then some (Int64.ofInt n) else none

end Marshal
