import Marshal.Error

/-!
# Quoted text

How a text is quoted in a document, and how the quoted form is read.  `quote` escapes quotes, backslashes, control
characters and the two line separators; `unquote` reads everything that `quote` writes, all other escapes, and raw
control characters.
-/

namespace Marshal.Text

/-! ### Writing -/

/-- Four hexadecimal digits. -/
def hexFour (n : Nat) : List Char :=
  [n / 4096 % 16, n / 256 % 16, n / 16 % 16, n % 16].map Nat.digitChar

def escape (c : Char) : List Char :=
  if c = '"' then ['\\', '"']
  else if c = '\\' then ['\\', '\\']
  else if c = '\n' then ['\\', 'n']
  else if c = '\r' then ['\\', 'r']
  else if c = '\t' then ['\\', 't']
  else if c = '\x08' then ['\\', 'b']
  else if c = '\x0c' then ['\\', 'f']
  else if c.toNat < 0x20 || c = '\u2028' || c = '\u2029' then '\\' :: 'u' :: hexFour c.toNat
  else [c]

def quote (s : List Char) : List Char := '"' :: (s.flatMap escape ++ ['"'])

/-! ### Reading -/

/-- A place in a document: what is left of it, and the bytes passed so far. -/
structure Cursor where
  rest : List Char
  offset : Nat
deriving Repr, DecidableEq, Inhabited

/-- Moves over characters of one byte each. -/
def Cursor.advance (c : Cursor) (n : Nat) : Cursor := ⟨c.rest.drop n, c.offset + n⟩

/-- The character that a one-letter escape stands for. -/
def unescape? : Char → Option Char
  | '"' => some '"'
  | '\\' => some '\\'
  | '/' => some '/'
  | 'b' => some '\x08'
  | 'f' => some '\x0c'
  | 'n' => some '\n'
  | 'r' => some '\r'
  | 't' => some '\t'
  | _ => none

def hexDigit? (c : Char) : Option Nat :=
  if '0' ≤ c ∧ c ≤ '9' then some (c.toNat - '0'.toNat)
  else if 'a' ≤ c ∧ c ≤ 'f' then some (c.toNat - 'a'.toNat + 10)
  else if 'A' ≤ c ∧ c ≤ 'F' then some (c.toNat - 'A'.toNat + 10)
  else none

/-- The number that the four characters of an escape denote; the first one may be a plus sign. -/
def hexFour? (a b c d : Char) : Option Nat := do
  let high ← if a = '+' then some 0 else hexDigit? a
  let b ← hexDigit? b
  let c ← hexDigit? c
  let d ← hexDigit? d
  some (((high * 16 + b) * 16 + c) * 16 + d)

/-- Whether a character begins at the given byte of a text, or the text ends there. -/
def isBoundary : (bytes : Nat) → List Char → Bool
  | 0, _ => true
  | _ + 1, [] => false
  | bytes + 1, c :: s => c.utf8Size ≤ bytes + 1 && isBoundary (bytes + 1 - c.utf8Size) s

/-- What is wrong with an escape whose next four bytes are not four digits. -/
def hexFault (s : List Char) : SyntaxFault :=
  if isBoundary 4 s then .invalidUnicodeEscape else .truncatedUnicodeEscape

def isHighSurrogate (n : Nat) : Bool := 0xd800 ≤ n && n < 0xdc00

def isLowSurrogate (n : Nat) : Bool := 0xdc00 ≤ n && n < 0xe000

/-- The character beyond the first plane that a pair of surrogates stands for. -/
def joinSurrogates (high low : Nat) : Char :=
  Char.ofNat (0x10000 + (high - 0xd800) * 0x400 + (low - 0xdc00))

/-- The text read, or what is wrong, and the place where reading stopped. -/
abbrev Unquoted := Except SyntaxFault (List Char) × Cursor

def Unquoted.cons (c : Char) (r : Unquoted) : Unquoted := (r.1.map (c :: ·), r.2)

/-- Reads the rest of a quoted text up to its closing quote.  If there is none, reading stops at `chunk`, the place
after the opening quote or the last escape.  An escape of an unknown letter is passed over as if the letter took one
byte. -/
def unquote (chunk : Cursor) : List Char → (offset : Nat) → Unquoted
  | [], _ => (.error .unterminatedString, chunk)
  | '"' :: s, o => (.ok [], ⟨s, o + 1⟩)
  | '\\' :: s, o =>
    match s with
    | [] => (.error .invalidEscape, ⟨[], o + 2⟩)
    | 'u' :: s =>
      match s with
      | a :: b :: c :: d :: s =>
        match hexFour? a b c d with
        | none => (.error (hexFault (a :: b :: c :: d :: s)), ⟨a :: b :: c :: d :: s, o + 2⟩)
        | some high =>
          if isHighSurrogate high then
            match s with
            | '\\' :: 'u' :: e :: f :: g :: h :: s =>
              match hexFour? e f g h with
              | none => (.error (hexFault (e :: f :: g :: h :: s)), ⟨e :: f :: g :: h :: s, o + 8⟩)
              | some low =>
                if isLowSurrogate low then
                  Unquoted.cons (joinSurrogates high low) (unquote ⟨s, o + 12⟩ s (o + 12))
                else (.error .unpairedSurrogate, ⟨s, o + 12⟩)
            | '\\' :: 'u' :: s => (.error (hexFault s), ⟨s, o + 8⟩)
            | s => (.error .unpairedSurrogate, ⟨s, o + 6⟩)
          else if isLowSurrogate high then (.error .unpairedSurrogate, ⟨s, o + 6⟩)
          else Unquoted.cons (Char.ofNat high) (unquote ⟨s, o + 6⟩ s (o + 6))
      | s => (.error (hexFault s), ⟨s, o + 2⟩)
    | e :: s =>
      match unescape? e with
      | some c => Unquoted.cons c (unquote ⟨s, o + 2⟩ s (o + 2))
      | none => (.error .invalidEscape, if e.utf8Size = 1 then ⟨s, o + 2⟩ else ⟨e :: s, o + 2⟩)
  | c :: s, o => Unquoted.cons c (unquote chunk s (o + c.utf8Size))

end Marshal.Text
