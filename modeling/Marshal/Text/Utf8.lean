/-!
# Texts as bytes

The bytes of a text in UTF-8, and the text that any bytes show: `decodeLossy` puts the replacement character in the
place of what is no character.  The text of a text's own bytes is the text (`decodeLossy_bytes`).
-/

namespace Marshal.Text

/-- The bytes of a text in UTF-8. -/
def bytes (s : List Char) : List UInt8 := s.flatMap String.utf8EncodeChar

/-- The character that the bytes begin with, if they begin with one. -/
def frontChar? (bs : List UInt8) : Option Char := (bs.take 4).toByteArray.utf8DecodeChar? 0

/-- A byte that goes on with a character. -/
def isTail (b : UInt8) : Bool := 0x80 ≤ b && b ≤ 0xBF

/-- Whether the second byte of a character of three or four bytes may stand behind the first one.  It may not if the
number of the character would fit into fewer bytes, would be that of a surrogate, or would be too large. -/
def canFollow (first second : UInt8) : Bool :=
  if first = 0xE0 then 0xA0 ≤ second && second ≤ 0xBF
  else if first = 0xED then 0x80 ≤ second && second ≤ 0x9F
  else if first = 0xF0 then 0x90 ≤ second && second ≤ 0xBF
  else if first = 0xF4 then 0x80 ≤ second && second ≤ 0x8F
  else 0xE1 ≤ first && first ≤ 0xF3 && isTail second

/-- How many bytes one replacement character stands for, where the bytes do not begin with a character: those that a
character could begin with, but one at least. -/
def brokenSize : List UInt8 → Nat
  | first :: second :: rest =>
    if canFollow first second then
      if 0xF0 ≤ first && rest.head?.any isTail then 3 else 2
    else 1
  | _ => 1

/-- The text that bytes show, behind some that are passed over. -/
def decodeBehind : Nat → List UInt8 → List Char
  | _, [] => []
  | passed + 1, _ :: bs => decodeBehind passed bs
  | 0, b :: bs =>
    match frontChar? (b :: bs) with
    | some c => c :: decodeBehind (c.utf8Size - 1) bs
    | none => '\uFFFD' :: decodeBehind (brokenSize (b :: bs) - 1) bs

/-- The text that bytes show. -/
def decodeLossy (bs : List UInt8) : List Char := decodeBehind 0 bs

/-! ### The text of its own bytes -/

private theorem frontChar?_append (c : Char) (bs : List UInt8) :
    frontChar? (String.utf8EncodeChar c ++ bs) = some c := by
  have hlength : (String.utf8EncodeChar c).length ≤ 4 := by
    rw [String.length_utf8EncodeChar]
    exact c.utf8Size_le_four
  rw [frontChar?, List.take_append, List.take_of_length_le hlength, List.toByteArray_append]
  exact ByteArray.utf8DecodeChar?_utf8EncodeChar_append

private theorem decodeBehind_append (passed bs : List UInt8) :
    decodeBehind passed.length (passed ++ bs) = decodeLossy bs := by
  induction passed with
  | nil => rfl
  | cons _ passed ih => exact ih

private theorem decodeLossy_append (c : Char) (bs : List UInt8) :
    decodeLossy (String.utf8EncodeChar c ++ bs) = c :: decodeLossy bs := by
  obtain ⟨b, rest, hb⟩ : ∃ b rest, String.utf8EncodeChar c = b :: rest := by
    refine List.exists_cons_of_length_pos ?_
    rw [String.length_utf8EncodeChar]
    exact c.utf8Size_pos
  have hlength : c.utf8Size - 1 = rest.length := by
    rw [← String.length_utf8EncodeChar, hb, List.length_cons, Nat.add_sub_cancel]
  have hfront : frontChar? (b :: (rest ++ bs)) = some c := by
    rw [← List.cons_append, ← hb]
    exact frontChar?_append c bs
  rw [hb, List.cons_append, decodeLossy, decodeBehind, hfront]
  simp only [hlength, decodeBehind_append]

theorem decodeLossy_bytes (s : List Char) : decodeLossy (bytes s) = s := by
  induction s with
  | nil => rfl
  | cons c s ih =>
    have hcons : bytes (c :: s) = String.utf8EncodeChar c ++ bytes s := rfl
    rw [hcons, decodeLossy_append, ih]

/-- What could begin a character is replaced as one. -/
example : decodeLossy [0x61, 0xE2, 0x82, 0xFF, 0x62] = ['a', '\uFFFD', '\uFFFD', 'b'] := by decide +kernel

end Marshal.Text
