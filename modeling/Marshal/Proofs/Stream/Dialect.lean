import Mathlib.Data.List.Forall2
import Mathlib.Tactic.Tauto
import Marshal.Proofs.Number.Spellings
import Marshal.Proofs.Stream.Documents

/-!
# Spellings of tokens

How strings and numbers may be spelled in a document.  A dialect says which spellings there are beside those of the
standard (`Dialect.standard`).  A reader reads a text in every dialect (`unquote_of_spellsText`), and takes nothing
that is not a spelling in the widest one, `Dialect.loose` (`spellsText_of_unquote`, `isLexeme_loose`).
-/

namespace Marshal

open Text (Cursor Unquoted unquote unescape? hexDigit? hexFour hexFour? isHighSurrogate isLowSurrogate joinSurrogates)

/-- The spellings that are allowed beside the standard ones. -/
structure Dialect where
  /-- A form feed is a blank. -/
  formFeed : Bool
  /-- Control characters may stand in a string as they are. -/
  control : Bool
  /-- The first digit of a unicode escape may be a plus sign, which counts as a zero. -/
  plus : Bool
  /-- A point may stand in front of an exponent with no digits after it. -/
  point : Bool
deriving Repr, DecidableEq

namespace Dialect

/-- The grammar of RFC 8259. -/
def standard : Dialect := ⟨false, false, false, false⟩

/-- What a reader takes. -/
def loose : Dialect := ⟨true, true, true, true⟩

variable (d : Dialect)

def isBlank (c : Char) : Bool := c = ' ' || c = '\t' || c = '\n' || c = '\r' || (d.formFeed && c = '\x0c')

/-- Any number of blanks. -/
def Blank (s : List Char) : Prop := ∀ c ∈ s, d.isBlank c = true

/-! ### Strings -/

/-- The characters with an escape of one letter. -/
def shortEscapes : List (Char × Char) :=
  [('"', '"'), ('\\', '\\'), ('/', '/'), ('\x08', 'b'), ('\x0c', 'f'), ('\n', 'n'), ('\r', 'r'), ('\t', 't')]

/-- Whether a character may stand in a string as it is. -/
def isPlain (c : Char) : Bool := c != '"' && c != '\\' && (d.control || 0x20 ≤ c.toNat)

/-- A hexadecimal digit in either case. -/
def EitherCase (digit c : Char) : Prop := c = digit ∨ c = digit.toUpper

/-- The digits of a code unit in an escape. -/
inductive SpellsUnit : Nat → List Char → Prop
  | digits {n : Nat} {s : List Char} (hn : n < 0x10000) (hs : List.Forall₂ EitherCase (hexFour n) s) : SpellsUnit n s
  | plus {n : Nat} {s : List Char} (hd : d.plus = true) (hn : n < 0x1000)
    (hs : List.Forall₂ EitherCase (hexFour n) ('0' :: s)) : SpellsUnit n ('+' :: s)

/-- The spellings of a character in a string.  One above the first plane has two code units. -/
inductive SpellsChar : Char → List Char → Prop
  | plain {c : Char} (h : d.isPlain c = true) : SpellsChar c [c]
  | short {c letter : Char} (h : (c, letter) ∈ shortEscapes) : SpellsChar c ['\\', letter]
  | unit {c : Char} {s : List Char} (h : SpellsUnit d c.toNat s) : SpellsChar c ('\\' :: 'u' :: s)
  | pair {c : Char} {s t : List Char} (hc : 0x10000 ≤ c.toNat)
    (hs : SpellsUnit d (0xd800 + (c.toNat - 0x10000) / 0x400) s)
    (ht : SpellsUnit d (0xdc00 + (c.toNat - 0x10000) % 0x400) t) :
    SpellsChar c ('\\' :: 'u' :: (s ++ '\\' :: 'u' :: t))

/-- The spellings of a text between its quotes. -/
inductive SpellsText : List Char → List Char → Prop
  | nil : SpellsText [] []
  | cons {c : Char} {cs s t : List Char} (hc : SpellsChar d c s) (hcs : SpellsText cs t) : SpellsText
      (c :: cs) (s ++ t)

/-! ### Numbers -/

/-- The spellings of numbers. -/
inductive IsLexeme : List Char → Prop
  | number {s : List Char} (h : IsNumber s) : IsLexeme s
  | pointed {s : List Char} (hd : d.point = true) (h : IsPointed s) : IsLexeme s

variable {d} in
theorem IsLexeme.isLexeme {s : List Char} (h : IsLexeme d s) : isLexeme s = true := by
  cases h with
  | number h => exact isLexeme_iff.2 (.inl h)
  | pointed _ h => exact isLexeme_iff.2 (.inr h)

theorem isLexeme_loose {s : List Char} (h : isLexeme s = true) : IsLexeme loose s :=
  (isLexeme_iff.1 h).elim .number (.pointed rfl)

/-! ### Blanks -/

variable {d} in
theorem isAsciiBlank_of_isBlank {c : Char} (h : d.isBlank c = true) : Text.isAsciiBlank c = true := by
  unfold isBlank at h
  unfold Text.isAsciiBlank
  simp only [Bool.or_eq_true, Bool.and_eq_true] at h ⊢
  tauto

theorem isBlank_loose (c : Char) : loose.isBlank c = Text.isAsciiBlank c := by
  simp only [isBlank, Text.isAsciiBlank, loose, Bool.true_and]
  grind

/-! ### Code units -/

instance (digit c : Char) : Decidable (EitherCase digit c) := inferInstanceAs (Decidable (_ ∨ _))

private theorem hexDigit?_of_eitherCase {n : Nat} (hn : n < 16) {c : Char} (h : EitherCase n.digitChar c) :
    hexDigit? c = some n := by
  have hdigits : ∀ n < 16, hexDigit? n.digitChar = some n ∧ hexDigit? n.digitChar.toUpper = some n := by decide
  rcases h with rfl | rfl
  · exact (hdigits n hn).1
  · exact (hdigits n hn).2

private theorem eitherCase_of_hexDigit? {n : Nat} {c : Char} (h : hexDigit? c = some n) :
    n < 16 ∧ EitherCase n.digitChar c := by
  have hchars : ∀ k < 128, ∀ n ∈ hexDigit? (Char.ofNat k), n < 16 ∧ EitherCase n.digitChar (Char.ofNat k) := by
    decide +kernel
  have hresult := hchars c.toNat (Text.lt_of_hexDigit? h) n
  rw [Char.ofNat_toNat] at hresult
  exact hresult h

private theorem forall₂_four {R : Char → Char → Prop} {x₁ x₂ x₃ x₄ : Char} {s : List Char}
    (h : List.Forall₂ R [x₁, x₂, x₃, x₄] s) : ∃ a b c e, s = [a, b, c, e] ∧ R x₁ a ∧ R x₂ b ∧ R x₃ c ∧ R x₄ e := by
  cases h with
  | cons h₁ h =>
    cases h with
    | cons h₂ h =>
      cases h with
      | cons h₃ h =>
        cases h with
        | cons h₄ h =>
          cases h
          exact ⟨_, _, _, _, rfl, h₁, h₂, h₃, h₄⟩

/-- A reader takes four digits in either case, the first of which may be a plus sign. -/
private theorem hexFour?_of_spellsUnit {n : Nat} {s : List Char} (h : SpellsUnit d n s) :
    ∃ a b c e, s = [a, b, c, e] ∧ hexFour? a b c e = some n := by
  cases h with
  | digits hn hs =>
    obtain ⟨a, b, c, e, rfl, ha, hb, hc, he⟩ := forall₂_four hs
    have ha := hexDigit?_of_eitherCase (by omega) ha
    have hplus : a ≠ '+' := by
      rintro rfl
      cases ha
    refine ⟨a, b, c, e, rfl, Text.hexFour?_eq_some.2 ⟨_, _, _, _, by rw [if_neg hplus, ha],
      hexDigit?_of_eitherCase (by omega) hb, hexDigit?_of_eitherCase (by omega) hc,
      hexDigit?_of_eitherCase (by omega) he, ?_⟩⟩
    omega
  | plus hd hn hs =>
    obtain ⟨_, b, c, e, heq, -, hb, hc, he⟩ := forall₂_four hs
    obtain ⟨-, rfl⟩ := List.cons.inj heq
    refine ⟨'+', b, c, e, rfl, Text.hexFour?_eq_some.2 ⟨_, _, _, _, rfl, hexDigit?_of_eitherCase (by omega) hb,
      hexDigit?_of_eitherCase (by omega) hc, hexDigit?_of_eitherCase (by omega) he, ?_⟩⟩
    omega

private theorem hexFour_eq {high x y z : Nat} (hhigh : high < 16) (hx : x < 16) (hy : y < 16) (hz : z < 16) :
    hexFour (((high * 16 + x) * 16 + y) * 16 + z) = [high.digitChar, x.digitChar, y.digitChar, z.digitChar] := by
  have h₁ : (((high * 16 + x) * 16 + y) * 16 + z) / 4096 % 16 = high := by omega
  have h₂ : (((high * 16 + x) * 16 + y) * 16 + z) / 256 % 16 = x := by omega
  have h₃ : (((high * 16 + x) * 16 + y) * 16 + z) / 16 % 16 = y := by omega
  have h₄ : (((high * 16 + x) * 16 + y) * 16 + z) % 16 = z := by omega
  rw [hexFour, h₁, h₂, h₃, h₄]
  rfl

private theorem spellsUnit_of_hexFour? {a b c e : Char} {n : Nat} (h : hexFour? a b c e = some n) :
    SpellsUnit loose n [a, b, c, e] := by
  obtain ⟨high, x, y, z, ha, hb, hc, he, rfl⟩ := Text.hexFour?_eq_some.1 h
  obtain ⟨hx, hb⟩ := eitherCase_of_hexDigit? hb
  obtain ⟨hy, hc⟩ := eitherCase_of_hexDigit? hc
  obtain ⟨hz, he⟩ := eitherCase_of_hexDigit? he
  split at ha
  · next hplus =>
    obtain rfl := Option.some.inj ha
    subst hplus
    refine .plus rfl (by omega) ?_
    rw [hexFour_eq (by omega) hx hy hz]
    exact .cons (.inl rfl) (.cons hb (.cons hc (.cons he .nil)))
  · obtain ⟨hhigh, ha⟩ := eitherCase_of_hexDigit? ha
    refine .digits (by omega) ?_
    rw [hexFour_eq hhigh hx hy hz]
    exact .cons ha (.cons hb (.cons hc (.cons he .nil)))

/-! ### Characters -/

private theorem toNat_lt (c : Char) : c.toNat < 0x110000 := by
  rcases c.valid with h | ⟨-, h⟩
  · exact Nat.lt_trans h (by decide)
  · exact h

private theorem not_surrogate (c : Char) : isHighSurrogate c.toNat = false ∧ isLowSurrogate c.toNat = false := by
  have hvalid : c.toNat < 0xd800 ∨ 0xdfff < c.toNat := c.valid.imp id And.left
  simp only [isHighSurrogate, isLowSurrogate, Bool.and_eq_false_iff, decide_eq_false_iff_not]
  omega

private theorem toNat_ofNat {n : Nat} (h : n < 0xd800 ∨ 0xdfff < n ∧ n < 0x110000) : (Char.ofNat n).toNat = n := by
  have hvalid : n.isValidChar := h
  rw [Char.ofNat, dif_pos hvalid]
  rfl

variable {d}

/-- A spelling of a character reads back to it. -/
private theorem unquote_of_spellsChar {c : Char} {s : List Char} (h : SpellsChar d c s) (chunk : Cursor)
    (rest : List Char) (o : Nat) :
    ∃ chunk' o', unquote chunk (s ++ rest) o = Unquoted.cons c (unquote chunk' rest o') := by
  cases h with
  | plain h =>
    simp only [isPlain, Bool.and_eq_true, bne_iff_ne] at h
    exact ⟨chunk, o + c.utf8Size, Text.unquote_plain h.1.1 h.1.2 chunk rest o⟩
  | short h =>
    simp only [shortEscapes, List.mem_cons, Prod.mk.injEq, List.not_mem_nil, or_false] at h
    rcases h with ⟨rfl, rfl⟩ | ⟨rfl, rfl⟩ | ⟨rfl, rfl⟩ | ⟨rfl, rfl⟩ | ⟨rfl, rfl⟩ | ⟨rfl, rfl⟩ | ⟨rfl,
      rfl⟩ | ⟨rfl, rfl⟩
    all_goals exact ⟨_, _, rfl⟩
  | unit h =>
    obtain ⟨a, b, x, y, rfl, hfour⟩ := hexFour?_of_spellsUnit d h
    obtain ⟨hhigh, hlow⟩ := not_surrogate c
    refine ⟨⟨rest, o + 6⟩, o + 6, ?_⟩
    simp only [List.cons_append, List.nil_append, unquote, hfour, hhigh, hlow, Bool.false_eq_true, if_false,
      Char.ofNat_toNat]
  | pair hc hs ht =>
    have hlt := toNat_lt c
    obtain ⟨a, b, x, y, rfl, hfirst⟩ := hexFour?_of_spellsUnit d hs
    obtain ⟨a', b', x', y', rfl, hsecond⟩ := hexFour?_of_spellsUnit d ht
    have hhigh : isHighSurrogate (0xd800 + (c.toNat - 0x10000) / 0x400) = true := by
      simp only [isHighSurrogate, Bool.and_eq_true, decide_eq_true_eq]
      omega
    have hlow : isLowSurrogate (0xdc00 + (c.toNat - 0x10000) % 0x400) = true := by
      simp only [isLowSurrogate, Bool.and_eq_true, decide_eq_true_eq]
      omega
    have hjoin :
        joinSurrogates (0xd800 + (c.toNat - 0x10000) / 0x400) (0xdc00 + (c.toNat - 0x10000) % 0x400) = c := by
      rw [joinSurrogates, show 0x10000 + (0xd800 + (c.toNat - 0x10000) / 0x400 - 0xd800) * 0x400 +
        (0xdc00 + (c.toNat - 0x10000) % 0x400 - 0xdc00) = c.toNat by omega, Char.ofNat_toNat]
    refine ⟨⟨rest, o + 12⟩, o + 12, ?_⟩
    simp only [List.cons_append, List.nil_append, unquote, hfirst, hsecond, hhigh, hlow, if_true, hjoin]

private theorem spellsChar_of_hexFour? {a b x y : Char} {n : Nat} (h : hexFour? a b x y = some n)
    (hhigh : isHighSurrogate n = false) (hlow : isLowSurrogate n = false) :
    SpellsChar loose (Char.ofNat n) ['\\', 'u', a, b, x, y] := by
  have hunit := spellsUnit_of_hexFour? h
  have hlt : n < 0x10000 := by
    cases hunit with
    | digits hn _ => exact hn
    | plus _ hn _ => omega
  simp only [isHighSurrogate, isLowSurrogate, Bool.and_eq_false_iff, decide_eq_false_iff_not] at hhigh hlow
  rw [← toNat_ofNat (n := n) (by omega)] at hunit
  exact .unit hunit

private theorem spellsChar_of_pair {a b x y a' b' x' y' : Char} {high low : Nat} (h : hexFour? a b x y = some high)
    (hhigh : isHighSurrogate high = true) (h' : hexFour? a' b' x' y' = some low) (hlow : isLowSurrogate low = true) :
    SpellsChar loose (joinSurrogates high low) ['\\', 'u', a, b, x, y, '\\', 'u', a', b', x', y'] := by
  simp only [isHighSurrogate, isLowSurrogate, Bool.and_eq_true, decide_eq_true_eq] at hhigh hlow
  have hvalue : (joinSurrogates high low).toNat = 0x10000 + (high - 0xd800) * 0x400 + (low - 0xdc00) :=
    toNat_ofNat (by omega)
  have hfirst := spellsUnit_of_hexFour? h
  have hsecond := spellsUnit_of_hexFour? h'
  have heq : high = 0xd800 + ((joinSurrogates high low).toNat - 0x10000) / 0x400 := by omega
  have heq' : low = 0xdc00 + ((joinSurrogates high low).toNat - 0x10000) % 0x400 := by omega
  rw [heq] at hfirst
  rw [heq'] at hsecond
  exact .pair (by omega) hfirst hsecond

private theorem spellsChar_of_unescape? {c letter : Char} (h : unescape? letter = some c) :
    SpellsChar loose c ['\\', letter] := by
  refine .short ?_
  unfold unescape? at h
  split at h
  all_goals first
    | (obtain rfl := Option.some.inj h; simp [shortEscapes])
    | cases h

/-! ### Texts -/

/-- A spelling of a text reads back to it, up to the closing quote. -/
theorem unquote_of_spellsText {cs s : List Char} (h : SpellsText d cs s) (tail : List Char) :
    ∀ (chunk : Cursor) (o : Nat), ∃ o', unquote chunk (s ++ '"' :: tail) o = (.ok cs, ⟨tail, o'⟩) := by
  induction h with
  | nil => exact fun chunk o => ⟨o + 1, rfl⟩
  | @cons c cs s t hc _ ih =>
    intro chunk o
    obtain ⟨chunk', o', hchar⟩ := unquote_of_spellsChar hc chunk (t ++ '"' :: tail) o
    obtain ⟨o'', htext⟩ := ih chunk' o'
    refine ⟨o'', ?_⟩
    rw [List.append_assoc, hchar, htext]
    rfl

private theorem cons_ok {c : Char} {u : Unquoted} {cs : List Char} {cursor : Cursor}
    (h : Unquoted.cons c u = (.ok cs, cursor)) : ∃ cs', cs = c :: cs' ∧ u = (.ok cs', cursor) := by
  obtain ⟨result, cursor'⟩ := u
  obtain ⟨hresult, rfl⟩ := Prod.mk.inj h
  cases result with
  | error => cases hresult
  | ok cs' => exact ⟨cs', (Except.ok.inj hresult).symm, rfl⟩

/-- What a reader takes for a text is a spelling of it. -/
theorem spellsText_of_unquote {chunk cursor : Cursor} {s cs : List Char} {o : Nat}
    (h : unquote chunk s o = (.ok cs, cursor)) : ∃ t, SpellsText loose cs t ∧ s = t ++ '"' :: cursor.rest := by
  fun_induction unquote chunk s o generalizing cs
  case case2 =>
    obtain ⟨hcs, rfl⟩ := Prod.mk.inj h
    obtain rfl := Except.ok.inj hcs
    exact ⟨[], .nil, rfl⟩
  case case6 hfirst hhigh _ _ _ _ _ _ hsecond hlow ih =>
    obtain ⟨cs', rfl, hcs'⟩ := cons_ok h
    obtain ⟨t, ht, rfl⟩ := ih hcs'
    exact ⟨_, .cons (spellsChar_of_pair hfirst hhigh hsecond hlow) ht, rfl⟩
  case case11 hfour hhigh hlow ih =>
    obtain ⟨cs', rfl, hcs'⟩ := cons_ok h
    obtain ⟨t, ht, rfl⟩ := ih hcs'
    exact ⟨_, .cons (spellsChar_of_hexFour? hfour (by simpa using hhigh) (by simpa using hlow)) ht, rfl⟩
  case case13 hletter ih =>
    obtain ⟨cs', rfl, hcs'⟩ := cons_ok h
    obtain ⟨t, ht, rfl⟩ := ih hcs'
    exact ⟨_, .cons (spellsChar_of_unescape? hletter) ht, rfl⟩
  case case15 c s _ hquote hslash ih =>
    obtain ⟨cs', rfl, hcs'⟩ := cons_ok h
    obtain ⟨t, ht, rfl⟩ := ih hcs'
    have hplain : isPlain loose c = true := by
      simp only [isPlain, loose, Bool.true_or, Bool.and_true, Bool.and_eq_true, bne_iff_ne]
      exact ⟨hquote, hslash⟩
    exact ⟨_, .cons (.plain hplain) ht, rfl⟩
  all_goals cases h

end Dialect

end Marshal
