import Marshal.Text.Quoted

/-!
# Quoted text reads back

Every character is escaped into a text that `unquote` turns into the character again (`unquote_escape`), so a quoted
text reads back to what was quoted, up to its closing quote and no further (`unquote_quote`).  So what begins with a
quoted text tells the text (`quote_cancel`).
-/

namespace Marshal.Text

/-! ### Characters -/

theorem unquote_plain {c : Char} (hquote : c ≠ '"') (hslash : c ≠ '\\') (chunk : Cursor) (s : List Char) (o : Nat) :
    unquote chunk (c :: s) o = Unquoted.cons c (unquote chunk s (o + c.utf8Size)) := by
  rw [unquote]
  · exact hquote
  · exact hslash

/-- The characters that are escaped by their number. -/
private theorem hexFour_spec : ∀ n, n < 0x20 ∨ n = 0x2028 ∨ n = 0x2029 → ∃ a b c d, hexFour n = [a, b, c, d] ∧
    hexFour? a b c d = some n ∧ isHighSurrogate n = false ∧ isLowSurrogate n = false := by
  have hcontrol : ∀ n < 0x20, hexFour? (n / 4096 % 16).digitChar (n / 256 % 16).digitChar (n / 16 % 16).digitChar
      (n % 16).digitChar = some n := by decide
  intro n hn
  refine ⟨_, _, _, _, rfl, ?_, ?_, ?_⟩
  · rcases hn with hn | rfl | rfl
    · exact hcontrol n hn
    · rfl
    · rfl
  · rw [isHighSurrogate, Bool.and_eq_false_iff]
    left
    rw [decide_eq_false_iff_not]
    omega
  · rw [isLowSurrogate, Bool.and_eq_false_iff]
    left
    rw [decide_eq_false_iff_not]
    omega

private theorem utf8Size_hexFour (n : Nat) : utf8Size (hexFour n) = 4 := by
  have hdigit : ∀ k < 16, k.digitChar.utf8Size = 1 := by decide
  simp only [hexFour, List.map_cons, List.map_nil, utf8Size, hdigit _ (Nat.mod_lt _ (by decide : 0 < 16))]

/-- An escaped character reads back to itself, and all of it is passed. -/
theorem unquote_escape (c : Char) (chunk : Cursor) (s : List Char) (o : Nat) :
    ∃ chunk', unquote chunk (escape c ++ s) o = Unquoted.cons c (unquote chunk' s (o + utf8Size (escape c))) := by
  unfold escape
  by_cases h₁ : c = '"'
  · rw [if_pos h₁, h₁]
    exact ⟨_, rfl⟩
  rw [if_neg h₁]
  by_cases h₂ : c = '\\'
  · rw [if_pos h₂, h₂]
    exact ⟨_, rfl⟩
  rw [if_neg h₂]
  by_cases h₃ : c = '\n'
  · rw [if_pos h₃, h₃]
    exact ⟨_, rfl⟩
  rw [if_neg h₃]
  by_cases h₄ : c = '\r'
  · rw [if_pos h₄, h₄]
    exact ⟨_, rfl⟩
  rw [if_neg h₄]
  by_cases h₅ : c = '\t'
  · rw [if_pos h₅, h₅]
    exact ⟨_, rfl⟩
  rw [if_neg h₅]
  by_cases h₆ : c = '\x08'
  · rw [if_pos h₆, h₆]
    exact ⟨_, rfl⟩
  rw [if_neg h₆]
  by_cases h₇ : c = '\x0c'
  · rw [if_pos h₇, h₇]
    exact ⟨_, rfl⟩
  rw [if_neg h₇]
  by_cases h₈ : (decide (c.toNat < 0x20) || decide (c = '\u2028') || decide (c = '\u2029')) = true
  · rw [if_pos h₈]
    have hn : c.toNat < 0x20 ∨ c.toNat = 0x2028 ∨ c.toNat = 0x2029 := by
      rcases Bool.or_eq_true_iff.1 h₈ with h | h
      · rcases Bool.or_eq_true_iff.1 h with h | h
        · exact .inl (of_decide_eq_true h)
        · exact .inr (.inl (by rw [of_decide_eq_true h]; rfl))
      · exact .inr (.inr (by rw [of_decide_eq_true h]; rfl))
    obtain ⟨a, b, d, e, hhex, hvalue, hhigh, hlow⟩ := hexFour_spec c.toNat hn
    have hsize : utf8Size ('\\' :: 'u' :: hexFour c.toNat) = 6 := by
      rw [utf8Size, utf8Size, utf8Size_hexFour]
      rfl
    refine ⟨⟨s, o + 6⟩, ?_⟩
    rw [hsize, hhex]
    simp only [List.cons_append, List.nil_append, unquote, hvalue, hhigh, hlow, Bool.false_eq_true, if_false,
      Char.ofNat_toNat]
  · rw [if_neg h₈]
    exact ⟨chunk, unquote_plain h₁ h₂ chunk s o⟩

/-! ### Texts -/

/-- A quoted text reads back, and what follows it is left. -/
theorem unquote_quote (s tail : List Char) : ∀ (chunk : Cursor) (o : Nat),
    unquote chunk (s.flatMap escape ++ '"' :: tail) o = (.ok s, ⟨tail, o + utf8Size (s.flatMap escape) + 1⟩) := by
  induction s with
  | nil => exact fun chunk o => rfl
  | cons c s ih =>
    intro chunk o
    obtain ⟨chunk', hc⟩ := unquote_escape c chunk (s.flatMap escape ++ '"' :: tail) o
    rw [List.flatMap_cons, List.append_assoc, hc, ih, utf8Size_append, Nat.add_assoc o]
    rfl

theorem quote_append (s tail : List Char) : quote s ++ tail = '"' :: (s.flatMap escape ++ '"' :: tail) := by
  simp [quote]

theorem utf8Size_quote (s : List Char) : utf8Size (quote s) = 1 + utf8Size (s.flatMap escape) + 1 := by
  rw [quote, utf8Size, utf8Size_append, ← Nat.add_assoc]
  rfl

/-- What begins with a quoted text tells the text, and what follows it. -/
theorem quote_cancel {s t x y : List Char} (h : quote s ++ x = quote t ++ y) : s = t ∧ x = y := by
  rw [quote_append, quote_append] at h
  have hx := unquote_quote s x default 0
  rw [(List.cons.inj h).2, unquote_quote t y] at hx
  obtain ⟨hst, hxy⟩ := Prod.mk.inj hx
  exact ⟨(Except.ok.inj hst).symm, (Cursor.mk.inj hxy).1.symm⟩

/-- A quoted text begins another one only if both are the same. -/
theorem quote_prefix_iff {s t : List Char} : quote s <+: quote t ↔ s = t := by
  constructor
  · rintro ⟨x, hx⟩
    rw [← List.append_nil (quote t)] at hx
    exact (quote_cancel hx).1
  · rintro rfl
    exact List.prefix_refl _

/-! ### Digits -/

/-- A digit in base sixteen is a character of one byte. -/
theorem lt_of_hexDigit? {c : Char} {n : Nat} (h : hexDigit? c = some n) : c.toNat < 128 := by
  have hle (a b : Char) : a ≤ b ↔ a.toNat ≤ b.toNat := Iff.rfl
  have h9 : '9'.toNat = 57 := rfl
  have hf : 'f'.toNat = 102 := rfl
  have hF : 'F'.toNat = 70 := rfl
  unfold hexDigit? at h
  simp only [hle] at h
  split at h
  · omega
  split at h
  · omega
  split at h
  · omega
  · cases h

theorem hexFour?_eq_some {a b c d : Char} {n : Nat} :
    hexFour? a b c d = some n ↔
      ∃ high x y z, (if a = '+' then some 0 else hexDigit? a) = some high ∧ hexDigit? b = some x ∧
        hexDigit? c = some y ∧ hexDigit? d = some z ∧ ((high * 16 + x) * 16 + y) * 16 + z = n := by
  unfold hexFour?
  split <;> simp only [Option.bind_eq_bind, Option.bind_eq_some_iff, Option.some.injEq, exists_and_left]

end Marshal.Text
