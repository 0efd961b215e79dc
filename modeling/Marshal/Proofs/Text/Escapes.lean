import Marshal.Proofs.Text.Quoted

/-!
# Reading by runs

Reading a quoted text, run by run: a run of characters that stand for themselves (`unquote_run`), and then an escape
(`unquote_escaped`) or the closing quote.  `escapeStep` reads one escape, with the place where it stops.
-/

namespace Marshal.Text

/-! ### One escape -/

/-- The number of an escape, and what is behind its digits. -/
def hexParts? : List Char → Option (Nat × List Char)
  | a :: b :: c :: d :: s => (hexFour? a b c d).map fun n => (n, s)
  | _ => none

/-- Reads the second half of a pair of surrogates. -/
def pairStep (high : Nat) : List Char → Nat → Except SyntaxFault Char × Cursor
  | '\\' :: 'u' :: s, o =>
    match hexParts? s with
    | none => (.error (hexFault s), ⟨s, o + 2⟩)
    | some (low, t) =>
      if isLowSurrogate low then (.ok (joinSurrogates high low), ⟨t, o + 6⟩) else (.error .unpairedSurrogate,
        ⟨t, o + 6⟩)
  | s, o => (.error .unpairedSurrogate, ⟨s, o⟩)

/-- Reads an escape by number, behind its `u`. -/
def unicodeStep (s : List Char) (o : Nat) : Except SyntaxFault Char × Cursor :=
  match hexParts? s with
  | none => (.error (hexFault s), ⟨s, o⟩)
  | some (high, t) =>
    if isHighSurrogate high then pairStep high t (o + 4)
    else if isLowSurrogate high then (.error .unpairedSurrogate, ⟨t, o + 4⟩)
    else (.ok (Char.ofNat high), ⟨t, o + 4⟩)

/-- Reads an escape, behind its backslash. -/
def escapeStep : List Char → Nat → Except SyntaxFault Char × Cursor
  | [], o => (.error .invalidEscape, ⟨[], o + 1⟩)
  | e :: s, o =>
    if e = 'u' then unicodeStep s (o + 1)
    else
      match unescape? e with
      | some c => (.ok c, ⟨s, o + 1⟩)
      | none => (.error .invalidEscape, if e.utf8Size = 1 then ⟨s, o + 1⟩ else ⟨e :: s, o + 1⟩)

/-- Goes on behind an escape. -/
def followed : Except SyntaxFault Char × Cursor → Unquoted
  | (.ok c, cursor) => .cons c (unquote cursor cursor.rest cursor.offset)
  | (.error fault, cursor) => (.error fault, cursor)

private theorem followed_ite (p : Prop) [Decidable p] (x y : Except SyntaxFault Char × Cursor) :
    followed (if p then x else y) = if p then followed x else followed y := apply_ite followed p x y

/-- The second half of a pair, as `unquote` reads it behind the first. -/
private theorem followed_pairStep (high : Nat) (s : List Char) (o : Nat) :
    followed (pairStep high s o) =
      match s with
      | '\\' :: 'u' :: e :: f :: g :: h :: s =>
        match hexFour? e f g h with
        | none => (.error (hexFault (e :: f :: g :: h :: s)), ⟨e :: f :: g :: h :: s, o + 2⟩)
        | some low =>
          if isLowSurrogate low then .cons (joinSurrogates high low) (unquote ⟨s, o + 6⟩ s (o + 6))
          else (.error .unpairedSurrogate, ⟨s, o + 6⟩)
      | '\\' :: 'u' :: s => (.error (hexFault s), ⟨s, o + 2⟩)
      | s => (.error .unpairedSurrogate, ⟨s, o⟩) := by
  split
  · next e f g h s =>
    rw [pairStep, hexParts?]
    cases hexFour? e f g h with
    | none => rfl
    | some low =>
      dsimp only [Option.map_some]
      rw [followed_ite]
      rfl
  · next s hs =>
    have hnone : hexParts? s = none := by
      unfold hexParts?
      split
      · exact absurd rfl (hs _ _ _ _ _)
      · rfl
    rw [pairStep, hnone]
    rfl
  · next s _ hs =>
    unfold pairStep
    split
    · exact absurd rfl (hs _)
    · rfl

private theorem unquote_unicode (chunk : Cursor) (s : List Char) (o : Nat) :
    unquote chunk ('\\' :: 'u' :: s) o = followed (unicodeStep s (o + 2)) := by
  match s with
  | [] | [_] | [_, _] | [_, _, _] => rfl
  | a :: b :: c :: d :: t =>
    rw [unquote]
    dsimp only [unicodeStep, hexParts?]
    cases hexFour? a b c d with
    | none => rfl
    | some high =>
      dsimp only [Option.map_some]
      rw [followed_ite, followed_ite, followed_pairStep]
      rfl

theorem unquote_escaped (chunk : Cursor) (s : List Char) (o : Nat) :
    unquote chunk ('\\' :: s) o = followed (escapeStep s (o + 1)) := by
  cases s with
  | nil => rfl
  | cons e s =>
    rw [escapeStep]
    by_cases he : e = 'u'
    · rw [if_pos he, he]
      exact unquote_unicode chunk s o
    · rw [if_neg he, unquote]
      · cases unescape? e with
        | none => rfl
        | some c => rfl
      · exact he

/-! ### One run -/

/-- Characters that stand for themselves are handed on. -/
theorem unquote_run (chunk : Cursor) {s : List Char} (hs : ∀ c ∈ s, c ≠ '"' ∧ c ≠ '\\') (t : List Char) (o : Nat) :
    unquote chunk (s ++ t) o =
      ((unquote chunk t (o + utf8Size s)).1.map (s ++ ·), (unquote chunk t (o + utf8Size s)).2) := by
  induction s generalizing o with
  | nil =>
    rw [utf8Size, List.nil_append, Nat.add_zero]
    generalize unquote chunk t o = u
    obtain ⟨_ | _, cursor⟩ := u <;> rfl
  | cons c s ih =>
    obtain ⟨hquote, hslash⟩ := hs c (by simp)
    rw [List.cons_append, unquote_plain hquote hslash, ih fun d hd => hs d (by simp [hd]), utf8Size, Nat.add_assoc]
    cases (unquote chunk t (o + (c.utf8Size + utf8Size s))).1 <;> rfl

end Marshal.Text
