import Marshal.Proofs.Number.Digits

/-!
# Number lexemes

The grammar of the numbers of a document (`IsNumber`).  Every number of the grammar is a lexeme, and its float value
is that of its parts.
-/

namespace Marshal

/-! ### The grammar -/

/-- Digits without a needless zero in front. -/
inductive IsWhole : List Char → Prop
  | zero : IsWhole ['0']
  | digits {s : List Char} (hs : isDigits s = true) (hzero : s.head? ≠ some '0') : IsWhole s

inductive IsFraction : List Char → Prop
  | none : IsFraction []
  | digits {s : List Char} (hs : isDigits s = true) : IsFraction ('.' :: s)

inductive IsExponent : List Char → Prop
  | none : IsExponent []
  | unsigned {s : List Char} {letter : Char} (hl : letter = 'e' ∨ letter = 'E') (hs : isDigits s = true) :
    IsExponent (letter :: s)
  | signed {s : List Char} {letter sign : Char} (hl : letter = 'e' ∨ letter = 'E') (hg : sign = '+' ∨ sign = '-')
    (hs : isDigits s = true) : IsExponent (letter :: sign :: s)

inductive IsMagnitude : List Char → Prop
  | mk {whole fraction exponent : List Char} (hw : IsWhole whole) (hf : IsFraction fraction)
    (he : IsExponent exponent) :
    IsMagnitude (whole ++ (fraction ++ exponent))

/-- An optional minus, digits, an optional point with digits, and an optional exponent. -/
inductive IsNumber : List Char → Prop
  | plain {s : List Char} (hs : IsMagnitude s) : IsNumber s
  | minus {s : List Char} (hs : IsMagnitude s) : IsNumber ('-' :: s)

/-! ### First and last characters -/

theorem IsWhole.isDigits {s : List Char} (h : IsWhole s) : isDigits s = true := by
  cases h with
  | zero => rfl
  | digits hs _ => exact hs

/-- A number begins with a digit after its minus. -/
theorem IsMagnitude.head {s : List Char} (h : IsMagnitude s) : ∃ c t, s = c :: t ∧ c.isDigit = true := by
  obtain ⟨hw, -, -⟩ := h
  obtain ⟨hne, hall⟩ := isDigits_iff.1 hw.isDigits
  rename_i whole fraction exponent
  cases whole with
  | nil => exact absurd rfl hne
  | cons c whole => exact ⟨c, whole ++ (fraction ++ exponent), rfl, hall c (List.mem_cons_self ..)⟩

theorem getLast?_of_isDigits {s : List Char} (hs : isDigits s = true) :
    ∃ c, s.getLast? = some c ∧ c.isDigit = true := by
  obtain ⟨hne, hall⟩ := isDigits_iff.1 hs
  exact ⟨s.getLast hne, List.getLast?_eq_some_getLast hne, hall _ (List.getLast_mem hne)⟩

/-- A number ends in a digit. -/
private theorem IsMagnitude.last {s : List Char} (h : IsMagnitude s) :
    ∃ c, s.getLast? = some c ∧ c.isDigit = true := by
  obtain ⟨hw, hf, he⟩ := h
  rename_i whole fraction exponent
  have hcons {a c : Char} {t : List Char} (ht : t.getLast? = some c) : (a :: t).getLast? = some c := by
    rw [List.getLast?_cons, ht]
    rfl
  rw [List.getLast?_append, List.getLast?_append]
  cases he with
  | unsigned _ hs =>
    obtain ⟨c, hc, hdigit⟩ := getLast?_of_isDigits hs
    exact ⟨c, by rw [hcons hc]; rfl, hdigit⟩
  | signed _ _ hs =>
    obtain ⟨c, hc, hdigit⟩ := getLast?_of_isDigits hs
    exact ⟨c, by rw [hcons (hcons hc)]; rfl, hdigit⟩
  | none =>
    cases hf with
    | digits hs =>
      obtain ⟨c, hc, hdigit⟩ := getLast?_of_isDigits hs
      exact ⟨c, by rw [hcons hc]; rfl, hdigit⟩
    | none =>
      obtain ⟨c, hc, hdigit⟩ := getLast?_of_isDigits hw.isDigits
      exact ⟨c, by rw [hc]; rfl, hdigit⟩

/-- A number does not begin or end with a blank. -/
theorem trim_of_isNumber {s : List Char} (h : IsNumber s) : Text.trim s = s := by
  have hdigit {c : Char} (hc : c.isDigit = true) : Text.isBlank c = false := not_isBlank_of_isDigit hc
  cases h with
  | plain hs =>
    obtain ⟨c, t, rfl, hc⟩ := hs.head
    obtain ⟨d, hlast, hd⟩ := hs.last
    refine trim_eq_self ?_ ?_
    · intro c' hc'
      obtain rfl := Option.some.inj hc'
      exact hdigit hc
    · intro d' hd'
      obtain rfl := Option.some.inj (hlast.symm.trans hd')
      exact hdigit hd
  | minus hs =>
    obtain ⟨d, hlast, hd⟩ := hs.last
    refine trim_eq_self ?_ ?_
    · intro c' hc'
      obtain rfl := Option.some.inj hc'
      rfl
    · intro d' hd'
      rw [List.getLast?_cons, hlast] at hd'
      obtain rfl := Option.some.inj hd'
      exact hdigit hd

/-! ### Float values -/

/-- The digits after the point. -/
def fractionDigits : List Char → List Char
  | '.' :: s => s
  | _ => []

theorem takeWhile_isDigit {s t : List Char} (hs : ∀ c ∈ s, c.isDigit = true)
    (ht : ∀ c, t.head? = some c → c.isDigit = false) :
    (s ++ t).takeWhile Char.isDigit = s ∧ (s ++ t).dropWhile Char.isDigit = t := by
  have hrest : t.takeWhile Char.isDigit = [] ∧ t.dropWhile Char.isDigit = t := by
    cases t with
    | nil => exact ⟨rfl, rfl⟩
    | cons c t =>
      have hc := ht c rfl
      exact ⟨List.takeWhile_cons_of_neg (by simp [hc]), List.dropWhile_cons_of_neg (by simp [hc])⟩
  rw [List.takeWhile_append_of_pos hs, List.dropWhile_append_of_pos hs, hrest.1, hrest.2, List.append_nil]
  exact ⟨rfl, rfl⟩

theorem IsExponent.head {s : List Char} (h : IsExponent s) :
    ∀ c, s.head? = some c → c.isDigit = false ∧ c ≠ '.' := by
  cases h with
  | none => simp
  | unsigned hl _ | signed hl _ _ =>
    rintro c hc
    obtain rfl := Option.some.inj hc
    rcases hl with rfl | rfl <;> exact ⟨rfl, by decide⟩

theorem exponentText?_of_isExponent {s : List Char} (h : IsExponent s) : ∃ n, exponentText? s = some n := by
  cases h with
  | none => exact ⟨0, rfl⟩
  | @unsigned t _ hl hs =>
    have hint : integerText? t = some (digitsValue t : Int) := by
      simp only [integerText?, splitSign_of_isDigits hs, hs, if_true, Bool.false_eq_true, if_false]
    rcases hl with rfl | rfl <;> exact ⟨_, hint⟩
  | signed hl hg hs =>
    rcases hl with rfl | rfl <;> rcases hg with rfl | rfl <;>
      exact ⟨_, by simp only [exponentText?, integerText?, splitSign, hs, if_true]; rfl⟩

theorem decimalText?_eq {whole fraction exponent : List Char} {n : Int} (hw : isDigits whole = true)
    (hf : IsFraction fraction) (he : IsExponent exponent) (hn : exponentText? exponent = some n) (negative : Bool) :
    decimalText? negative (whole ++ (fraction ++ exponent)) =
      some (.ofDecimal negative (digitsValue (whole ++ fractionDigits fraction))
        (n - (fractionDigits fraction).length)) := by
  obtain ⟨hne, hall⟩ := isDigits_iff.1 hw
  have hempty : whole.isEmpty = false := by simpa using hne
  unfold decimalText?
  cases hf with
  | none =>
    obtain ⟨htake, hdrop⟩ := takeWhile_isDigit hall fun c hc => (he.head c hc).1
    simp only [List.nil_append, htake, hdrop]
    cases he with
    | none => simp_all [fractionDigits]
    | unsigned hl _ | signed hl _ _ => rcases hl with rfl | rfl <;> simp_all [fractionDigits]
  | @digits s hs =>
    obtain ⟨-, hfall⟩ := isDigits_iff.1 hs
    have hpoint : ∀ c, (('.' :: s) ++ exponent).head? = some c → c.isDigit = false := by
      intro c hc
      obtain rfl := Option.some.inj hc
      rfl
    obtain ⟨htake, hdrop⟩ := takeWhile_isDigit hall hpoint
    rw [List.cons_append] at htake hdrop
    obtain ⟨hftake, hfdrop⟩ := takeWhile_isDigit hfall fun c hc => (he.head c hc).1
    simp only [List.cons_append, htake, hdrop, hftake, hfdrop, hempty, Bool.false_and, Bool.false_eq_true,
      if_false, hn, fractionDigits]
    rfl

private theorem toLower_ne_of_isDigit {c : Char} (hc : c.isDigit = true) : c.toLower ≠ 'i' ∧ c.toLower ≠ 'n' := by
  have hrange := Char.isDigit_iff_toNat.1 hc
  have h0 : '0'.toNat = 48 := rfl
  have h9 : '9'.toNat = 57 := rfl
  have hdigits : ∀ k < 10, (Char.ofNat (48 + k)).toLower ≠ 'i' ∧ (Char.ofNat (48 + k)).toLower ≠ 'n' := by decide
  have hk := hdigits (c.toNat - 48) (by omega)
  rwa [show 48 + (c.toNat - 48) = c.toNat by omega, Char.ofNat_toNat] at hk

/-- A number is no word, so its float value is that of its parts. -/
theorem floatText?_of_head (negative : Bool) {s t u : List Char} {c : Char} (hsplit : splitSign s = (negative, t))
    (ht : t = c :: u) (hc : c.isDigit = true) : floatText? s = decimalText? negative t := by
  obtain ⟨hi, hn⟩ := toLower_ne_of_isDigit hc
  subst ht
  have hinf : List.map Char.toLower (c :: u) ≠ "inf".toList := fun h => hi (List.cons.inj h).1
  have hinfinity : List.map Char.toLower (c :: u) ≠ "infinity".toList := fun h => hi (List.cons.inj h).1
  have hnan : List.map Char.toLower (c :: u) ≠ "nan".toList := fun h => hn (List.cons.inj h).1
  unfold floatText?
  simp only [hsplit, hinf, hinfinity, hnan, decide_false, Bool.or_false, Bool.false_eq_true, if_false]

theorem floatText?_plain {s : List Char} (h : IsMagnitude s) : floatText? s = decimalText? false s := by
  obtain ⟨c, u, hs, hc⟩ := h.head
  exact floatText?_of_head false (hs ▸ splitSign_of_isDigit hc) hs hc

theorem floatText?_minus {s : List Char} (h : IsMagnitude s) : floatText? ('-' :: s) = decimalText? true s := by
  obtain ⟨c, u, hs, hc⟩ := h.head
  exact floatText?_of_head true rfl hs hc

theorem floatText?_isSome {s : List Char} (h : IsNumber s) : (floatText? s).isSome = true := by
  have hvalue {s : List Char} (negative : Bool) (h : IsMagnitude s) : (decimalText? negative s).isSome = true := by
    obtain ⟨hw, hf, he⟩ := h
    obtain ⟨n, hn⟩ := exponentText?_of_isExponent he
    rw [decimalText?_eq hw.isDigits hf he hn]
    rfl
  cases h with
  | plain hs =>
    rw [floatText?_plain hs]
    exact hvalue false hs
  | minus hs =>
    rw [floatText?_minus hs]
    exact hvalue true hs

/-! ### Lexemes -/

/-- Digits without a needless zero begin a lexeme, whatever follows that is no digit. -/
theorem starts_of_isWhole {whole rest : List Char} (hw : IsWhole whole)
    (hrest : ∀ c, rest.head? = some c → c.isDigit = false) :
    (match whole ++ rest with
      | '0' :: d :: _ => !d.isDigit
      | d :: _ => d.isDigit
      | [] => false) = true := by
  cases hw with
  | zero =>
    cases hr : rest with
    | nil => rfl
    | cons d r =>
      have hd := hrest d (by rw [hr]; rfl)
      simp [hd]
  | digits hs hzero =>
    obtain ⟨hne, hall⟩ := isDigits_iff.1 hs
    cases whole with
    | nil => exact absurd rfl hne
    | cons d u =>
      have hd := hall d (List.mem_cons_self ..)
      split
      · next heq =>
        cases (List.cons.inj heq).1
        exact absurd rfl hzero
      · next heq =>
        cases (List.cons.inj heq).1
        exact hd
      · next heq => cases heq

private theorem starts_of_isMagnitude (s : List Char) : IsMagnitude s →
    (match s with
      | '0' :: d :: _ => !d.isDigit
      | d :: _ => d.isDigit
      | [] => false) = true := by
  rintro ⟨hw, hf, he⟩
  refine starts_of_isWhole hw fun c hc => ?_
  cases hf with
  | none => exact (he.head c hc).1
  | digits _ =>
    obtain rfl := Option.some.inj hc
    rfl

/-- A digit ends a lexeme. -/
theorem ends_of_getLast? {s : List Char} (h : ∃ c, s.getLast? = some c ∧ c.isDigit = true) :
    (match s.getLast? with
      | some c => !(c = '.' || c = 'e' || c = 'E' || c = '+' || c = '-')
      | none => false) = true := by
  obtain ⟨c, hlast, hc⟩ := h
  have hne (d : Char) (hd : d.isDigit = false) : c ≠ d := by
    rintro rfl
    rw [hc] at hd
    cases hd
  simp [hlast, hne '.' rfl, hne 'e' rfl, hne 'E' rfl, hne '+' rfl, hne '-' rfl]

/-- The numbers of the grammar are lexemes. -/
theorem isLexeme_of_isNumber {s : List Char} (h : IsNumber s) : isLexeme s = true := by
  have hvalue := floatText?_isSome h
  unfold isLexeme
  rw [hvalue]
  extract_lets digits starts ends
  have hdigits : IsMagnitude digits := by
    cases h with
    | plain hs =>
      obtain ⟨c, t, rfl, hc⟩ := hs.head
      simp only [digits]
      split
      · next heq =>
        cases heq
        cases hc
      · exact hs
    | minus hs => exact hs
  have hstarts : starts = true := starts_of_isMagnitude digits hdigits
  have hends : ends = true := ends_of_getLast? hdigits.last
  rw [hstarts, hends]
  rfl

end Marshal
