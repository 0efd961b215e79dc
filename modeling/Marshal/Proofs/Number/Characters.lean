import Mathlib.Data.List.TakeWhile
import Marshal.Proofs.Number.Digits

/-!
# The characters of number texts

Every character of a text that denotes a float, a word or an integer among them, is a digit, a sign, a point or one of
a few letters (`isNumeric_of_floatText?`).
-/

namespace Marshal

/-- Digits, signs, the point, and the letters of exponents, of `infinity` and of `nan`. -/
def isNumeric (x : Char) : Bool := x.isDigit || x.toLower ∈ "+-.einftya".toList

variable {s : List Char}

private theorem isNumeric_of_isDigit {x : Char} (h : x.isDigit = true) : isNumeric x = true := by
  rw [isNumeric, h, Bool.true_or]

theorem isNumeric_of_isDigits (h : isDigits s = true) : ∀ x ∈ s, isNumeric x = true :=
  fun x hx => isNumeric_of_isDigit ((isDigits_iff.1 h).2 x hx)

theorem isNumeric_of_isIntegerLexeme (h : isIntegerLexeme s = true) : ∀ x ∈ s, isNumeric x = true := by
  unfold isIntegerLexeme at h
  split at h
  · exact List.forall_mem_cons.2 ⟨rfl, isNumeric_of_isDigits h⟩
  · exact isNumeric_of_isDigits h

/-- A sign in front makes no difference. -/
private theorem isNumeric_of_splitSign (h : ∀ x ∈ (splitSign s).2, isNumeric x = true) :
    ∀ x ∈ s, isNumeric x = true := by
  unfold splitSign at h
  split at h
  · exact List.forall_mem_cons.2 ⟨rfl, h⟩
  · exact List.forall_mem_cons.2 ⟨rfl, h⟩
  · exact h

private theorem isNumeric_of_integerText? {n : Int} (h : integerText? s = some n) : ∀ x ∈ s, isNumeric x = true := by
  obtain ⟨hdigits, -⟩ := Option.ite_none_right_eq_some.1 h
  exact isNumeric_of_splitSign (isNumeric_of_isDigits hdigits)

private theorem isNumeric_of_exponentText? {n : Int} (h : exponentText? s = some n) :
    ∀ x ∈ s, isNumeric x = true := by
  unfold exponentText? at h
  split at h
  · exact List.forall_mem_cons.2 ⟨rfl, isNumeric_of_integerText? h⟩
  · exact List.forall_mem_cons.2 ⟨rfl, isNumeric_of_integerText? h⟩
  · exact List.forall_mem_nil _
  · cases h

private theorem isNumeric_of_dropWhile (h : ∀ x ∈ s.dropWhile Char.isDigit, isNumeric x = true) :
    ∀ x ∈ s, isNumeric x = true := by
  rw [← List.takeWhile_append_dropWhile (p := Char.isDigit) (l := s), List.forall_mem_append]
  exact ⟨fun x hx => isNumeric_of_isDigit (List.mem_takeWhile_imp hx), h⟩

private theorem isNumeric_of_decimalText? {negative : Bool} {y : Binary64} (h : decimalText? negative s = some y) :
    ∀ x ∈ s, isNumeric x = true := by
  have hexponent {t : List Char} {p : Int → Option Binary64} (h : (exponentText? t).bind p = some y) :
      ∀ x ∈ t, isNumeric x = true := by
    obtain ⟨n, hn, -⟩ := Option.bind_eq_some_iff.1 h
    exact isNumeric_of_exponentText? hn
  apply isNumeric_of_dropWhile
  unfold decimalText? at h
  dsimp only at h
  -- behind the digits, and behind a point and the digits there, an exponent is left
  split at h
  · next u hu =>
    split at h
    · cases h
    · rw [hu]
      exact List.forall_mem_cons.2 ⟨rfl, isNumeric_of_dropWhile (hexponent h)⟩
  · split at h
    · cases h
    · exact hexponent h

theorem isNumeric_of_floatText? (h : (floatText? s).isSome = true) : ∀ x ∈ s, isNumeric x = true := by
  have hword {w : List Char} (hw : w.all (· ∈ "+-.einftya".toList) = true)
      (h : (splitSign s).2.map Char.toLower = w) : ∀ x ∈ (splitSign s).2, isNumeric x = true := by
    intro x hx
    rw [isNumeric, Bool.or_eq_true]
    exact .inr (List.all_eq_true.1 hw _ (h ▸ List.mem_map_of_mem hx))
  apply isNumeric_of_splitSign
  obtain ⟨y, hy⟩ := Option.isSome_iff_exists.1 h
  unfold floatText? at hy
  dsimp only at hy
  split at hy
  · next h =>
    rcases Bool.or_eq_true_iff.1 h with h | h
    · exact hword (by decide) (of_decide_eq_true h)
    · exact hword (by decide) (of_decide_eq_true h)
  · split at hy
    · next h => exact hword (by decide) h
    · exact isNumeric_of_decimalText? hy

end Marshal
