import Marshal.Proofs.Converter.Maps
import Marshal.Proofs.Number.Denotation

/-!
# Integers that are read

A kind of integers reads a number, or a string that spells one, as an integer of its range (`Converter.read_integer`).
A number that is neither spelled as an integer of 64 bits nor a float is read as an integer if the nearest float is
one, and then as another number than it is.
-/

namespace Marshal

open Reader

namespace NativeKind

variable {kind : NativeKind} {lexeme : String} {x : ℚ} {n : Int64} {j : Document}

/-- The integers that a kind makes of a number or of a string that spells one. -/
private theorem ofDocument?_integer (hkind : kind ∈ [.i8, .i16, .i32, .i64]) (hx : HasValue lexeme.toList x)
    (hj : j = .number lexeme ∨ j = .string lexeme) :
    kind.ofDocument? j = some (some (.int n)) ↔ kind.fits n = true ∧ Reads64 lexeme.toList x n := by
  have hdocument : kind.ofDocument? j = ((integralText? lexeme.toList).bind fun n =>
      if kind.fits n then some (.int n) else none).map some := by
    simp only [List.mem_cons, List.not_mem_nil, or_false] at hkind
    rcases hkind with rfl | rfl | rfl | rfl <;> rcases hj with rfl | rfl <;> rfl
  rw [hdocument, Option.map_eq_some_iff]
  simp only [Option.some.injEq, exists_eq_right, Option.bind_eq_some_iff, Option.ite_none_right_eq_some,
    hx.integralText?_eq_some_iff]
  constructor
  · rintro ⟨k, hk, hfits, heq⟩
    obtain rfl := Value.int.inj heq
    exact ⟨hfits, hk⟩
  · rintro ⟨hfits, hn⟩
    exact ⟨n, hn, hfits, rfl⟩

end NativeKind

namespace Converter

variable {ds : Delegates} {fuel id : Nat} {kind : NativeKind} {lexeme : String} {x : ℚ} {n : Int64}
  {j : Document} {p : Place} {r : Reader}

private theorem exists_read_native_iff {v : Option Value} (hr : At p j r) :
    (∃ r', (native id kind).read ds (fuel + 1) r = .ok v r') ↔ kind.ofDocument? j = some v :=
  (kind.decides_read j p r hr).exists_ok_iff

/-- Wherever a number stands, or a string that spells one, a kind of integers reads the integer of its range that the
number is, or that is nearest to it among the floats.  It is the value of the number if that is spelled as an integer
of 64 bits, or is a float, as all integers up to 2^53 are; of no other number is it the value. -/
theorem read_integer (hkind : kind ∈ [.i8, .i16, .i32, .i64]) (hx : HasValue lexeme.toList x)
    (hj : j = .number lexeme ∨ j = .string lexeme) (hr : At p j r) :
    ((∃ r', (native id kind).read ds (fuel + 1) r = .ok (some (.int n)) r') ↔
      kind.fits n = true ∧ Reads64 lexeme.toList x n) ∧
    (Reads64 lexeme.toList x n → (x = n.toInt ↔ IsExact64 lexeme.toList x)) ∧
    (x = n.toInt → n.toInt.natAbs ≤ 2 ^ 53 → Reads64 lexeme.toList x n) := by
  refine ⟨?_, Reads64.eq_iff, ?_⟩
  · exact (exists_read_native_iff hr).trans (NativeKind.ofDocument?_integer hkind hx hj)
  · rintro rfl hn
    exact (isExact64_of_natAbs_le hn _).reads

/-! ### Numbers -/

private theorem exists_at_number (h : IsNumber lexeme.toList) :
    ∃ p, At p (.number lexeme) (ofText lexeme.toList) := by
  have hspells := (Json.number lexeme.toList h).spellsDocument_text
  rw [Json.document, Json.text, String.toList_ofList, String.ofList_toList] at hspells
  obtain ⟨b, -, hat⟩ := at_ofText hspells (Nat.zero_le _)
  exact ⟨_, hat⟩

private theorem hasValue_point : HasValue "3.0".toList ((3 : Int64).toInt : ℚ) := by
  have hwhole : IsWhole ['3'] := .digits (by decide) (by decide)
  have hfraction : IsFraction ['.', '0'] := .digits (s := ['0']) (by decide)
  have hthree : digitsValue ['3'] = 3 ∧ digitsValue (fractionDigits ['.', '0']) = 0 ∧
      (3 : Int64).toInt = 3 := by decide
  have hx := HasValue.plain (.mk hwhole hfraction .none)
  rw [hthree.1, hthree.2.1] at hx
  rw [hthree.2.2]
  simpa using hx

theorem read_integer_point : ∃ r', (native 0 .i8).read [] 1 (ofText "3.0".toList) = .ok (some (.int 3)) r' := by
  obtain ⟨p, hat⟩ := exists_at_number hasValue_point.isNumber
  have hexact : IsExact64 "3.0".toList (3 : Int64).toInt := isExact64_of_natAbs_le (by decide) _
  exact (read_integer (by decide) hasValue_point (.inl rfl) hat).1.2 ⟨by decide, hexact.reads⟩

private theorem hasValue_below : HasValue "-9223372036854775809".toList (-(9223372036854775809 : Nat)) := by
  have hwhole : IsWhole "9223372036854775809".toList := .digits (by decide) (by decide)
  have hcount : digitsValue "9223372036854775809".toList = 9223372036854775809 := by decide
  have hx := HasValue.minus (.mk hwhole .none .none)
  rw [hcount] at hx
  simpa [fractionDigits, digitsValue] using hx

/-- An integer that is read need not be the number in the text. -/
theorem not_forall_read_exact : ¬∀ kind ∈ [NativeKind.i8, .i16, .i32, .i64], ∀ (lexeme : String) (x : ℚ) (n : Int64)
    (j : Document) (p : Place) (r r' : Reader), HasValue lexeme.toList x → (j = .number lexeme ∨ j = .string lexeme) →
      At p j r → (native 0 kind).read [] 1 r = .ok (some (.int n)) r' → x = n.toInt ∧ kind.fits n = true := by
  intro h
  obtain ⟨p, hat⟩ := exists_at_number hasValue_below.isNumber
  have hint : integralText? "-9223372036854775809".toList = some Int64.minValue := by decide +kernel
  have hdocument := (NativeKind.ofDocument?_integer (by decide : NativeKind.i64 ∈ _) hasValue_below (.inl rfl)).2
    ⟨rfl, hasValue_below.integralText?_eq_some_iff.1 hint⟩
  obtain ⟨r', hread⟩ := (exists_read_native_iff hat).2 hdocument
  obtain ⟨hvalue, -⟩ := h .i64 (by decide) _ _ _ _ p _ r' hasValue_below (.inl rfl) hat hread
  rw [Int64.toInt_minValue] at hvalue
  norm_num at hvalue

end Converter

end Marshal
