import Marshal.Proofs.Converter.Containers
import Marshal.Proofs.Converter.Emission
import Marshal.Proofs.Net.Address
import Marshal.Proofs.Number.Shortest
import Marshal.Proofs.Value.Inside

/-!
# Native values read back

A value that a native kind carries is written as a token that the kind accepts, and reads back from it.  It also reads
back from its text as the key of an object.  Of paths this holds if they are texts: any other path is written as the
text that it shows.
-/

namespace Marshal

open Effect Reader WriteM

namespace NativeKind

/-- The values of a native kind: integers in range, finite floats, and number lexemes of the grammar. -/
inductive Carries : NativeKind → Value → Prop
  | bool (b : Bool) : Carries .bool (.bool b)
  | int {kind : NativeKind} {n : Int64} (hkind : kind = .i8 ∨ kind = .i16 ∨ kind = .i32 ∨ kind = .i64)
    (hn : kind.fits n = true) : Carries kind (.int n)
  | float {kind : NativeKind} {x : Binary64} (hkind : kind = .f32 ∨ kind = .f64) (hx : x.isFinite = true) :
    Carries kind (.float x)
  | char (c : Char) : Carries .char (.char c)
  | string (t : String) : Carries .string (.str t)
  | bigInt {lexeme : String} (h : IsNumber lexeme.toList) (hint : isIntegerLexeme lexeme.toList = true) :
    Carries .bigInt (.bigInt lexeme)
  | bigDecimal {lexeme : String} (h : IsNumber lexeme.toList) : Carries .bigDecimal (.decimal lexeme)
  | number {lexeme : String} (h : IsNumber lexeme.toList) : Carries .number (.number lexeme)
  | path (p : Path) : Carries .path (.path p)
  | ipAddr (a : Address) : Carries .ipAddr (.ip a)

theorem isNumber_toString (n : Int) : IsNumber (toString n).toList := by
  have hwhole (n : Nat) : IsMagnitude (Nat.toDigits 10 n) := by
    have hw : IsWhole (Nat.toDigits 10 n) := by
      by_cases hn : n = 0
      · subst hn
        exact .zero
      · exact .digits (isDigits_toDigits n) (head?_toDigits_ne_zero (Nat.pos_of_ne_zero hn))
    have hmagnitude := IsMagnitude.mk hw .none .none
    rwa [List.append_nil, List.append_nil] at hmagnitude
  rw [toList_toString_int]
  by_cases hn : 0 ≤ n
  · rw [if_pos hn]
    exact .plain (hwhole _)
  · rw [if_neg hn]
    exact .minus (hwhole _)

theorem integralText?_toString (n : Int64) : integralText? (toString n.toInt).toList = some n := by
  have htrim := trim_of_isNumber (isNumber_toString n.toInt)
  simp only [integralText?, htrim, int64Text?_toString]

/-! ### Reading -/

section Reading

variable {j : Json} {lexeme : String}

private theorem reads_readInt {kind : NativeKind} {n : Int64} (hn : kind.fits n = true)
    (h : Reads nextNumber (toString n.toInt) j) : Reads kind.readInt (.int n) j := by
  unfold readInt
  refine h.bind_of_state fun r => ?_
  rw [bind_of_ok (show integerOf (toString n.toInt) r = .ok n r by rw [integerOf, integralText?_toString]; rfl)]
  simp only [hn, if_true]
  rfl

private theorem reads_nextFloat {x : Binary64} (hx : x.isFinite = true) (h : Reads nextNumber x.display j) :
    Reads nextFloat x j := by
  obtain ⟨hnumber, hvalue⟩ := Binary64.isNumber_text hx
  unfold nextFloat
  refine h.bind_of_state fun r => ?_
  rw [Binary64.display, String.toList_ofList, trim_of_isNumber hnumber, hvalue]
  rfl

private theorem reads_readLexeme (hn : IsNumber lexeme.toList) (h : Reads nextNumber lexeme j) :
    Reads readLexeme lexeme j := by
  unfold readLexeme
  refine h.bind_of_state fun r => ?_
  rw [if_pos (floatText?_isSome hn)]
  rfl

private theorem reads_readBigInt (hn : isIntegerLexeme lexeme.toList = true) (h : Reads nextNumber lexeme j) :
    Reads readBigInt lexeme j := by
  unfold readBigInt
  refine h.bind_of_state fun r => ?_
  rw [if_pos hn]
  rfl

theorem reads_string (t : String) : Reads nextString t (.string t.toList) := by
  have h := reads_nextString t.toList
  rwa [String.ofList_toList] at h

private theorem reads_number_string (t : String) : Reads nextNumber t (.string t.toList) := by
  have h := reads_nextNumber_string t.toList
  rwa [String.ofList_toList] at h

private theorem reads_number (h : IsNumber lexeme.toList) : Reads nextNumber lexeme (.number lexeme.toList h) := by
  have hread := reads_nextNumber h
  rwa [String.ofList_toList] at hread

private theorem reads_char (c : Char) :
    Reads (readValue .char) (some (.char c)) (.string (String.singleton c).toList) := by
  have hchar (r : Reader) : charOf (String.singleton c) r = .ok c r := by
    rw [charOf, String.toList_singleton]
    rfl
  unfold readValue
  refine (reads_string (String.singleton c)).bind_of_state fun r => ?_
  rw [bind_of_ok (hchar r)]
  rfl

/-- A text is read as the path with its bytes. -/
private theorem reads_path (t : String) : Reads (readValue .path) (some (.path (.ofText t))) (.string t.toList) :=
  (reads_string t).map fun t => some (Value.path (.ofText t))

private theorem reads_path_of_isText {p : Path} (hp : p.IsText) :
    Reads (readValue .path) (some (.path p)) (.string p.text.toList) := by
  have hread := reads_path p.text
  rwa [← hp] at hread

private theorem reads_address (a : Address) : Reads (readValue .ipAddr) (some (.ip a)) (.string a.text.toList) := by
  have haddress : Reads readAddress a (.string a.text.toList) := by
    unfold readAddress
    refine (reads_string a.text).bind_of_state fun r => ?_
    rw [Address.ofText?_text]
    rfl
  exact haddress.map fun a => some (Value.ip a)

/-- A value that is not null is read by its kind. -/
theorem reads_read {kind : NativeKind} {v : Option Value} (hj : j.kind ≠ .null) (h : Reads kind.readValue v j) :
    Reads kind.read v j := by
  unfold read
  refine reads_peek ?_
  rw [if_neg hj]
  exact h

end Reading

/-- How a value that a kind carries is written and read. -/
structure Encodes (s : Store) (kind : NativeKind) (v : Value) (j : Json) : Prop where
  writes : Writes s (kind.writeValue v) j
  reads : Reads kind.readValue (some v) j
  accepted : j.kind ∈ kind.acceptedTokens

theorem not_null_of_mem_acceptedTokens {kind : NativeKind} {t : TokenKind} (h : t ∈ kind.acceptedTokens) :
    t ≠ .null := by
  rintro rfl
  cases kind <;> simp [acceptedTokens] at h

private theorem encodes_int (s : Store) {kind : NativeKind} {n : Int64}
    (hkind : kind = .i8 ∨ kind = .i16 ∨ kind = .i32 ∨ kind = .i64) (hn : kind.fits n = true) :
    Encodes s kind (.int n) (.number (toString n.toInt).toList (isNumber_toString n.toInt)) where
  writes := by
    have hwrites : Writes s (token (Writer.int n)) _ := writes_number (isNumber_toString n.toInt)
    rcases hkind with rfl | rfl | rfl | rfl
    all_goals
      simp only [writeValue, hn, if_true]
      exact hwrites
  reads := by
    have hread := (reads_readInt hn (reads_number (isNumber_toString n.toInt))).map fun v => some v
    rcases hkind with rfl | rfl | rfl | rfl <;> exact hread
  accepted := by rcases hkind with rfl | rfl | rfl | rfl <;> simp [acceptedTokens, Json.kind]

private theorem encodes_float (s : Store) {kind : NativeKind} {x : Binary64} (hkind : kind = .f32 ∨ kind = .f64)
    (hx : x.isFinite = true) :
    Encodes s kind (.float x) (.number x.text (Binary64.isNumber_text hx).1) where
  writes := by
    have hwrites : Writes s (token (Writer.float x)) (.number x.text (Binary64.isNumber_text hx).1) := by
      rw [Writer.float, if_pos hx]
      exact writes_value String.toList_ofList
    rcases hkind with rfl | rfl <;> exact hwrites
  reads := by
    have hread := (reads_nextFloat hx (reads_nextNumber (Binary64.isNumber_text hx).1)).map fun x =>
      some (Value.float x)
    rcases hkind with rfl | rfl <;> exact hread
  accepted := by rcases hkind with rfl | rfl <;> simp [acceptedTokens, Json.kind]

/-- Every value that a kind carries is written as a token that the kind accepts and reads back. -/
theorem Carries.exists_encodes {kind : NativeKind} {v : Value} (h : kind.Carries v) (htext : v.PathsAreText)
    (s : Store) : ∃ j, Encodes s kind v j := by
  cases h with
  | bool b =>
    refine ⟨.bool b, writes_bool b, ?_, by simp [acceptedTokens, Json.kind]⟩
    unfold readValue
    refine reads_peek ?_
    rw [if_pos (show (Json.bool b).kind = .boolean from rfl)]
    exact (reads_nextBool b).map fun b => some (Value.bool b)
  | int hkind hn => exact ⟨_, encodes_int s hkind hn⟩
  | float hkind hx => exact ⟨_, encodes_float s hkind hx⟩
  | char c =>
    exact ⟨.string (String.singleton c).toList, writes_string _, reads_char c, by simp [acceptedTokens, Json.kind]⟩
  | string t =>
    exact ⟨.string t.toList, writes_string t, (reads_string t).map fun t => some (Value.str t),
      by simp [acceptedTokens, Json.kind]⟩
  | bigInt h hint =>
    exact ⟨.number _ h, writes_number h, (reads_readBigInt hint (reads_number h)).map fun l => some (Value.bigInt l),
      by simp [acceptedTokens, Json.kind]⟩
  | bigDecimal h =>
    exact ⟨.number _ h, writes_number h, (reads_readLexeme h (reads_number h)).map fun l => some (Value.decimal l),
      by simp [acceptedTokens, Json.kind]⟩
  | number h =>
    exact ⟨.number _ h, writes_number h, (reads_readLexeme h (reads_number h)).map fun l => some (Value.number l),
      by simp [acceptedTokens, Json.kind]⟩
  | path p =>
    exact ⟨.string p.text.toList, writes_string p.text, reads_path_of_isText (htext p .self),
      by simp [acceptedTokens, Json.kind]⟩
  | ipAddr a =>
    exact ⟨.string a.text.toList, writes_string a.text, reads_address a, by simp [acceptedTokens, Json.kind]⟩

/-- Every value that a kind carries has a text as the key of an object, and reads back from it. -/
theorem Carries.exists_keyText {kind : NativeKind} {v : Value} (h : kind.Carries v) (htext : v.PathsAreText) :
    ∃ name, v.keyText? = some name ∧ Reads kind.readValue (some v) (.string name.toList) := by
  cases h with
  | bool b =>
    refine ⟨_, rfl, ?_⟩
    unfold readValue
    refine reads_peek ?_
    rw [if_neg (by simp [Json.kind])]
    have hbool (r : Reader) : boolOf (if b then "true" else "false") r = .ok b r := by cases b <;> rfl
    refine (reads_string _).bind_of_state fun r => ?_
    rw [bind_of_ok (hbool r)]
    rfl
  | int hkind hn =>
    have hread := (reads_readInt hn (reads_number_string _)).map fun v => some v
    exact ⟨_, rfl, by rcases hkind with rfl | rfl | rfl | rfl <;> exact hread⟩
  | @float kind x hkind hx =>
    have hread := (reads_nextFloat hx (reads_number_string x.display)).map fun x => some (Value.float x)
    exact ⟨_, rfl, by rcases hkind with rfl | rfl <;> exact hread⟩
  | char c => exact ⟨_, rfl, reads_char c⟩
  | string t => exact ⟨t, rfl, (reads_string t).map fun t => some (Value.str t)⟩
  | bigInt _ hint =>
    exact ⟨_, rfl, (reads_readBigInt hint (reads_number_string _)).map fun l => some (Value.bigInt l)⟩
  | bigDecimal h => exact ⟨_, rfl, (reads_readLexeme h (reads_number_string _)).map fun l => some (Value.decimal l)⟩
  | number h => exact ⟨_, rfl, (reads_readLexeme h (reads_number_string _)).map fun l => some (Value.number l)⟩
  | path p => exact ⟨p.text, rfl, reads_path_of_isText (htext p .self)⟩
  | ipAddr a => exact ⟨_, rfl, reads_address a⟩

end NativeKind

end Marshal
