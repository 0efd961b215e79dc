import Mathlib.Data.List.TakeWhile
import Marshal.Model.Field
import Marshal.Proofs.Number.Digits

/-!
# The text of flags

The text of flags reads back into them, bits without a name included (`ofText?_text`).
-/

namespace Marshal.FieldFlags

open Text (isBlank trim)

/-! ### Bits in hexadecimal -/

private theorem hexDigit?_digitChar : ∀ k < 16, hexDigit? k.digitChar = some k := by decide

/-- A hexadecimal digit is neither a blank nor one of the signs of a flag text. -/
private theorem digitChar_plain : ∀ k < 16, isBlank k.digitChar = false ∧ k.digitChar ≠ '|' ∧ k.digitChar ≠ '+' := by
  decide +kernel

private theorem toList_hexText (b : UInt8) : (hexText b).toList =
    if b.toNat < 16 then [b.toNat.digitChar] else [(b.toNat / 16).digitChar, (b.toNat % 16).digitChar] := by
  have hb : b.toNat / 16 < 16 := Nat.div_lt_of_lt_mul b.toNat_lt
  rw [hexText, String.toList_ofList]
  split
  · next h => rw [Nat.toDigits_of_lt_base h]
  · next h => rw [Nat.toDigits_of_base_le (by decide) (by omega), Nat.toDigits_of_lt_base hb]; rfl

private theorem plain_of_mem_hexText {b : UInt8} {c : Char} (h : c ∈ (hexText b).toList) :
    isBlank c = false ∧ c ≠ '|' ∧ c ≠ '+' := by
  have hhigh : b.toNat / 16 < 16 := Nat.div_lt_of_lt_mul b.toNat_lt
  have hlow : b.toNat % 16 < 16 := Nat.mod_lt _ (by decide)
  rw [toList_hexText] at h
  split at h
  · next hb =>
    obtain rfl := List.mem_singleton.1 h
    exact digitChar_plain _ hb
  · simp only [List.mem_cons, List.not_mem_nil, or_false] at h
    obtain rfl | rfl := h
    · exact digitChar_plain _ hhigh
    · exact digitChar_plain _ hlow

private theorem hexText_ne_nil (b : UInt8) : (hexText b).toList ≠ [] := by
  rw [toList_hexText]
  split <;> simp

private theorem hexValue?_hexText (b : UInt8) : hexValue? (hexText b).toList = some b.toNat := by
  have hhigh : b.toNat / 16 < 16 := Nat.div_lt_of_lt_mul b.toNat_lt
  have hlow : b.toNat % 16 < 16 := Nat.mod_lt _ (by decide)
  rw [toList_hexText]
  split
  · next hb => simp [hexValue?, hexDigit?_digitChar _ hb]
  · simp [hexValue?, hexDigit?_digitChar _ hhigh, hexDigit?_digitChar _ hlow, Nat.div_add_mod]

private theorem ofHex?_hexText (b : UInt8) : ofHex? (hexText b).toList = some ⟨b⟩ := by
  have hsign : ∀ s, (hexText b).toList ≠ '+' :: s := fun s hs =>
    (plain_of_mem_hexText (b := b) (c := '+') (by simp [hs])).2.2 rfl
  unfold ofHex?
  split
  · next s hs => exact absurd hs (hsign s)
  · simp [hexValue?_hexText, b.toNat_lt]

/-! ### Parts between bars -/

/-- Takes the flags of each part of a text to those in `flags`. -/
private def addParts? (flags : FieldFlags) (s : List Char) : Option FieldFlags :=
  (splitBars s).foldlM (fun flags part => (ofPart? (trim part)).map flags.union) flags

private theorem splitBars_bar {s : List Char} (h : '|' ∉ s) (t : List Char) :
    splitBars (s ++ '|' :: t) = s :: splitBars t := by
  induction s with
  | nil => rfl
  | cons c s ih =>
    simp only [List.mem_cons, not_or] at h
    rw [List.cons_append, splitBars, if_neg (Ne.symm h.1), ih h.2]

private theorem splitBars_self {s : List Char} (h : '|' ∉ s) : splitBars s = [s] := by
  induction s with
  | nil => rfl
  | cons c s ih =>
    simp only [List.mem_cons, not_or] at h
    rw [splitBars, if_neg (Ne.symm h.1), ih h.2]

private theorem addParts?_bar {s : List Char} {f : FieldFlags} (hs : '|' ∉ s) (hf : ofPart? (trim s) = some f)
    (flags : FieldFlags) (t : List Char) : addParts? flags (s ++ '|' :: t) = addParts? (flags.union f) t := by
  simp [addParts?, splitBars_bar hs, hf]

private theorem addParts?_self {s : List Char} {f : FieldFlags} (hs : '|' ∉ s) (hf : ofPart? (trim s) = some f)
    (flags : FieldFlags) : addParts? flags s = some (flags.union f) := by
  simp [addParts?, splitBars_self hs, hf]

private theorem addParts?_blank (flags : FieldFlags) (s : List Char) :
    addParts? flags (' ' :: s) = addParts? flags s := by
  have hsplit : ∃ part parts, splitBars s = part :: parts := by
    cases s with
    | nil => exact ⟨[], [], rfl⟩
    | cons c s =>
      rw [splitBars]
      split
      · exact ⟨_, _, rfl⟩
      · split <;> exact ⟨_, _, rfl⟩
  obtain ⟨part, parts, hparts⟩ := hsplit
  have htrim : trim (' ' :: part) = trim part := rfl
  simp [addParts?, splitBars, hparts, htrim]

/-- A name, the bar behind it and the blanks around the bar. -/
private theorem addParts?_name (name : List Char) {f : FieldFlags} (hname : '|' ∉ name)
    (hf : ofPart? (trim (name ++ [' '])) = some f) (flags : FieldFlags) (s : List Char) :
    addParts? flags (name ++ ' ' :: '|' :: ' ' :: s) = addParts? (flags.union f) s := by
  have hbar := addParts?_bar (s := name ++ [' ']) (by simpa using hname) hf flags (' ' :: s)
  rw [addParts?_blank, List.append_assoc] at hbar
  exact hbar

/-! ### Reading the text -/

/-- The part of a flag text that holds the bits without a name. -/
private def bitsText (b : UInt8) : List Char := '0' :: 'x' :: (hexText b).toList

private theorem bar_notMem_bitsText (b : UInt8) : '|' ∉ bitsText b := by
  simp only [bitsText, List.mem_cons, not_or]
  exact ⟨by decide, by decide, fun h => (plain_of_mem_hexText h).2.1 rfl⟩

private theorem ofPart?_bitsText (b : UInt8) : ofPart? (trim (bitsText b)) = some ⟨b⟩ := by
  have hlast : ∀ c, (bitsText b).getLast? = some c → isBlank c = false := by
    intro c hc
    obtain ⟨d, s, hs⟩ := List.exists_cons_of_ne_nil (hexText_ne_nil b)
    have hmem : c ∈ (hexText b).toList := by
      rw [bitsText, hs, List.getLast?_cons_cons, List.getLast?_cons_cons] at hc
      rw [hs]
      exact List.mem_of_getLast? hc
    exact (plain_of_mem_hexText hmem).1
  rw [trim_eq_self (fun c hc => by obtain rfl := Option.some.inj hc; decide) hlast]
  exact ofHex?_hexText b

private theorem trim_isEmpty {s : List Char} {c : Char} (hc : c ∈ s) (hb : isBlank c = false) :
    (trim s).isEmpty = false := by
  cases hs : s.dropWhile isBlank with
  | nil => simp [List.dropWhile_eq_nil_iff.1 hs c hc] at hb
  | cons d t =>
    have hd : isBlank d = false := by
      have hne : s.dropWhile isBlank ≠ [] := by simp [hs]
      have hhead := List.head_dropWhile_not isBlank hne
      simpa [hs] using hhead
    have hne : (d :: t).reverse.dropWhile isBlank ≠ [] := fun h => by
      have hblank := List.dropWhile_eq_nil_iff.1 h d (by simp)
      simp [hd] at hblank
    simpa [trim, hs] using hne

/-- The names in front of the bits without a name. -/
private def namesText (flags : FieldFlags) (s : List Char) : List Char :=
  let s := if flags.contains writeRuntimeType then "WRITE_RUNTIME_TYPE".toList ++ ' ' :: '|' :: ' ' :: s else s
  if flags.contains nonNull then "NON_NULL".toList ++ ' ' :: '|' :: ' ' :: s else s

private theorem toList_text {flags : FieldFlags} (h : flags.bits &&& 0xfc ≠ 0) :
    flags.text.toList = namesText flags (bitsText (flags.bits &&& 0xfc)) := by
  cases hn : flags.contains nonNull <;> cases hw : flags.contains writeRuntimeType <;>
    simp [text, named, namesText, bitsText, hn, hw, h]

private theorem forall_byte {P : UInt8 → Prop} (h : ∀ n : Fin 256, P (UInt8.ofNat n.val)) (b : UInt8) : P b := by
  simpa using h ⟨b.toNat, b.toNat_lt⟩

/-- The named flags of a byte. -/
private def namedOf (b : UInt8) : FieldFlags :=
  let f := if contains ⟨b⟩ nonNull then none.union nonNull else none
  if contains ⟨b⟩ writeRuntimeType then f.union writeRuntimeType else f

private theorem union_bits : ∀ b : UInt8, (namedOf b).union ⟨b &&& 0xfc⟩ = ⟨b⟩ := forall_byte (by decide +kernel)

private theorem of_bits_eq_zero : ∀ b : UInt8, b &&& 0xfc = 0 → b = 0 ∨ b = 1 ∨ b = 2 ∨ b = 3 :=
  forall_byte (by decide +kernel)

private theorem addParts?_namesText (flags : FieldFlags) (s : List Char) :
    addParts? none (namesText flags s) = addParts? (namedOf flags.bits) s := by
  have hnonNull := addParts?_name "NON_NULL".toList (f := nonNull) (by decide) (by decide +kernel)
  have hruntime := addParts?_name "WRITE_RUNTIME_TYPE".toList (f := writeRuntimeType) (by decide)
    (by decide +kernel)
  unfold namesText namedOf
  cases flags.contains nonNull <;> cases flags.contains writeRuntimeType <;>
    simp only [hnonNull, hruntime, if_true, Bool.false_eq_true, if_false]

theorem ofText?_text (flags : FieldFlags) : ofText? flags.text = some flags := by
  by_cases h : flags.bits &&& 0xfc = 0
  · have hflags : flags = ⟨0⟩ ∨ flags = ⟨1⟩ ∨ flags = ⟨2⟩ ∨ flags = ⟨3⟩ := by
      simpa only [← FieldFlags.mk.injEq] using of_bits_eq_zero flags.bits h
    obtain rfl | rfl | rfl | rfl := hflags <;> decide +kernel
  · have hzero : '0' ∈ flags.text.toList := by
      rw [toList_text h]
      unfold namesText bitsText
      split <;> split <;> simp
    have htrim : ¬(trim flags.text.toList).isEmpty = true := by simp [trim_isEmpty hzero (by decide)]
    calc ofText? flags.text = addParts? none flags.text.toList := if_neg htrim
      _ = addParts? (namedOf flags.bits) (bitsText (flags.bits &&& 0xfc)) := by
        rw [toList_text h, addParts?_namesText]
      _ = some ((namedOf flags.bits).union ⟨flags.bits &&& 0xfc⟩) :=
        addParts?_self (bar_notMem_bitsText _) (ofPart?_bitsText _) _
      _ = some flags := by rw [union_bits]

end Marshal.FieldFlags
