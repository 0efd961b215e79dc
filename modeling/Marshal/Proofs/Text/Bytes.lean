import Mathlib.Data.List.TakeWhile
import Marshal.Text.Quoted
import Marshal.Text.Utf8

/-!
# Bytes of a text

A text as the bytes of its characters, and places in it that are counted in bytes.  `Stands` says where a cursor may
be: in front of a character, inside the character in front of which it was meant to be, or one byte behind the end.
Where it stands, the byte at hand tells as much as the character does, if that is a character of one byte
(`Stands.fronts`).
-/

namespace Marshal.Text

/-- A text cut behind a number of its bytes, if a character ends there. -/
def splitAt? : (count : Nat) → List Char → Option (List Char × List Char)
  | 0, s => some ([], s)
  | _ + 1, [] => none
  | count + 1, c :: s =>
    if c.utf8Size ≤ count + 1 then (splitAt? (count + 1 - c.utf8Size) s).map fun (t, u) => (c :: t, u) else none

/-- The part of a text from one byte on, if it is cut between characters. -/
def slice? (start count : Nat) (s : List Char) : Option (List Char) := do
  let (_, rest) ← splitAt? start s
  let (part, _) ← splitAt? count rest
  return part

/-! ### Cutting a text -/

theorem splitAt?_append (s t : List Char) : splitAt? (utf8Size s) (s ++ t) = some (s, t) := by
  induction s with
  | nil => rw [utf8Size, splitAt?, List.nil_append]
  | cons c s ih =>
    obtain ⟨n, hn⟩ := Nat.exists_eq_succ_of_ne_zero (Nat.ne_zero_of_lt c.utf8Size_pos)
    have hsize : utf8Size (c :: s) = n + utf8Size s + 1 := by rw [utf8Size, hn]; omega
    have hrest : n + utf8Size s + 1 - c.utf8Size = utf8Size s := by omega
    rw [hsize, List.cons_append, splitAt?, if_pos (by omega), hrest, ih]
    rfl

theorem splitAt?_eq_some {count : Nat} {s t u : List Char} (h : splitAt? count s = some (t, u)) :
    s = t ++ u ∧ utf8Size t = count := by
  fun_induction splitAt? count s generalizing t u with
  | case1 s =>
    obtain ⟨rfl, rfl⟩ := Prod.mk.inj (Option.some.inj h)
    exact ⟨rfl, rfl⟩
  | case2 => cases h
  | case3 count c s hle ih =>
    obtain ⟨⟨t', u'⟩, hsplit, heq⟩ := Option.map_eq_some_iff.1 h
    obtain ⟨rfl, rfl⟩ := Prod.mk.inj heq
    obtain ⟨rfl, hsize⟩ := ih hsplit
    exact ⟨rfl, by rw [utf8Size, hsize]; omega⟩
  | case4 => cases h

theorem isBoundary_eq (count : Nat) (s : List Char) : isBoundary count s = (splitAt? count s).isSome := by
  fun_induction splitAt? count s with
  | case1 => rw [isBoundary]; rfl
  | case2 => rfl
  | case3 count c s hle ih => rw [isBoundary, ih, Option.isSome_map, decide_eq_true hle, Bool.true_and]
  | case4 count c s hle => rw [isBoundary, decide_eq_false hle, Bool.false_and]; rfl

/-! ### Bytes of a character -/

private theorem bytes_cons (c : Char) (s : List Char) : bytes (c :: s) = String.utf8EncodeChar c ++ bytes s := rfl

private theorem bytes_append (s t : List Char) : bytes (s ++ t) = bytes s ++ bytes t := List.flatMap_append

theorem length_bytes (s : List Char) : (bytes s).length = utf8Size s := by
  induction s with
  | nil => rfl
  | cons c s ih => rw [bytes_cons, List.length_append, String.length_utf8EncodeChar, ih, utf8Size]

theorem utf8ByteSize_eq (s : String) : s.utf8ByteSize = utf8Size s.toList := by
  have hbytes : s.toByteArray = s.toList.utf8Encode := by rw [← String.toByteArray_ofList, String.ofList_toList]
  rw [← String.size_toByteArray, hbytes, ← length_bytes]
  simp [List.utf8Encode, bytes]

private theorem length_le_utf8Size (s : List Char) : s.length ≤ utf8Size s := by
  induction s with
  | nil => exact Nat.zero_le _
  | cons c s ih =>
    have hpos := c.utf8Size_pos
    rw [List.length_cons, utf8Size]
    omega

private theorem utf8Size_eq_one {c : Char} (hc : c.toNat < 128) : c.utf8Size = 1 := by
  rw [Char.utf8Size_eq_one_iff, UInt32.le_iff_toNat_le]
  exact Nat.le_of_lt_succ hc

theorem utf8Size_of_ascii {s : List Char} (hs : ∀ c ∈ s, c.toNat < 128) : utf8Size s = s.length := by
  induction s with
  | nil => rfl
  | cons c s ih =>
    rw [utf8Size, utf8Size_eq_one (hs c (by simp)), ih fun d hd => hs d (by simp [hd]), List.length_cons]
    omega

private theorem utf8EncodeChar_ascii {c : Char} (hc : c.toNat < 128) : String.utf8EncodeChar c = [c.toUInt8] :=
  String.utf8EncodeChar_eq_singleton (utf8Size_eq_one hc)

/-- The bytes of a character that takes more than one are no characters of their own. -/
private theorem le_of_mem_utf8EncodeChar {c : Char} (hc : 128 ≤ c.toNat) {x : UInt8}
    (hx : x ∈ String.utf8EncodeChar c) : 128 ≤ x.toNat := by
  have hbyte {n : Nat} (hn : 128 ≤ n ∧ n < 256) : 128 ≤ (UInt8.ofNat n).toNat := by
    rw [UInt8.toNat_ofNat', Nat.mod_eq_of_lt hn.2]
    exact hn.1
  have hval : c.val.toNat = c.toNat := rfl
  unfold String.utf8EncodeChar at hx
  dsimp only at hx
  rw [hval] at hx
  split_ifs at hx
  · omega
  all_goals simp only [List.mem_cons, List.not_mem_nil, or_false] at hx
  · rcases hx with rfl | rfl <;> exact hbyte (by omega)
  · rcases hx with rfl | rfl | rfl <;> exact hbyte (by omega)
  · rcases hx with rfl | rfl | rfl | rfl <;> exact hbyte (by omega)

private theorem exists_utf8EncodeChar {c : Char} (hc : 128 ≤ c.toNat) :
    ∃ x xs, String.utf8EncodeChar c = x :: xs ∧ 128 ≤ x.toNat := by
  obtain ⟨x, xs, hx⟩ := List.exists_cons_of_length_pos
    (String.length_utf8EncodeChar c ▸ c.utf8Size_pos : 0 < (String.utf8EncodeChar c).length)
  exact ⟨x, xs, hx, le_of_mem_utf8EncodeChar hc (by rw [hx]; simp)⟩

theorem toNat_toUInt8 {c : Char} (hc : c.toNat < 128) : c.toUInt8.toNat = c.toNat := by
  rw [Char.toUInt8, UInt32.toNat_toUInt8]
  exact Nat.mod_eq_of_lt (Nat.lt_trans hc (by decide))

/-! ### The byte at hand -/

/-- A byte tells which character is in front, if that is one of one byte. -/
inductive Fronts : Option UInt8 → Option Char → Prop
  | nothing : Fronts none none
  | ascii {c : Char} (hc : c.toNat < 128) : Fronts (some c.toUInt8) (some c)
  | other {x : UInt8} {c : Char} (hx : 128 ≤ x.toNat) (hc : 128 ≤ c.toNat) : Fronts (some x) (some c)

private theorem fronts_bytes (s : List Char) : Fronts (bytes s).head? s.head? := by
  cases s with
  | nil => exact .nothing
  | cons c s =>
    rw [bytes_cons]
    by_cases hc : c.toNat < 128
    · rw [utf8EncodeChar_ascii hc]
      exact .ascii hc
    · obtain ⟨x, xs, hx, hle⟩ := exists_utf8EncodeChar (Nat.not_lt.1 hc)
      rw [hx]
      exact .other hle (Nat.not_lt.1 hc)

/-- A character of one byte is in front exactly if its byte is at hand. -/
theorem Fronts.eq_iff {x : Option UInt8} {front : Option Char} (h : Fronts x front) {a : Char} (ha : a.toNat < 128) :
    x = some a.toUInt8 ↔ front = some a := by
  cases h with
  | nothing => simp
  | @ascii c hc =>
    rw [Option.some.injEq, Option.some.injEq]
    refine ⟨fun heq => Char.toNat_inj.1 ?_, fun heq => by rw [heq]⟩
    rw [← toNat_toUInt8 hc, ← toNat_toUInt8 ha, heq]
  | @other x c hx hc =>
    have hx' : x ≠ a.toUInt8 := by
      rintro rfl
      rw [toNat_toUInt8 ha] at hx
      omega
    have hc' : c ≠ a := by
      rintro rfl
      omega
    simp [hx', hc']

theorem Fronts.eq_none_iff {x : Option UInt8} {front : Option Char} (h : Fronts x front) :
    x = none ↔ front = none := by
  cases h <;> simp

private theorem Fronts.le {x : UInt8} {c : Char} (h : Fronts (some x) (some c)) (hc : 128 ≤ c.toNat) :
    128 ≤ x.toNat := by
  cases h with
  | ascii hc' => exact absurd hc (by omega)
  | other hx _ => exact hx

/-- What depends only on characters of one byte can be told from the byte. -/
theorem Fronts.apply {α : Type} {x : Option UInt8} {front : Option Char} (h : Fronts x front) {f : UInt8 → α}
    {g : Char → α} {a : α} (hascii : ∀ n < 128, f (Char.ofNat n).toUInt8 = g (Char.ofNat n))
    (hf : ∀ x, 128 ≤ x.toNat → f x = a) (hg : ∀ c, 128 ≤ c.toNat → g c = a) : x.map f = front.map g := by
  cases h with
  | nothing => rfl
  | @ascii c hc =>
    have heq := hascii c.toNat hc
    rw [Char.ofNat_toNat] at heq
    rw [Option.map_some, Option.map_some, heq]
  | other hx hc => rw [Option.map_some, Option.map_some, hf _ hx, hg _ hc]

/-! ### Places -/

/-- Where a cursor may be: between characters, inside the character that is in front, or one byte behind the end. -/
inductive Stands : List Char → Cursor → Prop
  | between (pre rest : List Char) : Stands (pre ++ rest) ⟨rest, utf8Size pre⟩
  | inside (pre : List Char) {c : Char} (rest : List Char) {k : Nat} (hpos : 0 < k) (hk : k < c.utf8Size) :
    Stands (pre ++ c :: rest) ⟨c :: rest, utf8Size pre + k⟩
  | behind (text : List Char) : Stands text ⟨[], utf8Size text + 1⟩

variable {text rest : List Char} {cursor : Cursor} {o : Nat}

private theorem drop_bytes (pre rest : List Char) : (bytes (pre ++ rest)).drop (utf8Size pre) = bytes rest := by
  rw [bytes_append, ← length_bytes pre, List.drop_left]

private theorem le_of_inside {c : Char} {k : Nat} (hpos : 0 < k) (hk : k < c.utf8Size) : 128 ≤ c.toNat := by
  by_contra hc
  rw [utf8Size_eq_one (by omega)] at hk
  omega

theorem Stands.fronts (h : Stands text cursor) : Fronts (bytes text)[cursor.offset]? cursor.rest.head? := by
  cases h with
  | between pre rest =>
    rw [← List.head?_drop, drop_bytes]
    exact fronts_bytes rest
  | @inside pre c rest k hpos hk =>
    have hlength : k < (String.utf8EncodeChar c).length := by rwa [String.length_utf8EncodeChar]
    have hbyte : (bytes (pre ++ c :: rest))[utf8Size pre + k]? = some (String.utf8EncodeChar c)[k] := by
      rw [bytes_append, ← length_bytes pre, List.getElem?_append_right (by omega), Nat.add_sub_cancel_left,
        bytes_cons, List.getElem?_append_left hlength, List.getElem?_eq_getElem hlength]
    have hc := le_of_inside hpos hk
    rw [hbyte]
    exact .other (le_of_mem_utf8EncodeChar hc (List.getElem_mem hlength)) hc
  | behind =>
    rw [List.getElem?_eq_none (by rw [length_bytes]; exact Nat.le_succ _)]
    exact .nothing

/-- The cursor is between characters. -/
def Between (text : List Char) (cursor : Cursor) : Prop :=
  ∃ pre, text = pre ++ cursor.rest ∧ cursor.offset = utf8Size pre

theorem Between.stands (h : Between text cursor) : Stands text cursor := by
  obtain ⟨rest, o⟩ := cursor
  obtain ⟨pre, rfl, ho⟩ := h
  obtain rfl : o = utf8Size pre := ho
  exact .between pre rest

theorem Between.pass {s : List Char} (h : Between text ⟨s ++ rest, o⟩) : Between text ⟨rest, o + utf8Size s⟩ := by
  obtain ⟨pre, rfl, ho⟩ := h
  obtain rfl : o = utf8Size pre := ho
  exact ⟨pre ++ s, by rw [List.append_assoc], (utf8Size_append pre s).symm⟩

theorem Between.splitAt?_eq (h : Between text cursor) :
    ∃ pre, splitAt? cursor.offset text = some (pre, cursor.rest) := by
  obtain ⟨pre, rfl, ho⟩ := h
  exact ⟨pre, by rw [ho, splitAt?_append]⟩

/-- A cursor in front of a character of one byte is between characters. -/
theorem Stands.between_of_ascii {c : Char} (hc : c.toNat < 128) (h : Stands text ⟨c :: rest, o⟩) :
    Between text ⟨c :: rest, o⟩ := by
  cases h with
  | between pre => exact ⟨pre, rfl, rfl⟩
  | inside pre _ hpos hk => exact absurd (le_of_inside hpos hk) (by omega)

/-- Characters of one byte are passed. -/
theorem Stands.advance {s : List Char} (hs : ∀ c ∈ s, c.toNat < 128) (h : Stands text ⟨s ++ rest, o⟩) :
    Stands text ⟨rest, o + s.length⟩ := by
  cases s with
  | nil => exact h
  | cons c s =>
    have hplace : Between text ⟨c :: s ++ rest, o⟩ := h.between_of_ascii (hs c (by simp))
    rw [← utf8Size_of_ascii hs]
    exact hplace.pass.stands

section Runs

variable {p : UInt8 → Bool} {q : Char → Bool} (hascii : ∀ n < 128, p (Char.ofNat n).toUInt8 = q (Char.ofNat n))
  (hp : ∀ x, 128 ≤ x.toNat → p x = false) (hq : ∀ c, 128 ≤ c.toNat → q c = false)
include hascii hp hq

private theorem takeWhile_bytes (s : List Char) : ((bytes s).takeWhile p).length = (s.takeWhile q).length := by
  induction s with
  | nil => rfl
  | cons c s ih =>
    rw [bytes_cons]
    by_cases hc : c.toNat < 128
    · have heq := hascii c.toNat hc
      rw [Char.ofNat_toNat] at heq
      rw [utf8EncodeChar_ascii hc, List.singleton_append, List.takeWhile_cons, List.takeWhile_cons, heq]
      split
      · rw [List.length_cons, List.length_cons, ih]
      · rfl
    · obtain ⟨x, xs, hx, hle⟩ := exists_utf8EncodeChar (Nat.not_lt.1 hc)
      rw [hx, List.cons_append, List.takeWhile_cons_of_neg (by simp [hp x hle]),
        List.takeWhile_cons_of_neg (by simp [hq c (Nat.not_lt.1 hc)])]
      rfl

/-- A run of characters of one byte is a run of their bytes. -/
theorem Stands.takeWhile (h : Stands text cursor) :
    (((bytes text).drop cursor.offset).takeWhile p).length = (cursor.rest.takeWhile q).length := by
  have hfronts := h.fronts
  cases h with
  | between pre rest => rw [drop_bytes, takeWhile_bytes hascii hp hq]
  | @inside pre c rest k hpos hk =>
    have hc := le_of_inside hpos hk
    rw [List.takeWhile_cons_of_neg (by simp [hq c hc])]
    generalize hxs : (bytes (pre ++ c :: rest)).drop (utf8Size pre + k) = xs
    rw [← List.head?_drop, hxs] at hfronts
    cases xs with
    | nil => rfl
    | cons x xs =>
      rw [List.takeWhile_cons_of_neg (by simp [hp x (hfronts.le hc)])]
      rfl
  | behind => rw [List.drop_eq_nil_of_le (by rw [length_bytes]; exact Nat.le_succ _)]; rfl

end Runs

theorem Stands.left_le (h : Stands text cursor) : cursor.rest.length ≤ (bytes text).length - cursor.offset := by
  rw [length_bytes]
  cases h with
  | between pre rest =>
    have hle := length_le_utf8Size rest
    rw [utf8Size_append]
    dsimp only
    omega
  | @inside pre c rest k hpos hk =>
    have hle := length_le_utf8Size rest
    rw [utf8Size_append, utf8Size]
    dsimp only [List.length_cons]
    omega
  | behind => exact Nat.zero_le _

end Marshal.Text
