import Mathlib.Data.List.GetD
import Marshal.Net.Address
import Marshal.Proofs.Number.Digits

/-!
# Addresses read back

The text of an address denotes it (`ofText?_text`).  An address of version 6 has no point in its text unless its last
groups are written as octets, and reading stops at the colons that stand for a run of zero groups.
-/

namespace Marshal.Address

/-! ### Numbers -/

private theorem digit?_digitChar_ten : ∀ k < 10, digit? 10 k.digitChar = some k := by decide

private theorem digit?_digitChar_sixteen : ∀ k < 16, digit? 16 k.digitChar = some k := by decide

section Numbers

variable {radix : Nat} (hradix : 1 < radix) (hdigit : ∀ k < radix, digit? radix k.digitChar = some k)

include hradix hdigit

/-- The digits of a number are valid, and denote it. -/
private theorem toDigits_spec (n : Nat) : (∀ c ∈ Nat.toDigits radix n, (digit? radix c).isSome = true) ∧
    (Nat.toDigits radix n).foldl (fun n c => radix * n + (digit? radix c).getD 0) 0 = n := by
  induction n using Nat.strongRecOn with
  | ind n ih =>
    by_cases hlt : n < radix
    · rw [Nat.toDigits_of_lt_base hlt]
      have hn := hdigit n hlt
      refine ⟨?_, ?_⟩
      · intro c hc
        obtain rfl := List.mem_singleton.1 hc
        rw [hn]
        rfl
      · simp [hn]
    · have hle : radix ≤ n := Nat.le_of_not_lt hlt
      have hmod := hdigit (n % radix) (Nat.mod_lt n (by omega))
      obtain ⟨hall, hvalue⟩ := ih (n / radix) (Nat.div_lt_self (by omega) hradix)
      rw [Nat.toDigits_of_base_le hradix hle]
      refine ⟨?_, ?_⟩
      · intro c hc
        rcases List.mem_append.1 hc with hc | hc
        · exact hall c hc
        · obtain rfl := List.mem_singleton.1 hc
          rw [hmod]
          rfl
      · rw [List.foldl_append, hvalue]
        simp only [List.foldl_cons, List.foldl_nil, hmod, Option.getD_some]
        exact Nat.div_add_mod n radix

/-- The digits of a number are read off the front of a text that does not go on with a digit. -/
private theorem readNumber_toDigits {n width : Nat} {s : List Char} (hn : n < radix ^ width) (hwidth : 0 < width)
    (hs : ∀ c, s.head? = some c → digit? radix c = none) :
    readNumber radix width (Nat.toDigits radix n ++ s) = some (n, s) := by
  obtain ⟨hall, hvalue⟩ := toDigits_spec hradix hdigit n
  have hrest : s.takeWhile (fun c => (digit? radix c).isSome) = [] := by
    cases s with
    | nil => rfl
    | cons c s => rw [List.takeWhile_cons_of_neg (by simp [hs c rfl])]
  have htake : (Nat.toDigits radix n ++ s).takeWhile (fun c => (digit? radix c).isSome) = Nat.toDigits radix n := by
    rw [List.takeWhile_append_of_pos hall, hrest, List.append_nil]
  have hempty : (Nat.toDigits radix n).isEmpty = false := by simp
  have hlen : ¬width < (Nat.toDigits radix n).length := by
    have := (Nat.length_toDigits_le_iff (b := radix) hradix hwidth).2 hn
    omega
  unfold readNumber
  simp only [htake, hempty, hlen, decide_false, Bool.or_self, Bool.false_eq_true, if_false, hvalue, List.drop_left]

end Numbers

/-! ### Version 4 -/

def octetText (n : UInt8) : List Char := Nat.toDigits 10 n.toNat

private theorem readOctet_octetText (n : UInt8) {s : List Char}
    (hs : ∀ c, s.head? = some c → digit? 10 c = none ∧ c.isDigit = false) :
    readOctet (octetText n ++ s) = some (n, s) := by
  have hlt : n.toNat < 256 := n.toNat_lt
  have hnumber : readNumber 10 3 (octetText n ++ s) = some (n.toNat, s) :=
    readNumber_toDigits (by decide) digit?_digitChar_ten (by omega) (by decide) fun c hc => (hs c hc).1
  unfold readOctet
  split
  · next c t heq =>
    -- a zero in front is the only digit
    have hhead : (octetText n).head? = some '0' := by
      cases hd : octetText n with
      | nil => exact absurd hd Nat.toDigits_ne_nil
      | cons d u =>
        rw [hd, List.cons_append, List.cons.injEq] at heq
        rw [heq.1]
        rfl
    have hn : n.toNat = 0 := by
      by_contra hne
      exact head?_toDigits_ne_zero (Nat.pos_of_ne_zero hne) hhead
    have hzero : octetText n = ['0'] := by
      rw [octetText, hn]
      rfl
    rw [hzero, List.singleton_append, List.cons.injEq] at heq
    obtain ⟨-, rfl⟩ := heq
    obtain rfl : n = 0 := UInt8.toNat_inj.1 hn
    simp only [(hs c rfl).2, Bool.false_eq_true, if_false]
  · rw [hnumber]
    simp [hlt]

private theorem toList_v4Text (a b c d : UInt8) : (v4Text a b c d).toList =
    octetText a ++ '.' :: (octetText b ++ '.' :: (octetText c ++ '.' :: (octetText d ++ []))) := by
  have hoctet (n : UInt8) : (toString n.toNat).toList = octetText n := Nat.toList_repr
  simp only [v4Text, String.toList_intercalate, List.map_cons, List.map_nil, hoctet, List.intercalate_cons_cons,
    List.intercalate_singleton, List.append_nil]
  simp

private theorem readV4_v4Text (a b c d : UInt8) : readV4 (v4Text a b c d).toList = some ((a, b, c, d), []) := by
  have hpoint (n : UInt8) (s : List Char) : readOctet (octetText n ++ '.' :: s) = some (n, '.' :: s) := by
    refine readOctet_octetText n fun c hc => ?_
    obtain rfl := Option.some.inj hc
    exact ⟨rfl, rfl⟩
  have hend : readOctet (octetText d ++ []) = some (d, []) := readOctet_octetText d (by simp)
  rw [toList_v4Text]
  simp only [readV4, hpoint, hend, readPoint, bind, Option.bind_some]

/-! ### Reading a version 4 address off a text without a point -/

private theorem readNumber_drop {radix width n : Nat} {s t : List Char} (h : readNumber radix width s = some (n, t)) :
    ∃ k, t = s.drop k := by
  unfold readNumber at h
  dsimp only at h
  split at h
  · cases h
  · cases h
    exact ⟨_, rfl⟩

private theorem readOctet_drop {n : UInt8} {s t : List Char} (h : readOctet s = some (n, t)) : ∃ k, t = s.drop k := by
  unfold readOctet at h
  split at h
  · split at h
    · cases h
    · cases h
      exact ⟨1, rfl⟩
  · cases hr : readNumber 10 3 s with
    | none => simp [hr] at h
    | some p =>
      obtain ⟨m, u⟩ := p
      obtain ⟨k, rfl⟩ := readNumber_drop hr
      simp only [hr, bind, Option.bind_some] at h
      split at h
      · cases h
        exact ⟨k, rfl⟩
      · cases h

/-- There is no address of version 4 without a point after its first octet. -/
private theorem readV4_eq_none {s : List Char} (h : '.' ∉ s) : readV4 s = none := by
  unfold readV4
  cases hr : readOctet s with
  | none => rfl
  | some p =>
    obtain ⟨n, t⟩ := p
    obtain ⟨k, rfl⟩ := readOctet_drop hr
    have hpoint : readPoint (s.drop k) = none := by
      unfold readPoint
      split
      · next u heq => exact absurd (List.mem_of_mem_drop (by rw [heq]; exact List.mem_cons_self ..)) h
      · rfl
    simp only [bind, Option.bind_some, hpoint, Option.bind_none]

/-! ### Version 6 -/

def groupChars (g : UInt16) : List Char := Nat.toDigits 16 g.toNat

/-- The groups after the first one, each with its colon. -/
def laterChars (gs : List UInt16) : List Char := gs.flatMap fun g => ':' :: groupChars g

def groupsChars : List UInt16 → List Char
  | [] => []
  | g :: gs => groupChars g ++ laterChars gs

private theorem toList_groupsText (gs : List UInt16) : (groupsText gs).toList = groupsChars gs := by
  have hgroup : (gs.map groupText).map String.toList = gs.map groupChars := by
    simp [groupText, groupChars]
  rw [groupsText, String.toList_intercalate, hgroup]
  clear hgroup
  show [':'].intercalate (gs.map groupChars) = _
  cases gs with
  | nil => rfl
  | cons g gs =>
    rw [groupsChars]
    induction gs generalizing g with
    | nil => simp [laterChars]
    | cons g' gs ih =>
      rw [List.map_cons, List.map_cons, List.intercalate_cons_cons, ← List.map_cons, ih]
      simp [laterChars]

/-- Where the groups of a text end: at its end, or at two colons. -/
inductive EndsGroups : List Char → Prop
  | nil : EndsGroups []
  | colons (s : List Char) : EndsGroups (':' :: ':' :: s)

private theorem readGroup_groupChars (g : UInt16) {s : List Char} (hs : ∀ c, s.head? = some c → c = ':') :
    readNumber 16 4 (groupChars g ++ s) = some (g.toNat, s) := by
  refine readNumber_toDigits (by decide) digit?_digitChar_sixteen g.toNat_lt (by decide) fun c hc => ?_
  obtain rfl := hs c hc
  rfl

private theorem head_laterChars (gs : List UInt16) {s : List Char} (hs : EndsGroups s) :
    ∀ c, (laterChars gs ++ s).head? = some c → c = ':' := by
  intro c hc
  cases gs with
  | nil =>
    cases hs with
    | nil => cases hc
    | colons s => exact (Option.some.inj hc).symm
  | cons g gs => simpa [laterChars] using hc.symm

private theorem readGroups_ends (first : Bool) (room : Nat) {s : List Char} (hs : EndsGroups s) :
    readGroups first room s = ([], false, s) := by
  cases room with
  | zero => rfl
  | succ room =>
    -- neither an octet nor a group begins with a colon
    have hv4 : (readColon first s).bind readV4 = none := by
      cases hs with
      | nil => cases first <;> rfl
      | colons s => cases first <;> rfl
    have hgroup : (readColon first s).bind (readNumber 16 4) = none := by
      cases hs with
      | nil => cases first <;> rfl
      | colons s => cases first <;> rfl
    rw [readGroups]
    dsimp only
    rw [hv4, ite_self, hgroup]

/-- A group is read in front of those that follow it. -/
private theorem readGroups_group {first : Bool} {room : Nat} {s t : List Char} {g : UInt16}
    (hs : readColon first s = some (groupChars g ++ t)) (hpoint : '.' ∉ groupChars g ++ t)
    (ht : ∀ c, t.head? = some c → c = ':') :
    readGroups first (room + 1) s = (g :: (readGroups false room t).1, (readGroups false room t).2) := by
  have hv4 : (if room = 0 then none else (readColon first s).bind readV4) = none := by
    by_cases hroom : room = 0
    · rw [if_pos hroom]
    · rw [if_neg hroom, hs]
      exact readV4_eq_none hpoint
  have hgroup : (readColon first s).bind (readNumber 16 4) = some (g.toNat, t) := by
    rw [hs]
    exact readGroup_groupChars g ht
  rw [readGroups]
  dsimp only
  rw [hv4, hgroup]
  simp only [UInt16.ofNat_toNat]

/-- The groups of a text are read up to where they end. -/
private theorem readGroups_laterChars (gs : List UInt16) {s : List Char} (hs : EndsGroups s) :
    ∀ room, gs.length ≤ room →
    '.' ∉ laterChars gs ++ s → readGroups false room (laterChars gs ++ s) = (gs, false, s) := by
  induction gs with
  | nil => exact fun room _ _ => readGroups_ends false room hs
  | cons g gs ih =>
    intro room hroom hpoint
    cases room with
    | zero => simp at hroom
    | succ room =>
      have htext : laterChars (g :: gs) ++ s = ':' :: (groupChars g ++ (laterChars gs ++ s)) := by simp [laterChars]
      rw [htext] at hpoint ⊢
      have hrest : '.' ∉ groupChars g ++ (laterChars gs ++ s) := fun h => hpoint (List.mem_cons_of_mem _ h)
      have hih := ih room (by simpa using hroom) fun h => hrest (List.mem_append_right _ h)
      rw [readGroups_group rfl hrest (head_laterChars gs hs), hih]

private theorem readGroups_groupsChars (gs : List UInt16) {s : List Char} (hs : EndsGroups s) (room : Nat)
    (hroom : gs.length ≤ room) (hpoint : '.' ∉ groupsChars gs ++ s) :
    readGroups true room (groupsChars gs ++ s) = (gs, false, s) := by
  cases gs with
  | nil => exact readGroups_ends true room hs
  | cons g gs =>
    cases room with
    | zero => simp at hroom
    | succ room =>
      rw [groupsChars, List.append_assoc] at hpoint ⊢
      rw [readGroups_group rfl hpoint (head_laterChars gs hs),
        readGroups_laterChars gs hs room (by simpa using hroom) fun h => hpoint (List.mem_append_right _ h)]

private theorem point_notMem_groupsChars (gs : List UInt16) : '.' ∉ groupsChars gs := by
  have hgroup (g : UInt16) : '.' ∉ groupChars g := by
    intro h
    have hdigit : (digit? 16 '.').isSome = true :=
      (toDigits_spec (by decide) digit?_digitChar_sixteen g.toNat).1 '.' h
    cases hdigit
  have hlater : ∀ gs : List UInt16, '.' ∉ laterChars gs := by
    intro gs h
    obtain ⟨g, -, hg⟩ := List.mem_flatMap.1 h
    rcases List.mem_cons.1 hg with heq | hmem
    · cases heq
    · exact hgroup g hmem
  cases gs with
  | nil => simp [groupsChars]
  | cons g gs =>
    intro h
    rcases List.mem_append.1 h with h | h
    · exact hgroup g h
    · exact hlater gs h

/-- The run of zeros that is written as two colons. -/
private theorem longestZeroRun_spec (gs : List UInt16) : ∀ start, ∃ head tail,
    gs = head ++ (List.replicate (longestZeroRun start gs).2 0 ++ tail) ∧ (longestZeroRun start gs).1 = start +
    head.length := by
  induction gs with
  | nil => exact fun start => ⟨[], [], rfl, rfl⟩
  | cons g gs ih =>
    intro start
    rw [longestZeroRun]
    by_cases hle : (longestZeroRun (start + 1) gs).2 ≤ zeroRun (g :: gs)
    · rw [if_pos hle]
      have hzeros : ∀ x ∈ (g :: gs).takeWhile (fun x => decide (x = 0)), x = 0 := fun x hx => by
        simpa using List.all_eq_true.1 List.all_takeWhile x hx
      refine ⟨[], (g :: gs).dropWhile (fun x => decide (x = 0)), ?_, rfl⟩
      rw [List.nil_append, zeroRun, ← List.eq_replicate_iff.2 ⟨rfl, hzeros⟩]
      exact List.takeWhile_append_dropWhile.symm
    · rw [if_neg hle]
      obtain ⟨head, tail, hgs, hstart⟩ := ih (start + 1)
      refine ⟨g :: head, tail, by rw [List.cons_append, ← hgs], ?_⟩
      rw [hstart, List.length_cons]
      omega

/-- Zeros fill the middle of an address. -/
private theorem spread_eq {v : Vector UInt16 8} {head tail : List UInt16} (zeros : Nat)
    (hv : v.toList = head ++ (List.replicate zeros 0 ++ tail)) : spread head tail = v := by
  have hlen : head.length + (zeros + tail.length) = 8 := by
    have := congrArg List.length hv
    simpa using this.symm
  apply Vector.ext
  intro i hi
  have hget : v[i] = (head ++ (List.replicate zeros 0 ++ tail)).getD i 0 := by
    rw [← hv, List.getD_eq_getElem _ _ (by simpa using hi), Vector.getElem_toList]
  rw [hget, spread, Vector.getElem_ofFn]
  by_cases htail : i < 8 - tail.length
  · rw [if_pos htail]
    by_cases hhead : i < head.length
    · rw [List.getD_append _ _ _ _ hhead]
    · have hzero : (List.replicate zeros (0 : UInt16)).getD (i - head.length) 0 = 0 := by
        rw [List.getD_eq_getElem _ _ (by simp; omega), List.getElem_replicate]
      rw [List.getD_append_right _ _ _ _ (Nat.le_of_not_lt hhead), List.getD_append _ _ _ _ (by simp; omega), hzero]
      exact List.getD_eq_default _ _ (Nat.le_of_not_lt hhead)
  · rw [if_neg htail, List.getD_append_right _ _ _ _ (by omega), List.getD_append_right _ _ _ _ (by simp; omega)]
    congr 1
    simp only [List.length_replicate]
    omega

private theorem readV6_groupsChars (v : Vector UInt16 8) : readV6 (groupsChars v.toList) = some (v, []) := by
  have hgroups := readGroups_groupsChars v.toList .nil 8 (by simp) (by
    rw [List.append_nil]
    exact point_notMem_groupsChars _)
  rw [List.append_nil] at hgroups
  unfold readV6
  rw [hgroups]
  simp only [Vector.length_toList, if_true]
  have hspread : spread v.toList [] = v := spread_eq 0 (by simp)
  rw [hspread]

private theorem readV6_colons {v : Vector UInt16 8} {head tail : List UInt16} {zeros : Nat}
    (hv : v.toList = head ++ (List.replicate zeros 0 ++ tail)) (hzeros : 1 < zeros) :
    readV6 (groupsChars head ++ ':' :: ':' :: groupsChars tail) = some (v, []) := by
  have hlen : head.length + (zeros + tail.length) = 8 := by
    have := congrArg List.length hv
    simpa using this.symm
  have hhead := readGroups_groupsChars head (.colons (groupsChars tail)) 8 (by omega) (by
    intro h
    rcases List.mem_append.1 h with h | h
    · exact point_notMem_groupsChars _ h
    · simp only [List.mem_cons, Char.reduceEq, false_or] at h
      exact point_notMem_groupsChars _ h)
  have htail := readGroups_groupsChars tail .nil (7 - head.length) (by omega) (by
    rw [List.append_nil]
    exact point_notMem_groupsChars _)
  rw [List.append_nil] at htail
  unfold readV6
  rw [hhead]
  simp only [if_neg (show ¬head.length = 8 by omega), Bool.false_eq_true, if_false, htail]
  rw [spread_eq zeros hv]

private theorem joinOctets_eq (g : UInt16) : joinOctets (g / 256).toUInt8 g.toUInt8 = g := by
  apply UInt16.toNat_inj.1
  have hg := g.toNat_lt
  have h256 : (256 : UInt16).toNat = 256 := rfl
  simp only [joinOctets, UInt16.toNat_add, UInt16.toNat_mul, UInt8.toNat_toUInt16, UInt16.toNat_toUInt8,
    UInt16.toNat_div, h256]
  omega

/-- An address whose last two groups are written as octets. -/
private theorem readV6_mapped {v : Vector UInt16 8} {g h : UInt16} (hv : v.toList = [0, 0, 0, 0, 0, 0xffff, g, h]) :
    readV6 ("::ffff:".toList ++ (v4Text (g / 256).toUInt8 g.toUInt8 (h / 256).toUInt8 h.toUInt8).toList) =
    some (v, []) := by
  have hv4 := readV4_v4Text (g / 256).toUInt8 g.toUInt8 (h / 256).toUInt8 h.toUInt8
  generalize hs : (v4Text (g / 256).toUInt8 g.toUInt8 (h / 256).toUInt8 h.toUInt8).toList = s at hv4
  have hgroup : readNumber 16 4 ("ffff".toList ++ ':' :: s) = some (0xffff, ':' :: s) :=
    readGroup_groupChars 0xffff (by simp)
  have htail : readGroups true 7 ("ffff".toList ++ ':' :: s) = ([0xffff, g, h], true, []) := by
    have hnone : (readColon true ("ffff".toList ++ ':' :: s)).bind readV4 = none := rfl
    have hsome : (readColon false (':' :: s)).bind readV4 =
        some (((g / 256).toUInt8, g.toUInt8, (h / 256).toUInt8, h.toUInt8), []) := hv4
    rw [readGroups]
    dsimp only
    rw [hnone, ite_self, show (readColon true ("ffff".toList ++ ':' :: s)).bind (readNumber 16 4) = _ from hgroup]
    dsimp only
    rw [readGroups]
    dsimp only
    rw [if_neg (by decide), hsome]
    simp only [joinOctets_eq]
    rfl
  have htext : "::ffff:".toList ++ s = ':' :: ':' :: ("ffff".toList ++ ':' :: s) := rfl
  unfold readV6
  rw [htext, readGroups_ends true 8 (.colons _)]
  simp only [List.length_nil, Bool.false_eq_true, if_false, Nat.sub_zero, htail]
  rw [if_neg (by decide), spread_eq 5 (by rw [hv]; rfl)]

private theorem readV6_v6Text (v : Vector UInt16 8) : readV6 (v6Text v.toList).toList = some (v, []) := by
  unfold v6Text
  split
  · next g h hv =>
    rw [String.toList_append]
    exact readV6_mapped hv
  · obtain ⟨head, tail, hv, hstart⟩ := longestZeroRun_spec v.toList 0
    generalize longestZeroRun 0 v.toList = run at hv hstart ⊢
    obtain ⟨start, zeros⟩ := run
    dsimp only at hv hstart ⊢
    rw [Nat.zero_add] at hstart
    by_cases hzeros : 1 < zeros
    · rw [if_pos hzeros, String.toList_append, String.toList_append, toList_groupsText, toList_groupsText]
      have hhead : v.toList.take start = head := by rw [hv, hstart, List.take_left]
      have htail : v.toList.drop (start + zeros) = tail := by
        rw [hv, hstart, ← List.append_assoc, List.drop_left' (by simp)]
      rw [hhead, htail, List.append_assoc]
      exact readV6_colons hv hzeros
    · rw [if_neg hzeros, toList_groupsText]
      exact readV6_groupsChars v

/-! ### Whole addresses -/

/-- A version 6 address does not begin with one of version 4. -/
private theorem readV4_v6Text (v : Vector UInt16 8) : readV4 (v6Text v.toList).toList = none := by
  unfold v6Text
  split
  · rw [String.toList_append]
    rfl
  · rcases longestZeroRun 0 v.toList with ⟨start, zeros⟩
    dsimp only
    refine readV4_eq_none ?_
    by_cases hzeros : 1 < zeros
    · rw [if_pos hzeros, String.toList_append, String.toList_append, toList_groupsText, toList_groupsText]
      intro h
      rcases List.mem_append.1 h with h | h
      · rcases List.mem_append.1 h with h | h
        · exact point_notMem_groupsChars _ h
        · simp at h
      · exact point_notMem_groupsChars _ h
    · rw [if_neg hzeros, toList_groupsText]
      exact point_notMem_groupsChars _

/-- The text of an address denotes it. -/
theorem ofText?_text (a : Address) : ofText? a.text.toList = some a := by
  cases a with
  | v4 a b c d =>
    unfold ofText? text
    rw [readV4_v4Text]
    rfl
  | v6 groups =>
    unfold ofText? text
    simp only [readV4_v6Text, readV6_v6Text, List.isEmpty_nil, if_true]

end Marshal.Address
