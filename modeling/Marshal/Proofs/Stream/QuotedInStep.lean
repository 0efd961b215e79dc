import Marshal.Proofs.Stream.InStep
import Marshal.Proofs.Text.Escapes

/-!
# Quoted text over bytes

The machine reads a quoted text as the reader does (`readQuoted_agrees`).  Both follow the same steps, one escape
after the other; where one of them gives a result the machine stands between characters (`Stops`), and goes on from
there.  Both read what was quoted, and stop right behind it (`quoted_in_place`).
-/

namespace Marshal

open Effect
open Text (Cursor Between Stands Fronts bytes quote unquote splitAt? slice? hexDigits? hexParts? hexFault
    isHighSurrogate isLowSurrogate joinSurrogates pairStep unicodeStep escapeStep followed)

namespace Reader

/-! ### Digits -/

private theorem utf8Size_of_hexDigits? {s : List Char} {n : Nat} (h : hexDigits? s = some n) :
    Text.utf8Size s = 4 := by
  unfold hexDigits? at h
  split at h
  · next a b c d =>
    have hdigit {c : Char} {n : Nat} (hc : Text.hexDigit? c = some n) : c.toNat < 128 := Text.lt_of_hexDigit? hc
    obtain ⟨high, x, y, z, ha, hb, hc, hd, -⟩ := Text.hexFour?_eq_some.1 h
    have ha' : a.toNat < 128 := by
      split_ifs at ha with hplus
      · rw [hplus]
        decide
      · exact hdigit ha
    refine Text.utf8Size_of_ascii (s := [a, b, c, d]) ?_
    simp [ha', hdigit hb, hdigit hc, hdigit hd]
  · cases h

/-- An escape has its digits exactly if the next four bytes are four digits. -/
private theorem hexParts?_eq_some {s t : List Char} {n : Nat} :
    hexParts? s = some (n, t) ↔ ∃ digits, splitAt? 4 s = some (digits, t) ∧ hexDigits? digits = some n := by
  constructor
  · intro h
    unfold hexParts? at h
    split at h
    · next a b c d t =>
      obtain ⟨n, hn, heq⟩ := Option.map_eq_some_iff.1 h
      obtain ⟨rfl, rfl⟩ := Prod.mk.inj heq
      have hsize : Text.utf8Size [a, b, c, d] = 4 := utf8Size_of_hexDigits? hn
      refine ⟨[a, b, c, d], ?_, hn⟩
      rw [← hsize]
      exact Text.splitAt?_append [a, b, c, d] t
    · cases h
  · rintro ⟨digits, hsplit, hn⟩
    obtain ⟨rfl, -⟩ := Text.splitAt?_eq_some hsplit
    unfold hexDigits? at hn
    split at hn
    · exact congrArg (Option.map fun n => (n, t)) hn
    · cases hn

variable {text s t : List Char} {r : Reader} {o : Nat} {α β : Type}

/-! ### Steps -/

/-- What the machine gives where a piece of a quoted text was read. -/
def handed (text : List Char) (r : Reader) : Except SyntaxFault α × Cursor → EStateM.Result Failure ByteReader α
  | (.ok a, cursor) => .ok a (view text { r with cursor })
  | (.error fault, cursor) => .error (.fault (.malformed fault cursor.offset)) (view text { r with cursor })

/-- Where reading of a piece stops: between characters, if there is a result, and behind where it began. -/
def Stops (text : List Char) (o : Nat) : Except SyntaxFault α × Cursor → Prop
  | (.ok _, cursor) => Between text cursor ∧ o < cursor.offset
  | (.error _, cursor) => Stands text cursor

private theorem Stops.mono {o' : Nat} {x : Except SyntaxFault α × Cursor} (h : Stops text o x) (ho : o' ≤ o) :
    Stops text o' x := by
  obtain ⟨_ | _, cursor⟩ := x
  · exact h
  · exact ⟨h.1, Nat.lt_of_le_of_lt ho h.2⟩

theorem slice?_between (h : Between text ⟨s, o⟩) (count : Nat) :
    slice? o count text = (splitAt? count s).map Prod.fst := by
  obtain ⟨pre, hpre⟩ := h.splitAt?_eq
  dsimp only at hpre
  unfold slice?
  rw [hpre]
  dsimp only [Option.bind_eq_bind, Option.bind_some]
  cases splitAt? count s <;> rfl

theorem rest_between (h : Between text r.cursor) :
    ByteReader.rest (view text r) = .ok r.cursor.rest (view text r) := by
  obtain ⟨pre, hpre⟩ := h.splitAt?_eq
  have hpos : (view text r).pos = r.cursor.offset := rfl
  unfold ByteReader.rest
  rw [bind_of_ok (get_apply _), hpos, show (view text r).text = text from rfl, hpre]
  rfl

private theorem hexParts?_between {n : Nat} (h : Between text ⟨s, o⟩) (hs : hexParts? s = some (n, t)) :
    Between text ⟨t, o + 4⟩ := by
  obtain ⟨digits, hsplit, -⟩ := hexParts?_eq_some.1 hs
  obtain ⟨rfl, hsize⟩ := Text.splitAt?_eq_some hsplit
  rw [← hsize]
  exact h.pass

private theorem hexFour_of_some {n : Nat} (h : Between text ⟨s, o⟩) (hs : hexParts? s = some (n, t)) :
    ByteReader.hexFour (view text { r with cursor := ⟨s, o⟩ }) = .ok n
      (view text { r with cursor := ⟨t, o + 4⟩ }) := by
  obtain ⟨digits, hsplit, hn⟩ := hexParts?_eq_some.1 hs
  have hslice : slice? o 4 text = some digits := by rw [slice?_between h, hsplit]; rfl
  unfold ByteReader.hexFour
  rw [bind_of_ok (get_apply _)]
  simp only [view, offset, hslice, hn]
  rfl

private theorem hexFour_of_none (h : Between text ⟨s, o⟩) (hs : hexParts? s = none) :
    ByteReader.hexFour (view text { r with cursor := ⟨s, o⟩ }) =
      .error (.fault (.malformed (hexFault s) o)) (view text { r with cursor := ⟨s, o⟩ }) := by
  have hslice := slice?_between h 4
  unfold ByteReader.hexFour hexFault
  rw [bind_of_ok (get_apply _), Text.isBoundary_eq]
  cases hsplit : splitAt? 4 s with
  | none =>
    simp only [view, offset, hslice, hsplit]
    rfl
  | some parts =>
    have hn : hexDigits? parts.1 = none := by
      rw [Option.eq_none_iff_forall_ne_some]
      intro n hn
      rw [hexParts?_eq_some.2 ⟨parts.1, hsplit, hn⟩] at hs
      cases hs
    simp only [view, offset, hslice, hsplit, Option.map_some, hn]
    rfl

private theorem fail_handed (fault : SyntaxFault) {cursor : Cursor} {b : ByteReader}
    (hb : b = view text { r with cursor }) :
    (ByteReader.fail fault : ByteM α) b = handed text r (.error fault, cursor) := by
  subst hb
  rfl

/-! ### Escapes -/

private theorem pairStep_of_ne (high : Nat) (hs : ['\\', 'u'].isPrefixOf s = false) (o : Nat) :
    pairStep high s o = (.error .unpairedSurrogate, ⟨s, o⟩) := by
  unfold pairStep
  split
  · simp at hs
  · rfl

private theorem unicodeEscape_eq (h : Between text ⟨s, o⟩) :
    ByteReader.unicodeEscape (view text { r with cursor := ⟨s, o⟩ }) = handed text r (unicodeStep s o) ∧
      Stops text o (unicodeStep s o) := by
  unfold ByteReader.unicodeEscape unicodeStep
  cases hhex : hexParts? s with
  | none =>
    rw [bind_of_error (hexFour_of_none h hhex)]
    exact ⟨rfl, h.stands⟩
  | some parts =>
    obtain ⟨high, t⟩ := parts
    have ht := hexParts?_between h hhex
    rw [bind_of_ok (hexFour_of_some h hhex)]
    dsimp only
    by_cases hhigh : isHighSurrogate high = true
    · rw [if_pos hhigh, if_pos hhigh, bind_of_ok (rest_between (r := { r with cursor := ⟨t, o + 4⟩ }) ht)]
      dsimp only
      by_cases hprefix : ['\\', 'u'].isPrefixOf t = true
      · obtain ⟨u, rfl⟩ := List.isPrefixOf_iff_prefix.1 hprefix
        have hu : Between text ⟨u, o + 6⟩ := ht.pass
        have hadvance : (view text { r with cursor := ⟨['\\', 'u'] ++ u, o + 4⟩ }).advance 2 =
            view text { r with cursor := ⟨u, o + 6⟩ } := rfl
        rw [if_pos hprefix, bind_of_ok (modify_apply _ _), hadvance, List.cons_append, List.cons_append,
          List.nil_append, pairStep]
        cases hlow : hexParts? u with
        | none =>
          rw [bind_of_error (hexFour_of_none hu hlow)]
          exact ⟨rfl, hu.stands⟩
        | some parts =>
          obtain ⟨low, v⟩ := parts
          have hv : Between text ⟨v, o + 10⟩ := hexParts?_between hu hlow
          rw [bind_of_ok (hexFour_of_some hu hlow)]
          dsimp only
          split
          · exact ⟨rfl, hv, Nat.lt_add_of_pos_right (k := 10) (by decide)⟩
          · exact ⟨rfl, hv.stands⟩
      · rw [if_neg hprefix, pairStep_of_ne high (Bool.eq_false_iff.2 hprefix)]
        exact ⟨rfl, ht.stands⟩
    · rw [if_neg hhigh, if_neg hhigh]
      split
      · exact ⟨rfl, ht.stands⟩
      · exact ⟨rfl, ht, Nat.lt_add_of_pos_right (k := 4) (by decide)⟩

private theorem unescapeByte?_ascii :
    ∀ n < 128, ByteReader.unescapeByte? (Char.ofNat n).toUInt8 = Text.unescape? (Char.ofNat n) := by
  decide

private theorem unescapeByte?_of_le {x : UInt8} (hx : 128 ≤ x.toNat) : ByteReader.unescapeByte? x = none := by
  have h := byte_ne_of_le hx
  simp only [decide_eq_false_iff_not] at h
  simp only [ByteReader.unescapeByte?, h '"' (by decide), h '\\' (by decide), h '/' (by decide), h 'b' (by decide),
    h 'f' (by decide), h 'n' (by decide), h 'r' (by decide), h 't' (by decide), if_false]

private theorem unescape?_of_le {c : Char} (hc : 128 ≤ c.toNat) : Text.unescape? c = none := by
  unfold Text.unescape?
  split
  case h_9 => rfl
  all_goals simp at hc

private theorem stands_behind {e : Char} (h : Between text ⟨e :: s, o⟩) :
    Stands text (if e.utf8Size = 1 then ⟨s, o + 1⟩ else ⟨e :: s, o + 1⟩) := by
  have hpos := e.utf8Size_pos
  split
  · next hsize =>
    have hpass : Between text ⟨s, o + Text.utf8Size [e]⟩ := Between.pass (s := [e]) h
    rw [Text.utf8Size, hsize] at hpass
    exact hpass.stands
  · next hsize =>
    obtain ⟨pre, rfl, ho⟩ := h
    obtain rfl : o = Text.utf8Size pre := ho
    exact .inside pre s Nat.one_pos (by omega)

/-- An escape is read alike, from its backslash on. -/
private theorem escape_eq (h : Between text ⟨'\\' :: s, o⟩) :
    ByteReader.escape (view text { r with cursor := ⟨'\\' :: s, o⟩ }) = handed text r (escapeStep s (o + 1)) ∧
      Stops text o (escapeStep s (o + 1)) := by
  have hs : Between text ⟨s, o + 1⟩ := Between.pass (s := ['\\']) h
  have hadvance {t : List Char} {o : Nat} (u : List Char) : (view text { r with cursor := ⟨t, o⟩ }).advance 1 =
      view text { r with cursor := ⟨u, o + 1⟩ } := rfl
  have hfronts : Fronts (view text { r with cursor := ⟨s, o + 1⟩ }).byte? s.head? := hs.stands.fronts
  unfold ByteReader.escape
  rw [bind_of_ok (modify_apply _ _), hadvance s, bind_of_ok (get_apply _), bind_of_ok (modify_apply _ _),
    hadvance s.tail]
  cases s with
  | nil =>
    rw [hfronts.eq_none_iff.2 rfl]
    obtain ⟨pre, rfl, ho⟩ := hs
    refine ⟨rfl, ?_⟩
    show Stands (pre ++ []) ⟨[], o + 1 + 1⟩
    rw [List.append_nil, show o + 1 = Text.utf8Size pre from ho]
    exact .behind pre
  | cons e s =>
    obtain ⟨x, hx⟩ := Option.ne_none_iff_exists'.1 fun hnone => by simpa using hfronts.eq_none_iff.1 hnone
    rw [hx] at hfronts
    have hu : x = 'u'.toUInt8 ↔ e = 'u' := by simpa using hfronts.eq_iff (a := 'u') (by decide)
    have hletter : ByteReader.unescapeByte? x = Text.unescape? e := Option.some.inj
      (hfronts.apply unescapeByte?_ascii (fun _ => unescapeByte?_of_le) (fun _ => unescape?_of_le))
    rw [hx, escapeStep, List.tail_cons]
    dsimp only
    by_cases he : e = 'u'
    · subst he
      obtain ⟨heq, hstops⟩ := unicodeEscape_eq (r := r) (Between.pass (s := ['u']) hs)
      rw [if_pos (hu.2 rfl), if_pos rfl]
      exact ⟨heq, hstops.mono (Nat.le_add_right o 2)⟩
    · rw [if_neg fun hxu => he (hu.1 hxu), if_neg he, hletter]
      have hbehind := stands_behind hs
      cases hc : Text.unescape? e with
      | none =>
        refine ⟨fail_handed _ ?_, hbehind⟩
        split <;> rfl
      | some c =>
        have hascii : e.toNat < 128 := by
          by_contra hle
          rw [unescape?_of_le (by omega)] at hc
          cases hc
        have ht : Between text ⟨s, o + 1 + Text.utf8Size [e]⟩ := Between.pass (s := [e]) hs
        rw [Text.utf8Size_of_ascii (by simpa using hascii)] at ht
        exact ⟨rfl, ht, Nat.lt_add_of_pos_right (k := 2) (by decide)⟩

/-! ### Runs -/

/-- A character that does not end a run. -/
private def Plain (c : Char) : Prop := c ≠ '"' ∧ c ≠ '\\'

private theorem not_stops {c : Char} (hc : Plain c) : (!ByteReader.stops c) = true := by
  simp [ByteReader.stops, hc.1, hc.2]

/-- A text is one run, or a run and a character that ends it. -/
private theorem exists_run (s : List Char) :
    (∀ c ∈ s, Plain c) ∨
      ∃ plain t, (∀ c ∈ plain, Plain c) ∧ (s = plain ++ '"' :: t ∨ s = plain ++ '\\' :: t) := by
  induction s with
  | nil => exact .inl (by simp)
  | cons c s ih =>
    by_cases hquote : c = '"'
    · exact .inr ⟨[], s, by simp, .inl (by rw [hquote]; rfl)⟩
    by_cases hslash : c = '\\'
    · exact .inr ⟨[], s, by simp, .inr (by rw [hslash]; rfl)⟩
    rcases ih with hs | ⟨plain, t, hplain, hs⟩
    · exact .inl (List.forall_mem_cons.2 ⟨⟨hquote, hslash⟩, hs⟩)
    · refine .inr ⟨c :: plain, t, List.forall_mem_cons.2 ⟨⟨hquote, hslash⟩, hplain⟩, ?_⟩
      exact hs.imp (congrArg (c :: ·)) (congrArg (c :: ·))

/-- The byte at hand is there where a character of one byte is in front. -/
theorem index_front {c : Char} (h : Stands text r.cursor) (hc : c.toNat < 128) (hr : r.cursor.rest.head? = some c) :
    ByteReader.index (view text r) = .ok c.toUInt8 (view text r) := by
  have hbyte : (view text r).byte? = some c.toUInt8 := (h.fronts.eq_iff hc).2 hr
  unfold ByteReader.index
  rw [bind_of_ok (get_apply _), hbyte]
  rfl

private theorem quotedFrom_open {fuel : Nat} (out : List Char) (h : Between text ⟨s, o⟩) (hs : ∀ c ∈ s, Plain c) :
    ByteReader.quotedFrom (fuel + 1) out (view text { r with cursor := ⟨s, o⟩ }) =
      .error (.fault (.malformed .unterminatedString o)) (view text { r with cursor := ⟨s, o⟩ }) := by
  have hany : ¬s.any ByteReader.stops = true := by
    rw [List.any_eq_true]
    rintro ⟨c, hc, hstops⟩
    have hnot := not_stops (hs c hc)
    rw [hstops] at hnot
    cases hnot
  unfold ByteReader.quotedFrom
  rw [bind_of_ok (rest_between (r := { r with cursor := ⟨s, o⟩ }) h)]
  dsimp only
  rw [if_neg hany]
  rfl

/-- The machine passes a run, up to the byte of the character that ends it. -/
private theorem quotedFrom_run {fuel : Nat} (out : List Char) {plain : List Char} {c : Char}
    (h : Between text ⟨plain ++ c :: t, o⟩) (hplain : ∀ c ∈ plain, Plain c) (hc : ByteReader.stops c = true)
    (hascii : c.toNat < 128) :
    ByteReader.quotedFrom (fuel + 1) out (view text { r with cursor := ⟨plain ++ c :: t, o⟩ }) =
      (if c.toUInt8 = '"'.toUInt8 then do
          modify (ByteReader.advance 1)
          return out ++ plain
        else do
          let c ← ByteReader.escape
          ByteReader.quotedFrom fuel (out ++ plain ++ [c]) : ByteM (List Char))
        (view text { r with cursor := ⟨c :: t, o + Text.utf8Size plain⟩ }) := by
  have hany : (plain ++ c :: t).any ByteReader.stops = true := by simp [hc]
  have hrun : (plain ++ c :: t).takeWhile (fun c => !ByteReader.stops c) = plain := by
    rw [List.takeWhile_append_of_pos fun d hd => not_stops (hplain d hd), List.takeWhile_cons_of_neg (by simp [hc]),
      List.append_nil]
  have hplace : Between text ⟨c :: t, o + Text.utf8Size plain⟩ := h.pass
  have hadvance : (view text { r with cursor := ⟨plain ++ c :: t, o⟩ }).advance (Text.utf8Size plain) =
      view text { r with cursor := ⟨c :: t, o + Text.utf8Size plain⟩ } := rfl
  have hindex := index_front (r := { r with cursor := ⟨c :: t, o + Text.utf8Size plain⟩ }) hplace.stands hascii rfl
  rw [ByteReader.quotedFrom, bind_of_ok (rest_between (r := { r with cursor := ⟨plain ++ c :: t, o⟩ }) h)]
  dsimp only
  rw [if_pos hany, hrun, Text.splitAt?_append]
  dsimp only
  rw [bind_of_ok (modify_apply _ _), hadvance, bind_of_ok hindex]

/-- The machine reads a quoted text, from behind the quote or an escape on, as `unquote` does.  Each escape moves it,
so fuel for the bytes that are left is enough. -/
private theorem quotedFrom_eq {fuel : Nat} (out : List Char) (h : Between text ⟨s, o⟩)
    (hfuel : Text.utf8Size text < o + fuel) : ByteReader.quotedFrom fuel out (view text { r with cursor := ⟨s, o⟩ }) =
        handed text r ((unquote ⟨s, o⟩ s o).1.map (out ++ ·), (unquote ⟨s, o⟩ s o).2) ∧
      Stands text (unquote ⟨s, o⟩ s o).2 := by
  induction fuel generalizing s o out with
  | zero =>
    obtain ⟨pre, rfl, ho⟩ := h
    obtain rfl : o = Text.utf8Size pre := ho
    rw [Text.utf8Size_append] at hfuel
    omega
  | succ fuel ih =>
    rcases exists_run s with hs | ⟨plain, t, hplain, heq | heq⟩
    -- no quote ends the text
    · have hend := Text.unquote_run ⟨s, o⟩ hs [] o
      rw [List.append_nil, unquote] at hend
      rw [hend, quotedFrom_open out h hs]
      exact ⟨rfl, h.stands⟩
    -- the closing quote
    · have hend := Text.unquote_run ⟨s, o⟩ hplain ('"' :: t) o
      rw [← heq, unquote] at hend
      rw [hend]
      subst heq
      have hquote : Between text ⟨'"' :: t, o + Text.utf8Size plain⟩ := h.pass
      have ht : Between text ⟨t, o + Text.utf8Size plain + 1⟩ := Between.pass (s := ['"']) hquote
      rw [quotedFrom_run out h hplain rfl (by decide), if_pos rfl, bind_of_ok (modify_apply _ _)]
      refine ⟨?_, ht.stands⟩
      simp only [Except.map, handed, List.append_nil]
      rfl
    -- an escape, behind which both go on if it stands for a character
    · have hend := Text.unquote_run ⟨s, o⟩ hplain ('\\' :: t) o
      rw [← heq, Text.unquote_escaped] at hend
      rw [hend]
      subst heq
      have hslash : Between text ⟨'\\' :: t, o + Text.utf8Size plain⟩ := h.pass
      obtain ⟨hescape, hstops⟩ := escape_eq (r := r) hslash
      rw [quotedFrom_run out h hplain rfl (by decide), if_neg (by decide)]
      generalize escapeStep t (o + Text.utf8Size plain + 1) = step at hescape hstops ⊢
      obtain ⟨x, t', o'⟩ := step
      cases x with
      | error fault =>
        rw [bind_of_error hescape]
        exact ⟨rfl, hstops⟩
      | ok c =>
        obtain ⟨hcursor, hlt⟩ := hstops
        have hleft : Text.utf8Size text < o' + fuel := by
          dsimp only at hlt
          omega
        obtain ⟨hrest, hplace⟩ := ih (out ++ plain ++ [c]) hcursor hleft
        have hfollowed : followed (.ok c, ⟨t', o'⟩) = .cons c (unquote ⟨t', o'⟩ t' o') := rfl
        rw [bind_of_ok hescape, hfollowed]
        refine ⟨hrest.trans ?_, hplace⟩
        obtain ⟨y, cursor⟩ := unquote ⟨t', o'⟩ t' o'
        cases y <;> simp [Except.map, handed, Text.Unquoted.cons]

/-! ### The whole text -/

/-- The machine reads a quoted text, from its opening quote on, as `unquote` reads it from behind the quote. -/
private theorem readQuoted_between (h : Between text ⟨'"' :: s, o⟩) :
    ByteReader.readQuoted (view text { r with cursor := ⟨'"' :: s, o⟩ }) =
        handed text r ((unquote ⟨s, o + 1⟩ s (o + 1)).1.map String.ofList, (unquote ⟨s, o + 1⟩ s (o + 1)).2) ∧
      Stands text (unquote ⟨s, o + 1⟩ s (o + 1)).2 := by
  have hs : Between text ⟨s, o + 1⟩ := Between.pass (s := ['"']) h
  have hadvance :
      (view text { r with cursor := ⟨'"' :: s, o⟩ }).advance 1 = view text { r with cursor := ⟨s, o + 1⟩ } := rfl
  have hfuel : Text.utf8Size text < o + 1 + ((bytes text).length - (o + 1) + 1) := by
    rw [Text.length_bytes]
    omega
  obtain ⟨hread, hplace⟩ := quotedFrom_eq (r := r) [] hs hfuel
  refine ⟨?_, hplace⟩
  unfold ByteReader.readQuoted
  rw [bind_of_ok (modify_apply _ _), hadvance, bind_of_ok (get_apply _)]
  simp only [List.nil_append] at hread
  generalize unquote ⟨s, o + 1⟩ s (o + 1) = u at hread
  obtain ⟨_ | t, cursor⟩ := u
  · exact bind_of_error hread
  · exact bind_of_ok hread

/-- The machine reads a quoted text as the reader does. -/
theorem readQuoted_agrees (h : Sound text r) (hp : r.peeked = none) (hr : r.cursor.rest.head? = some '"') :
    Agrees text (readQuoted r) (ByteReader.readQuoted (view text r)) := by
  obtain ⟨⟨rest, o⟩, started, scopes, p⟩ := r
  obtain ⟨s, rfl⟩ := List.head?_eq_some_iff.1 hr
  obtain ⟨hread, hplace⟩ := readQuoted_between (r := ⟨⟨'"' :: s, o⟩, started, scopes, p⟩)
    (h.stands.between_of_ascii (c := '"') (by decide))
  have hsound {cursor : Cursor} (hstands : Stands text cursor) : Sound text ⟨cursor, started, scopes, p⟩ :=
    .of_none hstands h.depth_le hp
  dsimp only at hread
  rw [readQuoted_apply, hread]
  generalize unquote ⟨s, o + 1⟩ s (o + 1) = u at hplace
  obtain ⟨_ | t, cursor⟩ := u
  · exact .error (hsound hplace) (by simp)
  · exact .ok (hsound hplace)

/-! ### What was quoted -/

/-- Quoting is inverted in place, whatever stands behind it and wherever it stands: the reader and the machine hand
the text over and stop behind the closing quote, at what follows.  So no two texts are quoted alike, and no quoted
text is the beginning of another. -/
theorem quoted_in_place :
    (∀ (s : String) (tail : List Char) (o : Nat) (started : Bool) (scopes : List ReadScope) (p : Option TokenKind),
      readQuoted ⟨⟨quote s.toList ++ tail, o⟩, started, scopes, p⟩ =
        .ok s ⟨⟨tail, o + Text.utf8Size (quote s.toList)⟩, started, scopes, p⟩) ∧
    (∀ (s : String) (before tail : List Char) (r : Reader), ByteReader.readQuoted
        (view (before ++ (quote s.toList ++ tail))
          { r with cursor := ⟨quote s.toList ++ tail, Text.utf8Size before⟩ }) =
      .ok s (view (before ++ (quote s.toList ++ tail))
        { r with cursor := ⟨tail, Text.utf8Size (before ++ quote s.toList)⟩ })) ∧
    Function.Injective (fun s : String => quote s.toList) ∧
    ∀ s t : String, quote s.toList <+: quote t.toList ↔ s = t := by
  have hpre (s t : String) :
      quote s.toList <+: quote t.toList ↔ s = t := by rw [Text.quote_prefix_iff, String.toList_inj]
  refine ⟨fun s tail o started scopes p => ?_, fun s before tail r => ?_, fun s t h => ?_, hpre⟩
  · rw [readQuoted_quote, String.ofList_toList]
  · have hplace : Between (before ++ (quote s.toList ++ tail)) ⟨quote s.toList ++ tail, Text.utf8Size before⟩ :=
      ⟨before, rfl, rfl⟩
    rw [Text.quote_append] at hplace ⊢
    obtain ⟨hread, -⟩ := readQuoted_between (r := r) hplace
    rw [hread, Text.unquote_quote, Text.utf8Size_append, Text.utf8Size_quote, ← Nat.add_assoc, ← Nat.add_assoc]
    simp only [Except.map, String.ofList_toList, handed]
  · have heq : quote s.toList = quote t.toList := h
    exact (hpre s t).1 (heq ▸ List.prefix_refl _)

/-- All that is escaped, with a quote and a backslash behind the closing quote. -/
example : readQuoted ⟨⟨quote ['"', '\\', '\n', '\x00', '\u2028', 'é'] ++ ['"', '\\'], 0⟩, true, [], none⟩ =
    .ok "\"\\\n\x00\u2028é" ⟨⟨['"', '\\'], 22⟩, true, [], none⟩ := rfl

end Reader

end Marshal
