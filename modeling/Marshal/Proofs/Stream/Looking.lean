import Marshal.Proofs.Stream.Grammar
import Marshal.Proofs.Converter.Containers

/-!
# Looking at the next token

What a reader makes of the text in front of the next token, in each scope (`scan_iff`): which blanks and which comma
or colon it passes, which token it finds, and how the scope changes.
-/

namespace Marshal.Reader

open Effect
open Text (Cursor)
open Dialect (loose)

/-! ### Blanks -/

private theorem skipBlanks_append {b s : List Char} {o : Nat} {started : Bool} {scopes : List ReadScope}
    {p : Option TokenKind} (hb : loose.Blank b) (hs : ∀ c, s.head? = some c → Text.isAsciiBlank c = false) :
    skipBlanks ⟨⟨b ++ s, o⟩, started, scopes, p⟩ = ⟨⟨s, o + b.length⟩, started, scopes, p⟩ := by
  have hall : ∀ c ∈ b, Text.isAsciiBlank c = true := fun c hc => Dialect.isAsciiBlank_of_isBlank (hb c hc)
  have hrest : s.takeWhile Text.isAsciiBlank = [] := by
    cases hs' : s with
    | nil => rfl
    | cons c t => exact List.takeWhile_cons_of_neg (by simp [hs c (by rw [hs']; rfl)])
  have htake : (b ++ s).takeWhile Text.isAsciiBlank = b := by
    rw [List.takeWhile_append_of_pos hall, hrest, List.append_nil]
  simp only [skipBlanks, htake, advance, Cursor.advance, List.drop_left]

private theorem skipBlanks_advance {b s : List Char} {c : Char} {o : Nat} {started : Bool} {scopes : List ReadScope}
    {p : Option TokenKind} (hb : loose.Blank b) (hs : ∀ c, s.head? = some c → Text.isAsciiBlank c = false) :
    skipBlanks (advance 1 ⟨⟨c :: (b ++ s), o⟩, started, scopes, p⟩) = ⟨⟨s, o + 1 + b.length⟩, started, scopes, p⟩ :=
  skipBlanks_append hb hs

/-- The blanks in front are passed, and no blank is left in front. -/
private theorem exists_skipBlanks (s : List Char) (o : Nat) (started : Bool) (scopes : List ReadScope)
    (p : Option TokenKind) :
    ∃ b t, loose.Blank b ∧ s = b ++ t ∧ (∀ c, t.head? = some c → Text.isAsciiBlank c = false) ∧
      skipBlanks ⟨⟨s, o⟩, started, scopes, p⟩ = ⟨⟨t, o + b.length⟩, started, scopes, p⟩ := by
  have hblank : loose.Blank (s.takeWhile Text.isAsciiBlank) := fun c hc => by
    rw [Dialect.isBlank_loose]
    exact List.mem_takeWhile_imp hc
  have hhead : ∀ c, (s.dropWhile Text.isAsciiBlank).head? = some c → Text.isAsciiBlank c = false := by
    intro c hc
    have hnot := List.head?_dropWhile_not Text.isAsciiBlank s
    rw [hc] at hnot
    simpa using hnot
  have hs := (List.takeWhile_append_dropWhile (p := Text.isAsciiBlank) (l := s)).symm
  refine ⟨_, _, hblank, hs, hhead, ?_⟩
  conv => lhs; rw [hs]
  exact skipBlanks_append hblank hhead

/-- A comma or a colon is passed, with the blanks behind it. -/
private theorem exists_passed {t : List Char} {c : Char} {o : Nat} {started : Bool} {scopes : List ReadScope}
    {p : Option TokenKind} (hc : t.head? = some c) : ∃ b t', loose.Blank b ∧ t = c :: (b ++ t') ∧
      (advance 1 ⟨⟨t, o⟩, started, scopes, p⟩).skipBlanks = ⟨⟨t', o + 1 + b.length⟩, started, scopes, p⟩ := by
  obtain ⟨s, rfl⟩ := List.head?_eq_some_iff.1 hc
  obtain ⟨b, t', hb, rfl, -, hskip⟩ := exists_skipBlanks s (o + 1) started scopes p
  exact ⟨b, t', hb, rfl, hskip⟩

private theorem not_blank_of_kindOf? {c : Char} {s : List Char} {kind : TokenKind} (hc : kindOf? c = some kind) :
    ∀ d, (c :: s).head? = some d → Text.isAsciiBlank d = false :=
  fun _ hd => Option.some.inj hd ▸ not_isAsciiBlank_of_kindOf? hc

private theorem not_blank_of_eq {c : Char} {s : List Char} (hc : Text.isAsciiBlank c = false) :
    ∀ d, (c :: s).head? = some d → Text.isAsciiBlank d = false :=
  fun _ hd => Option.some.inj hd ▸ hc

/-! ### The next token -/

/-- What a reader finds in front of it, scope by scope. -/
inductive Scans : Reader → TokenKind → Reader → Prop
  | document {b s : List Char} {c : Char} {o : Nat} {p : Option TokenKind} {kind : TokenKind} (hb : loose.Blank b)
    (hc : kindOf? c = some kind) :
    Scans ⟨⟨b ++ c :: s, o⟩, false, [], p⟩ kind ⟨⟨c :: s, o + b.length⟩, true, [], p⟩
  | endDocument {b : List Char} {o : Nat} {p : Option TokenKind} (hb : loose.Blank b) :
    Scans ⟨⟨b, o⟩, true, [], p⟩ .endDocument ⟨⟨[], o + b.length⟩, true, [], p⟩
  | item {first : Bool} {g s : List Char} {c : Char} {o : Nat} {started : Bool} {outer : List ReadScope}
    {p : Option TokenKind} {kind : TokenKind} (hg : loose.Separates first g) (hc : kindOf? c = some kind) :
    Scans ⟨⟨g ++ c :: s, o⟩, started, itemScope first :: outer, p⟩ kind
      ⟨⟨c :: s, o + g.length⟩, started, .nonEmptyArray :: outer, p⟩
  | endArray (first : Bool) {b s : List Char} {o : Nat} {started : Bool} {outer : List ReadScope}
    {p : Option TokenKind}
    (hb : loose.Blank b) :
    Scans ⟨⟨b ++ ']' :: s, o⟩, started, itemScope first :: outer, p⟩ .endArray
      ⟨⟨']' :: s, o + b.length⟩, started, itemScope first :: outer, p⟩
  | name {first : Bool} {g s : List Char} {o : Nat} {started : Bool} {outer : List ReadScope} {p : Option TokenKind}
    (hg : loose.Separates first g) :
    Scans ⟨⟨g ++ '"' :: s, o⟩, started, entryScope first :: outer, p⟩ .name
      ⟨⟨'"' :: s, o + g.length⟩, started, entryScope first :: outer, p⟩
  | endObject (first : Bool) {b s : List Char} {o : Nat} {started : Bool} {outer : List ReadScope}
    {p : Option TokenKind}
    (hb : loose.Blank b) :
    Scans ⟨⟨b ++ '\x7d' :: s, o⟩, started, entryScope first :: outer, p⟩ .endObject
      ⟨⟨'\x7d' :: s, o + b.length⟩, started, entryScope first :: outer, p⟩
  | value {b b' s : List Char} {c : Char} {o : Nat} {started : Bool} {outer : List ReadScope} {p : Option TokenKind}
    {kind : TokenKind} (hb : loose.Blank b) (hb' : loose.Blank b') (hc : kindOf? c = some kind) :
    Scans ⟨⟨b ++ ':' :: (b' ++ c :: s), o⟩, started, .danglingName :: outer, p⟩ kind
      ⟨⟨c :: s, o + b.length + 1 + b'.length⟩, started, .nonEmptyObject :: outer, p⟩

theorem valueKind_of_none {r : Reader} {c : Char} {s : List Char} (hs : r.cursor.rest = c :: s)
    (hc : kindOf? c = none) : valueKind r = .error (.malformed .unexpectedCharacter r.offset) r := by
  unfold valueKind
  rw [bind_of_ok (get_apply r)]
  simp only [hs]
  unfold kindOf? at hc
  split_ifs at hc ⊢
  rfl

private theorem valueKind_iff {r r' : Reader} {kind : TokenKind} :
    valueKind r = .ok kind r' ↔ r' = r ∧ ∃ c s, r.cursor.rest = c :: s ∧ kindOf? c = some kind := by
  constructor
  · intro h
    obtain ⟨rfl, -, hpos⟩ := valueKind_ok h
    obtain ⟨c, s, hs⟩ := List.exists_cons_of_length_pos hpos
    cases hc : kindOf? c with
    | none =>
      rw [valueKind_of_none hs hc] at h
      cases h
    | some found =>
      rw [valueKind_of_kindOf? hs hc] at h
      obtain ⟨rfl, -⟩ := ok_inj.1 h
      exact ⟨rfl, c, s, hs, hc⟩
  · rintro ⟨rfl, c, s, hs, hc⟩
    exact valueKind_of_kindOf? hs hc

private theorem nameKind_iff {r r' : Reader} {kind : TokenKind} :
    nameKind r = .ok kind r' ↔ r' = r ∧ kind = .name ∧ ∃ s, r.cursor.rest = '"' :: s := by
  rw [nameKind_apply]
  constructor
  · intro h
    split at h
    · next hc =>
      obtain ⟨rfl, rfl⟩ := ok_inj.1 h
      exact ⟨rfl, rfl, List.head?_eq_some_iff.1 hc⟩
    · cases h
  · rintro ⟨rfl, rfl, s, hs⟩
    rw [if_pos (by rw [hs]; rfl)]

private theorem next_append (b b' s : List Char) : b ++ ',' :: (b' ++ s) = (b ++ ',' :: b') ++ s := by simp

private theorem next_length (o : Nat) (b b' : List Char) :
    o + b.length + 1 + b'.length = o + (b ++ ',' :: b').length := by
  rw [List.length_append, List.length_cons]
  omega

private theorem scans_of_scan {r r' : Reader} {kind : TokenKind} (h : scan r = .ok kind r') : Scans r kind r' := by
  obtain ⟨⟨s, o⟩, started, scopes, p⟩ := r
  obtain ⟨b, t, hb, rfl, -, hskip⟩ := exists_skipBlanks s o started scopes p
  obtain ⟨m, r₁, hasks⟩ := exists_asks ⟨⟨t, o + b.length⟩, started, scopes, p⟩
  rw [scan_of_asks (hskip ▸ hasks)] at h
  cases hasks with
  | trailing | noItem | noName | noColon => cases h
  | endDocument hs hstarted hr =>
    obtain ⟨rfl, rfl⟩ := ok_inj.1 h
    obtain rfl : scopes = [] := hs
    obtain rfl : started = true := hstarted
    obtain rfl : t = [] := hr
    rw [List.append_nil]
    exact .endDocument hb
  | document hs hstarted =>
    obtain ⟨rfl, c, s, hr, hc⟩ := valueKind_iff.1 h
    obtain rfl : scopes = [] := hs
    obtain rfl : started = false := hstarted
    obtain rfl : t = c :: s := hr
    exact .document hb hc
  | endArray hs hscope hr =>
    obtain ⟨rfl, rfl⟩ := ok_inj.1 h
    obtain rfl : scopes = _ :: _ := hs
    obtain ⟨s, rfl⟩ := List.head?_eq_some_iff.1 hr
    rcases hscope with rfl | rfl
    · exact .endArray true hb
    · exact .endArray false hb
  | firstItem hs _ =>
    obtain rfl : scopes = _ :: _ := hs
    obtain ⟨rfl, c, s, hr, hc⟩ := valueKind_iff.1 h
    obtain rfl : t = c :: s := hr
    exact .item (.first hb) hc
  | nextItem hs hr =>
    obtain rfl : scopes = _ :: _ := hs
    obtain ⟨b', t', hb', rfl, hpassed⟩ := exists_passed hr
    rw [hpassed] at h
    obtain ⟨rfl, c, s, hr, hc⟩ := valueKind_iff.1 h
    obtain rfl : t' = c :: s := hr
    rw [next_append, next_length]
    exact .item (.next hb hb') hc
  | endObject hs hscope hr =>
    obtain ⟨rfl, rfl⟩ := ok_inj.1 h
    obtain rfl : scopes = _ :: _ := hs
    obtain ⟨s, rfl⟩ := List.head?_eq_some_iff.1 hr
    rcases hscope with rfl | rfl
    · exact .endObject true hb
    · exact .endObject false hb
  | firstName hs _ =>
    obtain rfl : scopes = _ :: _ := hs
    obtain ⟨rfl, rfl, s, hr⟩ := nameKind_iff.1 h
    obtain rfl : t = '"' :: s := hr
    exact .name (.first hb)
  | nextName hs hr =>
    obtain rfl : scopes = _ :: _ := hs
    obtain ⟨b', t', hb', rfl, hpassed⟩ := exists_passed hr
    rw [hpassed] at h
    obtain ⟨rfl, rfl, s, hr⟩ := nameKind_iff.1 h
    obtain rfl : t' = '"' :: s := hr
    rw [next_append, next_length]
    exact .name (.next hb hb')
  | entryValue hs hr =>
    obtain rfl : scopes = _ :: _ := hs
    obtain ⟨b', t', hb', rfl, hpassed⟩ := exists_passed hr
    rw [hpassed] at h
    obtain ⟨rfl, c, s, hr, hc⟩ := valueKind_iff.1 h
    obtain rfl : t' = c :: s := hr
    exact .value hb hb' hc

private theorem scan_append {b s : List Char} {o : Nat} {started : Bool} {scopes : List ReadScope}
    {p : Option TokenKind} {m : ReadM TokenKind} {r' : Reader} (hb : loose.Blank b)
    (hs : ∀ c, s.head? = some c → Text.isAsciiBlank c = false)
    (h : Asks ⟨⟨s, o + b.length⟩, started, scopes, p⟩ m r') : scan ⟨⟨b ++ s, o⟩, started, scopes, p⟩ = m r' :=
  scan_of_asks (by rwa [skipBlanks_append hb hs])

/-- What a reader finds in front of it is exactly this. -/
theorem scan_iff {r r' : Reader} {kind : TokenKind} : scan r = .ok kind r' ↔ Scans r kind r' := by
  refine ⟨scans_of_scan, fun h => ?_⟩
  cases h with
  | document hb hc =>
    exact (scan_append hb (not_blank_of_kindOf? hc) (.document rfl rfl)).trans (valueKind_of_kindOf? rfl hc)
  | @endDocument b o p hb =>
    have hscan := scan_append (s := []) (o := o) (p := p) hb nofun (.endDocument rfl rfl rfl)
    rwa [List.append_nil] at hscan
  | item hg hc =>
    have hbracket (s : List Char) : ¬(_ :: s).head? = some ']' := fun h => ne_of_kindOf? hc rfl (Option.some.inj h)
    cases hg with
    | first hb =>
      exact (scan_append hb (not_blank_of_kindOf? hc) (.firstItem rfl (hbracket _))).trans
        (valueKind_of_kindOf? rfl hc)
    | next hb hb' =>
      rw [← next_append, ← next_length]
      refine (scan_append hb (not_blank_of_eq rfl) (.nextItem rfl rfl)).trans ?_
      rw [skipBlanks_advance hb' (not_blank_of_kindOf? hc)]
      exact valueKind_of_kindOf? rfl hc
  | endArray first hb =>
    refine scan_append hb (not_blank_of_eq rfl) (.endArray rfl ?_ rfl)
    cases first <;> simp [itemScope]
  | name hg =>
    cases hg with
    | first hb =>
      have hquote (s : List Char) : ('"' :: s).head? ≠ some '\x7d' := by simp
      exact (scan_append hb (not_blank_of_eq rfl) (.firstName rfl (hquote _))).trans rfl
    | next hb hb' =>
      rw [← next_append, ← next_length]
      refine (scan_append hb (not_blank_of_eq rfl) (.nextName rfl rfl)).trans ?_
      rw [skipBlanks_advance hb' (not_blank_of_eq rfl)]
      rfl
  | endObject first hb =>
    refine scan_append hb (not_blank_of_eq rfl) (.endObject rfl ?_ rfl)
    cases first <;> simp [entryScope]
  | value hb hb' hc =>
    refine (scan_append hb (not_blank_of_eq rfl) (.entryValue rfl rfl)).trans ?_
    rw [skipBlanks_advance hb' (not_blank_of_kindOf? hc)]
    exact valueKind_of_kindOf? rfl hc

theorem Scans.peek_eq {r r' : Reader} {kind : TokenKind} (h : Scans r kind r') (hr : r.peeked = none := by rfl) :
    peek r = .ok kind { r' with peeked := some kind } :=
  peek_of_scan r' hr (scan_iff.2 h)

/-- Looking at the next token works it out, and remembers it. -/
theorem peek_iff {r r' : Reader} {kind : TokenKind} (hr : r.peeked = none) :
    peek r = .ok kind r' ↔ ∃ r₁, Scans r kind r₁ ∧ r' = { r₁ with peeked := some kind } := by
  constructor
  · intro h
    unfold peek at h
    rw [bind_of_ok (get_apply r)] at h
    simp only [hr] at h
    obtain ⟨found, r₁, hscan, h⟩ := bind_eq_ok.1 h
    obtain ⟨rfl, rfl⟩ := ok_inj.1 h
    exact ⟨r₁, scan_iff.1 hscan, rfl⟩
  · rintro ⟨r₁, hscan, rfl⟩
    exact hscan.peek_eq hr

end Marshal.Reader
