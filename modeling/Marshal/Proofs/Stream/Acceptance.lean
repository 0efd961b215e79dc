import Marshal.Proofs.Stream.Pulls
import Marshal.Proofs.Converter.Framing

/-!
# What a skip accepts

A text is skipped as a whole exactly if it spells a document in the dialect of the reader (`skipped_iff`).  What is
skipped was spelled: the induction is on the fuel of the skip, and inside it on the steps of a loop.  What is spelled
is skipped: it can be pulled, and what can be pulled can be skipped.
-/

namespace Marshal.Reader

open Effect
open Dialect (loose)
open Document (Part)

/-! ### Leaves -/

/-- A piece of a document stood between two places, and `outer` is open behind it. -/
structure Took (part : Part) (outer : List ReadScope) (r r' : Reader) : Prop where
  spelled : ∃ s, loose.Spells part s ∧ r.cursor.rest = s ++ r'.cursor.rest
  scopes_eq : r'.scopes = outer
  peeked_eq : r'.peeked = none

/-- The reader stands at a value, whose token has been looked at. -/
def AtValue (r : Reader) : Prop :=
  ∃ k c s, r.peeked = some k ∧ r.cursor.rest = c :: s ∧ kindOf? c = some k

/-- Begun at a value, the computation takes just the value, which does not nest too deep. -/
def TakesValue (m : ReadM Unit) : Prop :=
  ∀ r r', AtValue r → r.depth ≤ maxDepth → m r = .ok ⟨⟩ r' →
    ∃ j, Took (.value j) r.scopes r r' ∧ r.depth + j.depth ≤ maxDepth

private theorem spelled_of_readQuoted {r r' : Reader} {name : String} {s : List Char} (hr : r.cursor.rest = '"' :: s)
    (h : readQuoted r = .ok name r') : ∃ t, loose.SpellsText name.toList t ∧ s = t ++ '"' :: r'.cursor.rest ∧
      r'.scopes = r.scopes ∧ r'.peeked = r.peeked := by
  obtain ⟨⟨rest, o⟩, started, scopes, peeked⟩ := r
  obtain rfl : rest = '"' :: s := hr
  rw [readQuoted_apply] at h
  cases hu : Text.unquote ⟨s, o + 1⟩ s (o + 1) with
  | mk result cursor =>
    rw [hu] at h
    cases result with
    | error fault => cases h
    | ok cs =>
      obtain ⟨rfl, rfl⟩ := ok_inj.1 h
      obtain ⟨t, ht, hs⟩ := Dialect.spellsText_of_unquote hu
      rw [String.toList_ofList]
      exact ⟨t, ht, hs, rfl, rfl⟩

private theorem spelled_of_readNumber {r r' : Reader} {lexeme : String} (h : readNumber r = .ok lexeme r') :
    loose.IsLexeme lexeme.toList ∧ r.cursor.rest = lexeme.toList ++ r'.cursor.rest ∧ r'.scopes = r.scopes ∧
      r'.peeked = r.peeked := by
  unfold readNumber at h
  rw [bind_of_ok (get_apply r)] at h
  split at h
  · next hlexeme =>
    rw [bind_of_ok (set_apply _ _)] at h
    obtain ⟨rfl, rfl⟩ := ok_inj.1 h
    rw [String.toList_ofList]
    refine ⟨Dialect.isLexeme_loose hlexeme, ?_, rfl, rfl⟩
    have hprefix := List.takeWhile_prefix (p := isNumberChar) (l := r.cursor.rest)
    exact (List.prefix_iff_eq_append.1 hprefix).symm
  · cases h

private theorem spelled_of_readLiteral {literal : List Char} {r r' : Reader} (h : readLiteral literal r = .ok ⟨⟩ r') :
    r.cursor.rest = literal ++ r'.cursor.rest ∧ r'.scopes = r.scopes ∧ r'.peeked = r.peeked := by
  unfold readLiteral at h
  rw [bind_of_ok (get_apply r)] at h
  split at h
  · next hpre =>
    obtain ⟨-, rfl⟩ := ok_inj.1 h
    exact ⟨(List.prefix_iff_eq_append.1 (List.isPrefixOf_iff_prefix.1 hpre)).symm, rfl, rfl⟩
  · cases h

variable {r r₁ r' : Reader}

private theorem took_string {s : String} {t : List Char} (hp : r.peeked = some .string)
    (hr : r.cursor.rest = '"' :: t) (h : nextString r = .ok s r') : Took (.value (.string s)) r.scopes r r' := by
  unfold nextString at h
  rw [bind_of_ok (peek_of_peeked hp)] at h
  obtain ⟨_, r₂, htake, h⟩ := bind_eq_ok.1 h
  obtain ⟨-, rfl⟩ := ok_inj.1 htake
  obtain ⟨u, hu, ht, hscopes, hpeeked⟩ := spelled_of_readQuoted (r := { r with peeked := none }) hr h
  exact ⟨⟨_, .string hu, by simp [hr, ht]⟩, hscopes, hpeeked⟩

private theorem took_number {s : String} (hp : r.peeked = some .number) (h : nextString r = .ok s r') :
    Took (.value (.number s)) r.scopes r r' := by
  unfold nextString at h
  rw [bind_of_ok (peek_of_peeked hp)] at h
  obtain ⟨_, r₂, htake, h⟩ := bind_eq_ok.1 h
  obtain ⟨-, rfl⟩ := ok_inj.1 htake
  obtain ⟨hs, hrest, hscopes, hpeeked⟩ := spelled_of_readNumber h
  exact ⟨⟨_, .number hs, hrest⟩, hscopes, hpeeked⟩

private theorem took_bool {b : Bool} (hp : r.peeked = some .boolean) (h : nextBool r = .ok b r') :
    Took (.value (.bool b)) r.scopes r r' := by
  unfold nextBool at h
  rw [bind_of_ok (expect_of_peek (peek_of_peeked hp)), bind_of_ok (get_apply _)] at h
  split at h
  all_goals
    obtain ⟨_, r₂, hliteral, h⟩ := bind_eq_ok.1 h
    obtain ⟨rfl, rfl⟩ := ok_inj.1 h
    obtain ⟨hrest, hscopes, hpeeked⟩ := spelled_of_readLiteral hliteral
  · exact ⟨⟨_, .true, hrest⟩, hscopes, hpeeked⟩
  · exact ⟨⟨_, .false, hrest⟩, hscopes, hpeeked⟩

private theorem took_null (hp : r.peeked = some .null) (h : nextNull r = .ok ⟨⟩ r') :
    Took (.value .null) r.scopes r r' := by
  unfold nextNull at h
  rw [bind_of_ok (expect_of_peek (peek_of_peeked hp))] at h
  obtain ⟨hrest, hscopes, hpeeked⟩ := spelled_of_readLiteral h
  exact ⟨⟨_, .null, hrest⟩, hscopes, hpeeked⟩

/-! ### Elements and entries -/

variable {k : TokenKind} {first : Bool} {outer : List ReadScope}

/-- In an array, a reader finds an element or the closing bracket. -/
theorem Scans.of_items (h : Scans r k r₁) (hr : r.scopes = itemScope first :: outer) :
    (∃ g, loose.Separates first g ∧ r.cursor.rest = g ++ r₁.cursor.rest ∧ r₁.scopes = .nonEmptyArray :: outer ∧
      AtValue { r₁ with peeked := some k }) ∨
    (k = .endArray ∧ ∃ b s, loose.Blank b ∧ r.cursor.rest = b ++ ']' :: s ∧ r₁.cursor.rest = ']' :: s ∧
      r₁.scopes = r.scopes) := by
  cases h with
  | @item first' g s c _ _ _ _ _ hg hc =>
    obtain ⟨hfirst, rfl⟩ := List.cons.inj hr
    obtain rfl : first' = first := by cases first <;> cases first' <;> first | rfl | cases hfirst
    exact .inl ⟨g, hg, rfl, rfl, k, c, s, rfl, rfl, hc⟩
  | @endArray first' b s _ _ _ _ hb => exact .inr ⟨rfl, b, s, hb, rfl, rfl, rfl⟩
  | document | endDocument => cases hr
  | @name first' | @endObject first' => cases first <;> cases first' <;> cases (List.cons.inj hr).1
  | value => cases first <;> cases (List.cons.inj hr).1

/-- In an object, a reader finds a name or the closing bracket. -/
theorem Scans.of_entries (h : Scans r k r₁) (hr : r.scopes = entryScope first :: outer) :
    (k = .name ∧ ∃ g s, loose.Separates first g ∧ r.cursor.rest = g ++ '"' :: s ∧ r₁.cursor.rest = '"' :: s ∧
      r₁.scopes = r.scopes) ∨
    (k = .endObject ∧ ∃ b s, loose.Blank b ∧ r.cursor.rest = b ++ '\x7d' :: s ∧ r₁.cursor.rest = '\x7d' :: s ∧
      r₁.scopes = r.scopes) := by
  cases h with
  | @name first' g s _ _ _ _ hg =>
    obtain ⟨hfirst, rfl⟩ := List.cons.inj hr
    obtain rfl : first' = first := by cases first <;> cases first' <;> first | rfl | cases hfirst
    exact .inl ⟨rfl, g, s, hg, rfl, rfl, rfl⟩
  | @endObject first' b s _ _ _ _ hb => exact .inr ⟨rfl, b, s, hb, rfl, rfl, rfl⟩
  | document | endDocument => cases hr
  | @item first' | @endArray first' => cases first <;> cases first' <;> cases (List.cons.inj hr).1
  | value => cases first <;> cases (List.cons.inj hr).1

/-- Behind a name, a reader finds a colon and a value. -/
theorem Scans.of_danglingName (h : Scans r k r₁) (hr : r.scopes = .danglingName :: outer) :
    ∃ b b', loose.Blank b ∧ loose.Blank b' ∧ r.cursor.rest = b ++ ':' :: (b' ++ r₁.cursor.rest) ∧
      r₁.scopes = .nonEmptyObject :: outer ∧ AtValue { r₁ with peeked := some k } := by
  cases h with
  | @value b b' s c _ _ _ _ _ hb hb' hc =>
    obtain ⟨-, rfl⟩ := List.cons.inj hr
    exact ⟨b, b', hb, hb', rfl, rfl, k, c, s, rfl, rfl, hc⟩
  | document | endDocument => cases hr
  | @item first | @endArray first | @name first | @endObject first => cases first <;> cases (List.cons.inj hr).1

theorem AtValue.not_ends (h : AtValue { r with peeked := some k }) : ¬Ends k := by
  obtain ⟨kind, c, s, hp, -, hc⟩ := h
  obtain rfl : k = kind := Option.some.inj hp
  have hk := startsValue_of_kindOf? hc
  rintro (rfl | rfl | rfl) <;> cases hk

/-- Where a skip succeeds the next token can be looked at, and the skip goes on from there. -/
theorem skipWith_ok {fuel : Nat} (h : skipWith fuel r = .ok ⟨⟩ r') :
    ∃ k r₁, peek r = .ok k r₁ ∧ skipWith fuel r₁ = .ok ⟨⟩ r' := by
  cases fuel with
  | zero => cases h
  | succ fuel =>
    obtain ⟨k, r₁, hpeek, -⟩ := bind_eq_ok.1 h
    exact ⟨k, r₁, hpeek, ((looksFirst_skipWith fuel).after_peek hpeek).trans h⟩

/-- A loop over the elements of an array takes elements, and the closing bracket. -/
private theorem took_items {step : ReadM Unit} (hstep : TakesValue step) :
    ∀ (n : Nat) (first : Bool) (r r₁ r' : Reader),
    r.scopes = itemScope first :: outer → r.peeked = none → r.depth ≤ maxDepth →
      whileNext n step r = .ok ⟨⟩ r₁ → endArray r₁ = .ok ⟨⟩ r' →
        ∃ js, Took (.items first js) outer r r' ∧ outer.length + 1 + Document.itemsDepth js ≤ maxDepth := by
  intro n
  induction n with
  | zero =>
    intro first r r₁ r' _ _ _ h
    cases h
  | succ n ih =>
    intro first r r₁ r' hr hp hdepth hloop hclose
    have hlength : r.depth = outer.length + 1 := by rw [depth, hr, List.length_cons]
    obtain ⟨k, r₂, hpeek, hnext⟩ := whileNext_succ_ok hloop
    obtain ⟨r₂, hscan, rfl⟩ := (peek_iff hp).1 hpeek
    rcases hscan.of_items hr with ⟨g, hg, hrest, hscopes, hvalue⟩ | ⟨rfl, b, s, hb, hrest, hrest₂, hscopes⟩
    · obtain ⟨hends, -⟩ | ⟨-, r₃, hvalueStep, hloop⟩ := hnext
      · exact absurd hends hvalue.not_ends
      have hdepth₂ : depth { r₂ with peeked := some k } = outer.length + 1 := by rw [depth, hscopes, List.length_cons]
      obtain ⟨j, hj, hjdepth⟩ := hstep _ _ hvalue (by omega) hvalueStep
      obtain ⟨s, hs, hrest₂⟩ := hj.spelled
      have hdepth₃ : r₃.depth = outer.length + 1 := by rw [depth, hj.scopes_eq, hscopes, List.length_cons]
      obtain ⟨js, hjs, hjsdepth⟩ :=
        ih false r₃ r₁ r' (hj.scopes_eq.trans hscopes) hj.peeked_eq (by omega) hloop hclose
      obtain ⟨t, ht, hrest₃⟩ := hjs.spelled
      refine ⟨j :: js, ⟨⟨_, .item hg hs ht, ?_⟩, hjs.scopes_eq, hjs.peeked_eq⟩, ?_⟩
      · rw [hrest, hrest₂, hrest₃, List.append_assoc, List.append_assoc]
      · rw [Document.itemsDepth]
        omega
    · obtain ⟨-, rfl⟩ | ⟨hends, -⟩ := hnext
      · obtain ⟨⟨rest, o⟩, started, scopes, p⟩ := r₂
        obtain rfl : rest = ']' :: s := hrest₂
        obtain rfl : scopes = itemScope first :: outer := hscopes.trans hr
        rw [endArray_of_peek (peek_of_peeked rfl)] at hclose
        obtain ⟨-, rfl⟩ := ok_inj.1 hclose
        exact ⟨[], ⟨⟨_, .endArray first hb, by simp [hrest]⟩, rfl, rfl⟩, by rw [Document.itemsDepth]; omega⟩
      · exact absurd (.inr (.inl rfl)) hends

theorem spelled_of_nextName {name : String} {s : List Char} {scope : ReadScope} (hp : r.peeked = some .name)
    (hr : r.cursor.rest = '"' :: s) (hscopes : r.scopes = scope :: outer) (h : nextName r = .ok name r') :
    ∃ t, loose.SpellsText name.toList t ∧ s = t ++ '"' :: r'.cursor.rest ∧ r'.scopes = .danglingName :: outer ∧
      r'.peeked = none := by
  unfold nextName at h
  rw [bind_of_ok (expect_of_peek (peek_of_peeked hp))] at h
  obtain ⟨name, r₁, hread, h⟩ := bind_eq_ok.1 h
  obtain ⟨rfl, rfl⟩ := ok_inj.1 h
  obtain ⟨t, ht, hs, hscopes₁, hpeeked⟩ := spelled_of_readQuoted (r := { r with peeked := none }) hr hread
  obtain ⟨⟨rest, o⟩, started, scopes, p⟩ := r₁
  obtain rfl : scopes = scope :: outer := hscopes₁.trans hscopes
  exact ⟨t, ht, hs, rfl, hpeeked⟩

/-- A loop over the entries of an object takes entries, and the closing bracket. -/
private theorem took_entries {fuel : Nat} (hskip : TakesValue (skipWith fuel)) :
    ∀ (n : Nat) (first : Bool) (r r₁ r' : Reader),
    r.scopes = entryScope first :: outer → r.peeked = none → r.depth ≤ maxDepth →
      whileNext n (do let _ ← nextName; skipWith fuel) r = .ok ⟨⟩ r₁ → endObject r₁ = .ok ⟨⟩ r' →
        ∃ es, Took (.entries first es) outer r r' ∧ outer.length + 1 + Document.entriesDepth es ≤ maxDepth := by
  intro n
  induction n with
  | zero =>
    intro first r r₁ r' _ _ _ h
    cases h
  | succ n ih =>
    intro first r r₁ r' hr hp hdepth hloop hclose
    have hlength : r.depth = outer.length + 1 := by rw [depth, hr, List.length_cons]
    obtain ⟨k, r₂, hpeek, hnext⟩ := whileNext_succ_ok hloop
    obtain ⟨r₂, hscan, rfl⟩ := (peek_iff hp).1 hpeek
    rcases hscan.of_entries hr with ⟨rfl, g, s, hg, hrest, hrest₂, hscopes⟩ | ⟨rfl, b, s, hb, hrest, hrest₂, hscopes⟩
    · obtain ⟨hends, -⟩ | ⟨-, r₅, hentry, hloop⟩ := hnext
      · simp [Ends] at hends
      obtain ⟨name, r₃, hname, hvalue⟩ := bind_eq_ok.1 hentry
      obtain ⟨u, hu, rfl, hscopes₃, hp₃⟩ := spelled_of_nextName (r := { r₂ with peeked := some .name }) rfl hrest₂
        (hscopes.trans hr) hname
      obtain ⟨k, r₄, hpeek₃, hvalue⟩ := skipWith_ok hvalue
      obtain ⟨r₄, hscan₃, rfl⟩ := (peek_iff hp₃).1 hpeek₃
      obtain ⟨b, b', hb, hb', hrest₃, hscopes₄, hatValue⟩ := hscan₃.of_danglingName hscopes₃
      have hdepth₄ :
          depth { r₄ with peeked := some k } = outer.length + 1 := by rw [depth, hscopes₄, List.length_cons]
      obtain ⟨j, hj, hjdepth⟩ := hskip _ _ hatValue (by omega) hvalue
      obtain ⟨t, ht, hrest₄⟩ := hj.spelled
      have hdepth₅ : r₅.depth = outer.length + 1 := by rw [depth, hj.scopes_eq, hscopes₄, List.length_cons]
      obtain ⟨es, hes, hesdepth⟩ :=
        ih false r₅ r₁ r' (hj.scopes_eq.trans hscopes₄) hj.peeked_eq (by omega) hloop hclose
      obtain ⟨v, hv, hrest₅⟩ := hes.spelled
      refine ⟨(name, j) :: es, ⟨⟨_, .entry hg hu hb hb' ht hv, ?_⟩, hes.scopes_eq, hes.peeked_eq⟩, ?_⟩
      · dsimp only at hrest₄
        simp [hrest, hrest₃, hrest₄, hrest₅]
      · rw [Document.entriesDepth]
        omega
    · obtain ⟨-, rfl⟩ | ⟨hends, -⟩ := hnext
      · obtain ⟨⟨rest, o⟩, started, scopes, p⟩ := r₂
        obtain rfl : rest = '\x7d' :: s := hrest₂
        obtain rfl : scopes = entryScope first :: outer := hscopes.trans hr
        rw [endObject_of_peek (peek_of_peeked rfl)] at hclose
        obtain ⟨-, rfl⟩ := ok_inj.1 hclose
        exact ⟨[], ⟨⟨_, .endObject first hb, by simp [hrest]⟩, rfl, rfl⟩, by rw [Document.entriesDepth]; omega⟩
      · exact absurd (.inl rfl) hends

/-! ### Values -/

/-- What a skip takes is a value. -/
theorem takesValue_skipWith (fuel : Nat) : TakesValue (skipWith fuel) := by
  induction fuel with
  | zero =>
    intro r r' _ _ h
    cases h
  | succ fuel ih =>
    intro r r' hvalue hdepth h
    obtain ⟨k, c, s, hp, hr, hc⟩ := hvalue
    rw [skipWith_of_peek fuel (peek_of_peeked hp)] at h
    cases k
    case beginArray =>
      obtain ⟨_, r₁, hopen, h⟩ := bind_eq_ok.1 h
      have hlt := (beginArray_ok hopen).depth_lt
      obtain ⟨⟨rest, o⟩, started, scopes, p⟩ := r
      obtain rfl : rest = c :: s := hr
      obtain rfl := front_of_kindOf?.2.1 hc
      rw [beginArray_of_peek (peek_of_peeked hp) hlt] at hopen
      obtain ⟨-, rfl⟩ := ok_inj.1 hopen
      rw [bind_of_ok (get_apply _)] at h
      obtain ⟨_, r₂, hloop, hclose⟩ := bind_eq_ok.1 h
      obtain ⟨js, hjs, hjsdepth⟩ := took_items ih _ true _ r₂ r' rfl rfl (by exact hlt) hloop hclose
      obtain ⟨t, ht, hrest⟩ := hjs.spelled
      refine ⟨.array js, ⟨⟨_, .array ht, by simpa using hrest⟩, hjs.scopes_eq, hjs.peeked_eq⟩, ?_⟩
      rw [Document.depth, depth]
      dsimp only
      omega
    case beginObject =>
      obtain ⟨_, r₁, hopen, h⟩ := bind_eq_ok.1 h
      have hlt := (beginObject_ok hopen).depth_lt
      obtain ⟨⟨rest, o⟩, started, scopes, p⟩ := r
      obtain rfl : rest = c :: s := hr
      obtain rfl := front_of_kindOf?.2.2 hc
      rw [beginObject_of_peek (peek_of_peeked hp) hlt] at hopen
      obtain ⟨-, rfl⟩ := ok_inj.1 hopen
      rw [bind_of_ok (get_apply _)] at h
      obtain ⟨_, r₂, hloop, hclose⟩ := bind_eq_ok.1 h
      obtain ⟨es, hes, hesdepth⟩ := took_entries ih _ true _ r₂ r' rfl rfl (by exact hlt) hloop hclose
      obtain ⟨t, ht, hrest⟩ := hes.spelled
      refine ⟨.object es, ⟨⟨_, .object ht, by simpa using hrest⟩, hes.scopes_eq, hes.peeked_eq⟩, ?_⟩
      rw [Document.depth, depth]
      dsimp only
      omega
    case string =>
      obtain rfl := front_of_kindOf?.1 hc
      obtain ⟨t, r₁, hs, h⟩ := bind_eq_ok.1 h
      obtain ⟨-, rfl⟩ := ok_inj.1 h
      exact ⟨_, took_string hp hr hs, hdepth⟩
    case number =>
      obtain ⟨t, r₁, hs, h⟩ := bind_eq_ok.1 h
      obtain ⟨-, rfl⟩ := ok_inj.1 h
      exact ⟨_, took_number hp hs, hdepth⟩
    case boolean =>
      obtain ⟨b, r₁, hb, h⟩ := bind_eq_ok.1 h
      obtain ⟨-, rfl⟩ := ok_inj.1 h
      exact ⟨_, took_bool hp hb, hdepth⟩
    case null => exact ⟨_, took_null hp h, hdepth⟩
    all_goals cases startsValue_of_kindOf? hc

private theorem Scans.of_endDocument (h : Scans r .endDocument r₁) : loose.Blank r.cursor.rest := by
  cases h with
  | endDocument hb => exact hb
  | document _ hc | item _ hc | value _ _ hc => cases startsValue_of_kindOf? hc

/-- A text that is skipped as a whole spells a document. -/
theorem spells_of_skipValue {text : List Char} (h : skipValue (ofText text) = .ok ⟨⟩ r)
    (hend : peek r = .ok .endDocument r') : ∃ j, j.depth ≤ maxDepth ∧ loose.SpellsDocument j text := by
  obtain ⟨k, r₁, hpeek, hskip⟩ := skipWith_ok h
  obtain ⟨r₁, hscan, rfl⟩ := (peek_iff rfl).1 hpeek
  cases hscan with
  | @document b s c _ _ _ hb hc =>
    obtain ⟨j, hj, hdepth⟩ := takesValue_skipWith _ _ _ ⟨k, c, s, rfl, rfl, hc⟩ (Nat.zero_le _) hskip
    obtain ⟨t, ht, hrest⟩ := hj.spelled
    obtain ⟨r₂, hscan, -⟩ := (peek_iff hj.peeked_eq).1 hend
    refine ⟨j, by omega, ?_⟩
    dsimp only at hrest
    rw [hrest]
    exact .mk hb ht hscan.of_endDocument

/-! ### What can be pulled can be skipped -/

/-- One more entry in front of a loop that skips. -/
private theorem whileNext_skipEntry {name : String} (n : Nat) (hr : 0 < r.depth) (hname : nextName r = .ok name r₁)
    (h : skipValue r₁ = .ok ⟨⟩ r') :
    whileNext (n + 1) (do let _ ← nextName; skipWith (maxDepth + 1)) r =
      whileNext n (do let _ ← nextName; skipWith (maxDepth + 1)) r' := by
  obtain ⟨_, r₂, hexpect, -⟩ := bind_eq_ok.1 hname
  obtain ⟨r₂, hpeek, -⟩ := expect_ok hexpect
  have hdepth := (nextName_ok hname).depth_eq
  have hskip := skipWith_of_skipValue (by omega) h
  rw [← looksFirst_nextName.after_peek hpeek] at hname
  exact (whileNext_of_not_ends n _ hpeek (by simp [Ends])).trans
    (bind_of_ok (a := ⟨⟩) ((bind_of_ok hname).trans hskip))

mutual

theorem skipValue_of_pulls : ∀ (j : Document) {r r' : Reader}, Pulls j.requests r r' → skipValue r = .ok ⟨⟩ r'
  | .null, r, r', h => by
    obtain ⟨_, r₁, hnull, h⟩ := bind_eq_ok.1 (pulls_one.1 h)
    obtain ⟨-, rfl⟩ := ok_inj.1 h
    exact skipValue_of_nextNull hnull
  | .bool b, r, r', h => by
    obtain ⟨_, r₁, hbool, h⟩ := bind_eq_ok.1 (pulls_one.1 h)
    obtain ⟨-, rfl⟩ := ok_inj.1 h
    exact skipValue_of_nextBool hbool
  | .string s, r, r', h => by
    obtain ⟨_, r₁, hstring, h⟩ := bind_eq_ok.1 (pulls_one.1 h)
    obtain ⟨-, rfl⟩ := ok_inj.1 h
    exact skipValue_of_nextString hstring
  | .number lexeme, r, r', h => by
    obtain ⟨_, r₁, hnumber, h⟩ := bind_eq_ok.1 (pulls_one.1 h)
    obtain ⟨-, rfl⟩ := ok_inj.1 h
    exact skipValue_of_nextNumber hnumber
  | .array js, r, r', h => by
    obtain ⟨r₁, hrun, hrest⟩ := pulls_cons.1 h
    obtain ⟨_, r₁, hopen, hrun⟩ := bind_eq_ok.1 hrun
    obtain ⟨-, rfl⟩ := ok_inj.1 hrun
    obtain ⟨p, hpeek⟩ := (beginArray_ok hopen).peek_eq
    have hdepth := (beginArray_ok hopen).depth_eq
    rw [← looksFirst_beginArray.after_peek hpeek] at hopen
    obtain ⟨r₂, hloop, hclose⟩ := skipItems_of_pulls js hrest (by omega) _ (Nat.lt_succ_self _)
    rw [skipValue_of_peek hpeek, skipKind, bind_of_ok hopen, bind_of_ok (get_apply _)]
    exact (bind_of_ok hloop).trans hclose
  | .object es, r, r', h => by
    obtain ⟨r₁, hrun, hrest⟩ := pulls_cons.1 h
    obtain ⟨_, r₁, hopen, hrun⟩ := bind_eq_ok.1 hrun
    obtain ⟨-, rfl⟩ := ok_inj.1 hrun
    obtain ⟨p, hpeek⟩ := (beginObject_ok hopen).peek_eq
    have hdepth := (beginObject_ok hopen).depth_eq
    rw [← looksFirst_beginObject.after_peek hpeek] at hopen
    obtain ⟨r₂, hloop, hclose⟩ := skipEntries_of_pulls es hrest (by omega) _ (Nat.lt_succ_self _)
    rw [skipValue_of_peek hpeek, skipKind, bind_of_ok hopen, bind_of_ok (get_apply _)]
    exact (bind_of_ok hloop).trans hclose

private theorem skipItems_of_pulls : ∀ (js : List Document) {r r' : Reader}, Pulls (Document.itemsRequests js) r r' →
    0 < r.depth → ∀ n, r.left < n →
      ∃ r₁, whileNext n (skipWith (maxDepth + 1)) r = .ok ⟨⟩ r₁ ∧ endArray r₁ = .ok ⟨⟩ r'
  | [], r, r', h, _, n, hn => by
    obtain ⟨_, r₁, hclose, h⟩ := bind_eq_ok.1 (pulls_one.1 h)
    obtain ⟨-, rfl⟩ := ok_inj.1 h
    obtain ⟨p, hpeek⟩ := (endArray_ok hclose).peek_eq
    obtain ⟨n, rfl⟩ := Nat.exists_eq_succ_of_ne_zero (Nat.ne_zero_of_lt hn)
    exact ⟨p, whileNext_of_ends n _ hpeek (.inr (.inl rfl)), (looksFirst_endArray.after_peek hpeek).trans hclose⟩
  | j :: js, r, r', h, hr, n, hn => by
    obtain ⟨r₁, hvalue, hrest⟩ := pulls_append.1 h
    have hskip := skipValue_of_pulls j hvalue
    obtain ⟨hdepth, hleft, -⟩ := skipValue_consumes hskip
    obtain ⟨n, rfl⟩ := Nat.exists_eq_succ_of_ne_zero (Nat.ne_zero_of_lt hn)
    obtain ⟨r₂, hloop, hclose⟩ := skipItems_of_pulls js hrest (by omega) n (by omega)
    exact ⟨r₂, (whileNext_skip n hr hskip).trans hloop, hclose⟩

private theorem skipEntries_of_pulls :
    ∀ (es : List (String × Document)) {r r' : Reader}, Pulls (Document.entriesRequests es) r r' →
    0 < r.depth → ∀ n, r.left < n →
      ∃ r₁, whileNext n (do let _ ← nextName; skipWith (maxDepth + 1)) r = .ok ⟨⟩ r₁ ∧ endObject r₁ = .ok ⟨⟩ r'
  | [], r, r', h, _, n, hn => by
    obtain ⟨_, r₁, hclose, h⟩ := bind_eq_ok.1 (pulls_one.1 h)
    obtain ⟨-, rfl⟩ := ok_inj.1 h
    obtain ⟨p, hpeek⟩ := (endObject_ok hclose).peek_eq
    obtain ⟨n, rfl⟩ := Nat.exists_eq_succ_of_ne_zero (Nat.ne_zero_of_lt hn)
    exact ⟨p, whileNext_of_ends n _ hpeek (.inl rfl), (looksFirst_endObject.after_peek hpeek).trans hclose⟩
  | (name, j) :: es, r, r', h, hr, n, hn => by
    obtain ⟨r₁, hrun, hrest⟩ := pulls_cons.1 h
    obtain ⟨_, r₁, hname, hrun⟩ := bind_eq_ok.1 hrun
    obtain ⟨-, rfl⟩ := ok_inj.1 hrun
    obtain ⟨r₂, hvalue, hrest⟩ := pulls_append.1 hrest
    have hskip := skipValue_of_pulls j hvalue
    obtain ⟨hdepth₁, hleft₁, -⟩ := nextName_ok hname
    obtain ⟨hdepth, hleft, -⟩ := skipValue_consumes hskip
    obtain ⟨n, rfl⟩ := Nat.exists_eq_succ_of_ne_zero (Nat.ne_zero_of_lt hn)
    obtain ⟨r₃, hloop, hclose⟩ := skipEntries_of_pulls es hrest (by omega) n (by omega)
    exact ⟨r₃, (whileNext_skipEntry n hr hname hskip).trans hloop, hclose⟩

end

/-! ### Documents -/

/-- A text is skipped as a whole, and nothing is left behind it, exactly if it spells a document that does not nest
too deep.  What is taken beside the standard spellings is what the dialect `loose` allows. -/
theorem skipped_iff (text : List Char) :
    (∃ r r', skipValue (ofText text) = .ok ⟨⟩ r ∧ peek r = .ok .endDocument r') ↔
      ∃ j, j.depth ≤ maxDepth ∧ Dialect.loose.SpellsDocument j text := by
  constructor
  · rintro ⟨r, r', hskip, hend⟩
    exact spells_of_skipValue hskip hend
  · rintro ⟨j, hdepth, h⟩
    obtain ⟨r, r', hpulls, hend⟩ := pulls_of_spellsDocument h hdepth
    exact ⟨r, r', skipValue_of_pulls j hpulls, hend⟩

/-- A number with a point and no digits behind it. -/
def pointedText : List Char := ['1', '.', 'e', '5']

private theorem pointedText_spelled : loose.SpellsDocument (.number "1.e5") pointedText := by
  have hpointed : IsPointed "1.e5".toList :=
    @IsPointed.mk [] ['1'] ['e', '5'] (.inl rfl) (.digits rfl (by decide)) (.unsigned (.inl rfl) rfl)
      (List.cons_ne_nil _ _)
  exact .mk (b := []) (by simp [Dialect.Blank]) (.number (.pointed rfl hpointed)) (by simp [Dialect.Blank])

private theorem not_isNumber_pointedText : ¬IsNumber pointedText := by
  intro h
  generalize hs : pointedText = s at h
  cases h with
  | minus => cases hs
  | plain h =>
    obtain ⟨hw, hf, he⟩ := h
    next whole fraction exponent =>
    -- the digits in front are `1`, and behind the point there is no digit
    obtain ⟨hne, hdigits⟩ := isDigits_iff.1 hw.isDigits
    obtain ⟨c, whole, rfl⟩ := List.exists_cons_of_ne_nil hne
    obtain ⟨-, hs⟩ := List.cons.inj hs
    cases whole with
    | cons d whole =>
      obtain ⟨rfl, -⟩ := List.cons.inj hs
      cases hdigits '.' (by simp)
    | nil =>
      cases hf with
      | none =>
        cases he with
        | none => cases hs
        | unsigned hl | signed hl =>
          obtain ⟨rfl, -⟩ := List.cons.inj hs
          exact absurd hl (by decide)
      | digits ht =>
        next t =>
        obtain ⟨hne, hdigits⟩ := isDigits_iff.1 ht
        obtain ⟨c, t, rfl⟩ := List.exists_cons_of_ne_nil hne
        obtain ⟨rfl, -⟩ := List.cons.inj (List.cons.inj hs).2
        cases hdigits 'e' (by simp)

private theorem not_standard_pointedText (j : Document) : ¬Dialect.standard.SpellsDocument j pointedText := by
  have hblank : ∀ c ∈ pointedText, (!Dialect.standard.isBlank c) = true := List.all_eq_true.1 rfl
  have hnil {b : List Char} (hb : Dialect.standard.Blank b) (hmem : ∀ c ∈ b, c ∈ pointedText) : b = [] := by
    refine List.eq_nil_iff_forall_not_mem.2 fun c hc => ?_
    rw [Dialect.Blank] at hb
    have hnot := hblank c (hmem c hc)
    rw [hb c hc] at hnot
    cases hnot
  intro h
  generalize htext : pointedText = text at h
  obtain ⟨hb, hj, hb'⟩ := h
  obtain rfl := hnil hb (by rw [htext]; simp +contextual)
  obtain rfl := hnil hb' (by rw [htext]; simp +contextual)
  rw [List.nil_append, List.append_nil] at htext
  cases hj with
  | number h =>
    rw [← htext] at h
    cases h with
    | number h => exact not_isNumber_pointedText h
    | pointed hd => cases hd
  | _ => cases htext

/-- The reader takes texts that are no standard documents. -/
theorem not_forall_skipped_standard : ¬∀ text : List Char,
    (∃ r r', skipValue (ofText text) = .ok ⟨⟩ r ∧ peek r = .ok .endDocument r') →
      ∃ j, Dialect.standard.SpellsDocument j text := by
  intro h
  obtain ⟨r, r', hpulls, hend⟩ := pulls_of_spellsDocument pointedText_spelled (Nat.zero_le _)
  obtain ⟨j, hj⟩ := h pointedText ⟨r, r', skipValue_of_pulls _ hpulls, hend⟩
  exact not_standard_pointedText j hj

end Marshal.Reader
