import Marshal.Stream.Reader
import Marshal.Proofs.Effect

/-!
# Calls of a reader

What a successful call does to a reader: how many containers are open afterwards, whether characters were used up, and
whether the next token has been looked at.  A leaf and a name use up characters (`Consumes`); brackets change the
depth by one (`Opens`, `Closes`).  A `Request` is a call as a value, for what is said of calls in a row.
-/

namespace Marshal.Reader

open Effect
open Text (unquote)

/-! ### Measures of a reader -/

/-- The number of open containers. -/
def depth (r : Reader) : Nat := r.scopes.length

/-- The number of characters that are left. -/
def left (r : Reader) : Nat := r.cursor.rest.length

/-- A token or a whole value was read: characters were used up, no container was opened or closed for good, and the
next token has not been looked at. -/
structure Consumes (r r' : Reader) : Prop where
  depth_eq : r'.depth = r.depth
  left_lt : r'.left < r.left
  peeked_eq : r'.peeked = none

private theorem depth_setScope (scope : ReadScope) (r : Reader) : (r.setScope scope).depth = r.depth := by
  unfold setScope depth
  split <;> simp_all

private theorem left_setScope (scope : ReadScope) (r : Reader) : (r.setScope scope).left = r.left := by
  unfold setScope left
  split <;> rfl

private theorem left_advance_le (n : Nat) (r : Reader) : (r.advance n).left ≤ r.left := by
  simp [left, advance, Text.Cursor.advance]

private theorem left_skipBlanks_le (r : Reader) : r.skipBlanks.left ≤ r.left := left_advance_le _ r

/-! ### Looking at the next token -/

theorem valueKind_ok {r r' : Reader} {k : TokenKind} (h : valueKind r = .ok k r') :
    r' = r ∧ k.startsValue = true ∧ 0 < r.left := by
  unfold valueKind at h
  rw [bind_of_ok (get_apply r)] at h
  unfold left
  cases hs : r.cursor.rest with
  | nil =>
    rw [hs] at h
    cases h
  | cons c s =>
    rw [hs] at h
    dsimp only at h
    repeat' split at h
    all_goals first
      | (obtain ⟨rfl, rfl⟩ := ok_inj.1 h; exact ⟨rfl, rfl, by simp⟩)
      | cases h

private theorem left_pos_of_head? {r : Reader} {c : Char} (h : r.cursor.rest.head? = some c) : 0 < r.left := by
  unfold left
  cases hs : r.cursor.rest with
  | nil => simp [hs] at h
  | cons => simp

theorem nameKind_apply (r : Reader) :
    nameKind r = if r.cursor.rest.head? = some '"' then .ok .name r
      else .error (.malformed .expectedName r.offset) r := by
  unfold nameKind
  rw [bind_of_ok (get_apply r)]
  cases hs : r.cursor.rest with
  | nil => rfl
  | cons c s =>
    by_cases hc : c = '"'
    · subst hc
      rfl
    · rw [if_neg (by simpa using hc)]
      refine congrFun (g := (fail .expectedName : ReadM TokenKind)) ?_ r
      split
      · next h => exact absurd (List.cons.inj h).1 hc
      · rfl

private theorem nameKind_ok {r r' : Reader} {k : TokenKind} (h : nameKind r = .ok k r') :
    r' = r ∧ k = .name ∧ 0 < r.left := by
  rw [nameKind_apply] at h
  split at h
  · next hc =>
    obtain ⟨rfl, rfl⟩ := ok_inj.1 h
    exact ⟨rfl, rfl, left_pos_of_head? hc⟩
  · cases h

/-- How the next token is worked out where no blank is in front of it: by a closing bracket or the end of the text, as
a value or as a name, past a comma or a colon if the scope has one there. -/
inductive Asks (r : Reader) : ReadM TokenKind → Reader → Prop
  | endDocument (hs : r.scopes = []) (hstarted : r.started = true) (hr : r.cursor.rest = []) :
      Asks r (pure .endDocument) r
  | trailing (hs : r.scopes = []) (hstarted : r.started = true) (hr : r.cursor.rest ≠ []) :
      Asks r (fail .trailingCharacters) r
  | document (hs : r.scopes = []) (hstarted : r.started = false) : Asks r valueKind { r with started := true }
  | endArray {scope : ReadScope} {outer : List ReadScope} (hs : r.scopes = scope :: outer)
    (hscope : scope = .emptyArray ∨ scope = .nonEmptyArray) (hr : r.cursor.rest.head? = some ']') :
    Asks r (pure .endArray) r
  | firstItem {outer : List ReadScope} (hs : r.scopes = .emptyArray :: outer)
    (hend : r.cursor.rest.head? ≠ some ']') :
    Asks r valueKind (r.setScope .nonEmptyArray)
  | nextItem {outer : List ReadScope} (hs : r.scopes = .nonEmptyArray :: outer)
    (hr : r.cursor.rest.head? = some ',') :
    Asks r valueKind (r.advance 1).skipBlanks
  | noItem {outer : List ReadScope} (hs : r.scopes = .nonEmptyArray :: outer) (hend : r.cursor.rest.head? ≠ some ']')
    (hr : r.cursor.rest.head? ≠ some ',') : Asks r (fail .expectedCommaOrBracket) r
  | endObject {scope : ReadScope} {outer : List ReadScope} (hs : r.scopes = scope :: outer)
    (hscope : scope = .emptyObject ∨ scope = .nonEmptyObject) (hr : r.cursor.rest.head? = some '\x7d') :
    Asks r (pure .endObject) r
  | firstName {outer : List ReadScope} (hs : r.scopes = .emptyObject :: outer)
    (hend : r.cursor.rest.head? ≠ some '\x7d') :
    Asks r nameKind r
  | nextName {outer : List ReadScope} (hs : r.scopes = .nonEmptyObject :: outer)
    (hr : r.cursor.rest.head? = some ',') :
    Asks r nameKind (r.advance 1).skipBlanks
  | noName {outer : List ReadScope} (hs : r.scopes = .nonEmptyObject :: outer)
    (hend : r.cursor.rest.head? ≠ some '\x7d')
    (hr : r.cursor.rest.head? ≠ some ',') : Asks r (fail .expectedCommaOrBrace) r
  | entryValue {outer : List ReadScope} (hs : r.scopes = .danglingName :: outer)
    (hr : r.cursor.rest.head? = some ':') :
    Asks r valueKind ((r.advance 1).skipBlanks.setScope .nonEmptyObject)
  | noColon {outer : List ReadScope} (hs : r.scopes = .danglingName :: outer) (hr : r.cursor.rest.head? ≠ some ':') :
    Asks r (fail .expectedColon) r

theorem exists_asks (r : Reader) : ∃ m r', Asks r m r' := by
  rcases hs : r.scopes with _ | ⟨scope, outer⟩
  · cases hstarted : r.started with
    | false => exact ⟨_, _, .document hs hstarted⟩
    | true =>
      by_cases hr : r.cursor.rest = []
      · exact ⟨_, _, .endDocument hs hstarted hr⟩
      · exact ⟨_, _, .trailing hs hstarted hr⟩
  · cases scope with
    | emptyArray =>
      by_cases hend : r.cursor.rest.head? = some ']'
      · exact ⟨_, _, .endArray hs (.inl rfl) hend⟩
      · exact ⟨_, _, .firstItem hs hend⟩
    | nonEmptyArray =>
      by_cases hend : r.cursor.rest.head? = some ']'
      · exact ⟨_, _, .endArray hs (.inr rfl) hend⟩
      · by_cases hr : r.cursor.rest.head? = some ','
        · exact ⟨_, _, .nextItem hs hr⟩
        · exact ⟨_, _, .noItem hs hend hr⟩
    | emptyObject =>
      by_cases hend : r.cursor.rest.head? = some '\x7d'
      · exact ⟨_, _, .endObject hs (.inl rfl) hend⟩
      · exact ⟨_, _, .firstName hs hend⟩
    | nonEmptyObject =>
      by_cases hend : r.cursor.rest.head? = some '\x7d'
      · exact ⟨_, _, .endObject hs (.inr rfl) hend⟩
      · by_cases hr : r.cursor.rest.head? = some ','
        · exact ⟨_, _, .nextName hs hr⟩
        · exact ⟨_, _, .noName hs hend hr⟩
    | danglingName =>
      by_cases hr : r.cursor.rest.head? = some ':'
      · exact ⟨_, _, .entryValue hs hr⟩
      · exact ⟨_, _, .noColon hs hr⟩

theorem scan_of_asks {r r' : Reader} {m : ReadM TokenKind} (h : Asks r.skipBlanks m r') : scan r = m r' := by
  unfold scan
  rw [bind_of_ok (modify_apply _ r), bind_of_ok (get_apply _)]
  cases h with
  | endDocument hs hstarted hr => simp [hs, hstarted, hr]
  | trailing hs hstarted hr => simp [hs, hstarted, hr]
  | document hs hstarted =>
    simp only [hs, hstarted, Bool.false_eq_true, if_false]
    exact bind_of_ok (set_apply _ _)
  | endArray hs hscope hr | endObject hs hscope hr => rcases hscope with rfl | rfl <;> simp [hs, hr]
  | firstItem hs hend =>
    simp only [hs, hend, if_false]
    exact bind_of_ok (set_apply _ _)
  | firstName hs hend => simp [hs, hend]
  | nextItem hs hr | nextName hs hr =>
    simp only [hs, hr, Option.some.injEq, Char.reduceEq, if_false, if_true]
    exact bind_of_ok (set_apply _ _)
  | noItem hs hend hr | noName hs hend hr => simp [hs, hend, hr]
  | entryValue hs hr =>
    simp only [hs, hr, if_true]
    exact bind_of_ok (set_apply _ _)
  | noColon hs hr => simp [hs, hr]

/-- What working out the next token does: it passes blanks, and a comma or a colon. -/
private theorem scan_ok {r r' : Reader} {k : TokenKind} (h : scan r = .ok k r') :
    r'.depth = r.depth ∧ r'.left ≤ r.left ∧ (0 < r.depth → 0 < r'.left) := by
  have hdepth : r.skipBlanks.depth = r.depth := rfl
  have hleft := left_skipBlanks_le r
  have hcomma := left_skipBlanks_le (r.skipBlanks.advance 1)
  have hcomma' := left_advance_le 1 r.skipBlanks
  have houtside (hs : r.skipBlanks.scopes = []) : r.depth = 0 := by rw [← hdepth, depth, hs, List.length_nil]
  obtain ⟨m, r₁, hasks⟩ := exists_asks r.skipBlanks
  rw [scan_of_asks hasks] at h
  cases hasks with
  | trailing | noItem | noName | noColon => cases h
  | endDocument hs =>
    obtain ⟨-, rfl⟩ := ok_inj.1 h
    have hzero := houtside hs
    exact ⟨hdepth, hleft, by omega⟩
  | document hs =>
    obtain ⟨rfl, -, -⟩ := valueKind_ok h
    have hzero := houtside hs
    exact ⟨hdepth, hleft, by omega⟩
  | endArray _ _ hr | endObject _ _ hr =>
    obtain ⟨-, rfl⟩ := ok_inj.1 h
    exact ⟨hdepth, hleft, fun _ => left_pos_of_head? hr⟩
  | firstItem =>
    obtain ⟨rfl, -, hpos⟩ := valueKind_ok h
    exact ⟨depth_setScope _ _, by rwa [left_setScope], fun _ => hpos⟩
  | nextItem =>
    obtain ⟨rfl, -, hpos⟩ := valueKind_ok h
    exact ⟨hdepth, by omega, fun _ => hpos⟩
  | firstName =>
    obtain ⟨rfl, -, hpos⟩ := nameKind_ok h
    exact ⟨hdepth, hleft, fun _ => hpos⟩
  | nextName =>
    obtain ⟨rfl, -, hpos⟩ := nameKind_ok h
    exact ⟨hdepth, by omega, fun _ => hpos⟩
  | entryValue =>
    obtain ⟨rfl, -, hpos⟩ := valueKind_ok h
    exact ⟨depth_setScope _ _, by rw [left_setScope]; omega, fun _ => hpos⟩

theorem peek_of_peeked {r : Reader} {k : TokenKind} (h : r.peeked = some k) : peek r = .ok k r := by
  unfold peek
  rw [bind_of_ok (get_apply r)]
  simp only [h]
  rfl

/-- The kind of the next token is remembered once it is known. -/
theorem peek_ok {r r' : Reader} {k : TokenKind} (h : peek r = .ok k r') :
    r'.peeked = some k ∧ r'.depth = r.depth ∧ r'.left ≤ r.left ∧
      (r.peeked = none → 0 < r.depth → 0 < r'.left) := by
  unfold peek at h
  rw [bind_of_ok (get_apply r)] at h
  cases hp : r.peeked with
  | some kind =>
    simp only [hp] at h
    obtain ⟨rfl, rfl⟩ := ok_inj.1 h
    exact ⟨hp, rfl, Nat.le_refl _, by simp⟩
  | none =>
    simp only [hp] at h
    obtain ⟨kind, r₁, hscan, h⟩ := bind_eq_ok.1 h
    rw [bind_of_ok (modify_apply _ _)] at h
    obtain ⟨rfl, rfl⟩ := ok_inj.1 h
    obtain ⟨hd, hl, hpos⟩ := scan_ok hscan
    exact ⟨rfl, hd, hl, fun _ => hpos⟩

theorem peek_idem {r r' : Reader} {k : TokenKind} (h : peek r = .ok k r') : peek r' = .ok k r' :=
  peek_of_peeked (peek_ok h).1

theorem hasNext_of_peek {r r' : Reader} {k : TokenKind} (h : peek r = .ok k r') :
    hasNext r = .ok (!(k == .endObject || k == .endArray || k == .endDocument)) r' := by
  unfold hasNext
  rw [bind_of_ok h]
  cases k <;> rfl

theorem hasNext_ok {r r' : Reader} {b : Bool} (h : hasNext r = .ok b r') :
    ∃ k, peek r = .ok k r' ∧ b = !(k == .endObject || k == .endArray || k == .endDocument) := by
  obtain ⟨k, r₁, hk, -⟩ := bind_eq_ok.1 h
  rw [hasNext_of_peek hk] at h
  obtain ⟨rfl, rfl⟩ := ok_inj.1 h
  exact ⟨k, hk, rfl⟩

theorem expect_ok {k : TokenKind} {r r' : Reader} {u : Unit} (h : expect k r = .ok u r') :
    ∃ r₁, peek r = .ok k r₁ ∧ r' = { r₁ with peeked := none } := by
  obtain ⟨found, r₁, hk, hrest⟩ := bind_eq_ok.1 h
  split at hrest
  · next hf => exact ⟨r₁, hf ▸ hk, (ok_inj.1 hrest).2.symm⟩
  · cases hrest

theorem expect_of_peek {k : TokenKind} {r r' : Reader} (h : peek r = .ok k r') :
    expect k r = .ok ⟨⟩ { r' with peeked := none } := by
  unfold expect
  rw [bind_of_ok h, if_pos rfl]
  rfl

/-! ### Containers -/

theorem enter_ok {scope : ReadScope} {r r' : Reader} {u : Unit} (h : enter scope r = .ok u r') :
    r.depth < maxDepth ∧ r' = { r.advance 1 with scopes := scope :: r.scopes } := by
  unfold enter at h
  rw [bind_of_ok (get_apply r)] at h
  split at h
  · next hd => exact ⟨hd, (ok_inj.1 h).2.symm⟩
  · cases h

/-- What opening a container does. -/
structure Opens (kind : TokenKind) (r r' : Reader) : Prop where
  peek_eq : ∃ r₁, peek r = .ok kind r₁
  depth_lt : r.depth < maxDepth
  depth_eq : r'.depth = r.depth + 1
  left_le : r'.left ≤ r.left
  peeked_eq : r'.peeked = none

private theorem opens_of_enter {kind : TokenKind} {scope : ReadScope} {r r' : Reader} {u : Unit}
    (h : (do expect kind; enter scope) r = .ok u r') : Opens kind r r' := by
  obtain ⟨_, r₁, hexpect, henter⟩ := bind_eq_ok.1 h
  obtain ⟨r₂, hpeek, rfl⟩ := expect_ok hexpect
  obtain ⟨-, hdepth, hleft, -⟩ := peek_ok hpeek
  obtain ⟨hlt, rfl⟩ := enter_ok henter
  refine ⟨⟨r₂, hpeek⟩, ?_, ?_, ?_, rfl⟩
  · rw [← hdepth]
    exact hlt
  · rw [← hdepth]
    rfl
  · exact Nat.le_trans (left_advance_le 1 { r₂ with peeked := none }) hleft

theorem beginObject_ok {r r' : Reader} {u : Unit} (h : beginObject r = .ok u r') : Opens .beginObject r r' :=
  opens_of_enter h

theorem beginArray_ok {r r' : Reader} {u : Unit} (h : beginArray r = .ok u r') : Opens .beginArray r r' :=
  opens_of_enter h

/-- What closing a container does. -/
structure Closes (kind : TokenKind) (r r' : Reader) : Prop where
  peek_eq : ∃ r₁, peek r = .ok kind r₁
  depth_eq : r'.depth = r.depth - 1
  left_le : r'.left ≤ r.left - 1
  peeked_eq : r'.peeked = none

private theorem closes_of_leave {kind : TokenKind} {r r' : Reader} {u : Unit}
    (h : (do expect kind; leave) r = .ok u r') : Closes kind r r' := by
  obtain ⟨_, r₁, hexpect, hleave⟩ := bind_eq_ok.1 h
  obtain ⟨r₂, hpeek, rfl⟩ := expect_ok hexpect
  obtain ⟨-, hdepth, hleft, -⟩ := peek_ok hpeek
  obtain ⟨-, rfl⟩ := ok_inj.1 hleave
  refine ⟨⟨r₂, hpeek⟩, ?_, ?_, rfl⟩
  · rw [← hdepth]
    simp [depth]
  · unfold left at *
    simp only [advance, Text.Cursor.advance, List.length_drop]
    omega

theorem endObject_ok {r r' : Reader} {u : Unit} (h : endObject r = .ok u r') : Closes .endObject r r' :=
  closes_of_leave h

theorem endArray_ok {r r' : Reader} {u : Unit} (h : endArray r = .ok u r') : Closes .endArray r r' :=
  closes_of_leave h

/-! ### Leaves -/

private theorem cons_eq_ok {ch : Char} {u : Text.Unquoted} {t : List Char} {c : Text.Cursor}
    (h : Text.Unquoted.cons ch u = (.ok t, c)) : ∃ t', u = (.ok t', c) := by
  obtain ⟨result, cursor⟩ := u
  obtain ⟨hresult, rfl⟩ := Prod.mk.inj h
  cases result with
  | error => simp [Except.map] at hresult
  | ok t' => exact ⟨t', rfl⟩

private theorem unquote_ok {chunk c : Text.Cursor} {s t : List Char} {o : Nat} (h : unquote chunk s o = (.ok t, c)) :
    c.rest.length < s.length := by
  fun_induction unquote chunk s o generalizing t
  case case2 =>
    obtain ⟨-, rfl⟩ := Prod.mk.inj h
    simp
  case case6 ih | case11 ih | case13 ih | case15 ih =>
    obtain ⟨t', ht'⟩ := cons_eq_ok h
    have := ih ht'
    simp only [List.length_cons]
    omega
  all_goals simp at h

/-- A quoted text is read as `unquote` reads it, from behind its quote on. -/
theorem readQuoted_apply (s : List Char) (o : Nat) (started : Bool) (scopes : List ReadScope) (p : Option TokenKind) :
    readQuoted ⟨⟨'"' :: s, o⟩, started, scopes, p⟩ =
      match unquote ⟨s, o + 1⟩ s (o + 1) with
      | (.ok t, cursor) => .ok (String.ofList t) ⟨cursor, started, scopes, p⟩
      | (.error fault, cursor) => .error (.malformed fault cursor.offset) ⟨cursor, started, scopes, p⟩ := by
  have hstart : Text.Cursor.advance ⟨'"' :: s, o⟩ 1 = ⟨s, o + 1⟩ := rfl
  unfold readQuoted
  rw [bind_of_ok (get_apply _)]
  simp only [hstart]
  obtain ⟨_ | _, cursor⟩ := unquote ⟨s, o + 1⟩ s (o + 1) <;> rfl

theorem readQuoted_ok {r r' : Reader} {s : String} (h : readQuoted r = .ok s r') :
    r'.depth = r.depth ∧ r'.left < r.left ∧ r'.peeked = r.peeked := by
  unfold readQuoted at h
  rw [bind_of_ok (get_apply r)] at h
  cases hu : unquote (r.cursor.advance 1) (r.cursor.advance 1).rest (r.cursor.advance 1).offset with
  | mk result cursor =>
    simp only [hu] at h
    rw [bind_of_ok (set_apply _ _)] at h
    cases result with
    | error fault => cases h
    | ok t =>
      obtain ⟨-, rfl⟩ := ok_inj.1 h
      have hlt := unquote_ok hu
      have hle := left_advance_le 1 r
      refine ⟨rfl, ?_, rfl⟩
      simp only [left, advance] at hle ⊢
      omega

private theorem readNumber_ok {r r' : Reader} {s : String} (h : readNumber r = .ok s r') :
    r'.depth = r.depth ∧ r'.left < r.left ∧ r'.peeked = r.peeked := by
  unfold readNumber at h
  rw [bind_of_ok (get_apply r)] at h
  split at h
  · next hlex =>
    rw [bind_of_ok (set_apply _ _)] at h
    obtain ⟨-, rfl⟩ := ok_inj.1 h
    have hne : r.cursor.rest.takeWhile isNumberChar ≠ [] := by
      intro hnil
      rw [hnil] at hlex
      simp [isLexeme] at hlex
    have hpos := List.length_pos_iff.2 hne
    have hle := (List.takeWhile_prefix (p := isNumberChar) (l := r.cursor.rest)).length_le
    refine ⟨rfl, ?_, rfl⟩
    simp only [left, advance, Text.Cursor.advance, List.length_drop]
    omega
  · cases h

private theorem readLiteral_ok {literal : List Char} {r r' : Reader} {u : Unit} (hne : literal ≠ [])
    (h : readLiteral literal r = .ok u r') : r'.depth = r.depth ∧ r'.left < r.left ∧ r'.peeked = r.peeked := by
  unfold readLiteral at h
  rw [bind_of_ok (get_apply r)] at h
  split at h
  · next hpre =>
    obtain ⟨-, rfl⟩ := ok_inj.1 h
    have hpos := List.length_pos_iff.2 hne
    have hle := (List.isPrefixOf_iff_prefix.1 hpre).length_le
    refine ⟨rfl, ?_, rfl⟩
    simp only [left, advance, Text.Cursor.advance, List.length_drop]
    omega
  · cases h

/-- A token read after a look at the next token. -/
private theorem consumes_of_take {k : TokenKind} {r r₁ r' : Reader} (hpeek : peek r = .ok k r₁)
    (h : r'.depth = r₁.depth ∧ r'.left < r₁.left ∧ r'.peeked = none) : Consumes r r' := by
  obtain ⟨-, hdepth, hleft, -⟩ := peek_ok hpeek
  exact ⟨by omega, by omega, h.2.2⟩

theorem nextName_ok {r r' : Reader} {s : String} (h : nextName r = .ok s r') : Consumes r r' := by
  obtain ⟨_, r₁, hexpect, h⟩ := bind_eq_ok.1 h
  obtain ⟨name, r₂, hquoted, h⟩ := bind_eq_ok.1 h
  rw [bind_of_ok (modify_apply _ _)] at h
  obtain ⟨-, rfl⟩ := ok_inj.1 h
  obtain ⟨r₀, hpeek, rfl⟩ := expect_ok hexpect
  obtain ⟨hd, hl, hp⟩ := readQuoted_ok hquoted
  refine consumes_of_take hpeek ⟨?_, ?_, ?_⟩
  · rw [depth_setScope, hd]
    rfl
  · rw [left_setScope]
    exact hl
  · unfold setScope
    split <;> exact hp

/-- Strings and numbers are read alike where a string or a number is asked for. -/
theorem nextNumber_eq_nextString {r : Reader} {s : String} {r' : Reader} (h : nextNumber r = .ok s r') :
    nextString r = .ok s r' := by
  obtain ⟨k, r₁, hpeek, h⟩ := bind_eq_ok.1 h
  unfold nextString
  rw [bind_of_ok hpeek]
  cases k <;> first
    | exact h
    | cases h

theorem nextString_ok {r r' : Reader} {s : String} (h : nextString r = .ok s r') :
    Consumes r r' ∧ ∃ k r₁, peek r = .ok k r₁ ∧ (k = .string ∨ k = .number) := by
  obtain ⟨k, r₁, hpeek, h⟩ := bind_eq_ok.1 h
  cases k
  case string =>
    obtain ⟨_, r₂, htake, h⟩ := bind_eq_ok.1 h
    obtain ⟨-, rfl⟩ := ok_inj.1 htake
    obtain ⟨hd, hl, hp⟩ := readQuoted_ok h
    exact ⟨consumes_of_take hpeek ⟨hd, hl, hp⟩, .string, r₁, hpeek, .inl rfl⟩
  case number =>
    obtain ⟨_, r₂, htake, h⟩ := bind_eq_ok.1 h
    obtain ⟨-, rfl⟩ := ok_inj.1 htake
    obtain ⟨hd, hl, hp⟩ := readNumber_ok h
    exact ⟨consumes_of_take hpeek ⟨hd, hl, hp⟩, .number, r₁, hpeek, .inr rfl⟩
  all_goals cases h

theorem nextBool_ok {r r' : Reader} {b : Bool} (h : nextBool r = .ok b r') :
    Consumes r r' ∧ ∃ r₁, peek r = .ok .boolean r₁ := by
  obtain ⟨_, r₁, hexpect, h⟩ := bind_eq_ok.1 h
  obtain ⟨r₀, hpeek, rfl⟩ := expect_ok hexpect
  rw [bind_of_ok (get_apply _)] at h
  refine ⟨?_, r₀, hpeek⟩
  split at h
  all_goals
    obtain ⟨_, r₂, hlit, h⟩ := bind_eq_ok.1 h
    obtain ⟨-, rfl⟩ := ok_inj.1 h
    obtain ⟨hd, hl, hp⟩ := readLiteral_ok (by simp) hlit
    exact consumes_of_take hpeek ⟨hd, hl, hp⟩

theorem nextNull_ok {r r' : Reader} {u : Unit} (h : nextNull r = .ok u r') :
    Consumes r r' ∧ ∃ r₁, peek r = .ok .null r₁ := by
  obtain ⟨_, r₁, hexpect, h⟩ := bind_eq_ok.1 h
  obtain ⟨r₀, hpeek, rfl⟩ := expect_ok hexpect
  obtain ⟨hd, hl, hp⟩ := readLiteral_ok (by simp) h
  exact ⟨consumes_of_take hpeek ⟨hd, hl, hp⟩, r₀, hpeek⟩

/-! ### Calls in a row -/

/-- A call of a reader. -/
inductive Request where
  | peek
  | hasNext
  | beginObject
  | endObject
  | beginArray
  | endArray
  | name
  | string
  | number
  | bool
  | null
  | int
  | float
  | skip
deriving Repr, DecidableEq

/-- What a call hands over. -/
inductive Answer where
  | done
  | kind (k : TokenKind)
  | flag (b : Bool)
  | text (s : String)
  | int (n : Int64)
  | float (x : Binary64)
deriving Repr, DecidableEq

def Request.run : Request → ReadM Answer
  | peek => do return .kind (← Reader.peek)
  | hasNext => do return .flag (← Reader.hasNext)
  | beginObject => do Reader.beginObject; return .done
  | endObject => do Reader.endObject; return .done
  | beginArray => do Reader.beginArray; return .done
  | endArray => do Reader.endArray; return .done
  | name => do return .text (← nextName)
  | string => do return .text (← nextString)
  | number => do return .text (← nextNumber)
  | bool => do return .flag (← nextBool)
  | null => do nextNull; return .done
  | int => do return .int (← nextInt)
  | float => do return .float (← nextFloat)
  | skip => do skipValue; return .done

end Marshal.Reader
