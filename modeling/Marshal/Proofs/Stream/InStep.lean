import Marshal.Proofs.Stream.ByteReader
import Marshal.Proofs.Stream.Looking
import Marshal.Proofs.Stream.Skip

/-!
# In step with the machine

`Reader.view` is the machine over bytes that stands where a reader stands, and `Reader.Sound` is what every call
keeps, also one that fails.  A call is in step with the machine (`Agrees`) if both give the same result, or fail
alike, and the reader is still sound.  The look at the next token is in step (`peek_agrees`).
-/

namespace Marshal

open Effect
open Text (Cursor bytes Stands Fronts)

def ByteScope.ofRead : ReadScope → ByteScope
  | .emptyArray => .emptyArray
  | .nonEmptyArray => .nonEmptyArray
  | .emptyObject => .emptyObject
  | .danglingName => .danglingName
  | .nonEmptyObject => .nonEmptyObject

namespace Reader

/-! ### The machine of a reader -/

/-- The scope of the document. -/
def document (r : Reader) : ByteScope := if r.started then .nonEmptyDocument else .emptyDocument

/-- The scope on top. -/
def top (r : Reader) : ByteScope :=
  match r.scopes with
  | [] => r.document
  | scope :: _ => .ofRead scope

/-- The machine that stands where the reader stands in a text. -/
def view (text : List Char) (r : Reader) : ByteReader :=
  ⟨text, r.offset, r.scopes.map ByteScope.ofRead ++ [r.document], r.peeked⟩

/-- Whether a token of a kind begins with what is in front. -/
def Fits : TokenKind → Option Char → Prop
  | .endDocument, front => front = none
  | .name, front => front = some '"'
  | .endArray, front => front = some ']'
  | .endObject, front => front = some '\x7d'
  | k, front => ∃ c, front = some c ∧ kindOf? c = some k

/-- What every call keeps: a token that has been looked at is in front and is allowed. -/
structure Sound (text : List Char) (r : Reader) : Prop where
  stands : Stands text r.cursor
  depth_le : r.depth ≤ maxDepth
  fits : ∀ k, r.peeked = some k → Fits k r.cursor.rest.head?
  allowed : ∀ k, r.peeked = some k → r.top.allows k = true

/-- A run of a call and a run of the machine: both give the same result, or fail alike. -/
inductive Agrees {α : Type} (text : List Char) :
    EStateM.Result Error Reader α → EStateM.Result Failure ByteReader α → Prop
  | ok {a : α} {r : Reader} (h : Sound text r) : Agrees text (.ok a r) (.ok a (view text r))
  | error {e : Error} {r : Reader} (h : Sound text r) (he : e ≠ .outOfFuel) :
    Agrees text (.error e r) (.error (.fault e) (view text r))

variable {text : List Char} {r r' : Reader} {α β : Type}

theorem Sound.of_none (hstands : Stands text r.cursor) (hdepth : r.depth ≤ maxDepth) (hp : r.peeked = none) :
    Sound text r :=
  ⟨hstands, hdepth, by simp [hp], by simp [hp]⟩

theorem Agrees.bind {m : ReadM α} {f : α → ReadM β} {m' : ByteM α} {f' : α → ByteM β} {b : ByteReader}
    (h : Agrees text (m r) (m' b))
    (hf : ∀ a r', m r = .ok a r' → Sound text r' → Agrees text (f a r') (f' a (view text r'))) :
    Agrees text ((m >>= f) r) ((m' >>= f') b) := by
  generalize hx : m r = x at h
  generalize hy : m' b = y at h
  cases h with
  | ok h =>
    rw [bind_of_ok hx, bind_of_ok hy]
    exact hf _ _ hx h
  | error h he =>
    rw [bind_of_error hx, bind_of_error hy]
    exact .error h he

theorem Agrees.pure (h : Sound text r) (a : α) :
    Agrees text ((pure a : ReadM α) r) ((pure a : ByteM α) (view text r)) := .ok h

theorem agrees_fail (h : Sound text r) (fault : SyntaxFault) :
    Agrees text ((fail fault : ReadM α) r) ((ByteReader.fail fault : ByteM α) (view text r)) :=
  .error h (by simp)

theorem agrees_unexpected (h : Sound text r) (expected : String) (found : TokenKind) :
    Agrees text ((unexpected expected found : ReadM α) r)
      ((ByteReader.unexpected expected found : ByteM α) (view text r)) :=
  .error h (by simp)

/-! ### The scope on top -/

private theorem top_view (r : Reader) : ByteReader.top (view text r) = .ok r.top (view text r) := by
  obtain ⟨cursor, started, scopes, peeked⟩ := r
  cases scopes <;> rfl

private theorem setTop_document (hr : r.scopes = []) :
    ByteReader.setTop .nonEmptyDocument (view text r) = .ok ⟨⟩ (view text ⟨r.cursor, true, [], r.peeked⟩) := by
  obtain ⟨cursor, started, scopes, peeked⟩ := r
  obtain rfl : scopes = [] := hr
  rfl

theorem setTop_scope {scope : ReadScope} {outer : List ReadScope} (hr : r.scopes = scope :: outer)
    (scope' : ReadScope) {t : ByteScope} (ht : t = .ofRead scope') :
    ByteReader.setTop t (view text r) = .ok ⟨⟩ (view text (r.setScope scope')) := by
  subst ht
  obtain ⟨cursor, started, scopes, peeked⟩ := r
  obtain rfl : scopes = scope :: outer := hr
  rfl

/-! ### What is in front -/

theorem fronts_view (h : Sound text r) : Fronts (view text r).byte? r.cursor.rest.head? := h.stands.fronts

theorem byte_iff (h : Sound text r) {a : Char} (ha : a.toNat < 128) :
    (view text r).byte? = some a.toUInt8 ↔ r.cursor.rest.head? = some a :=
  (fronts_view h).eq_iff ha

/-- A byte that is no character of its own is none of the characters that a reader looks for. -/
theorem byte_ne_of_le {x : UInt8} (hx : 128 ≤ x.toNat) (a : Char) (ha : a.toNat < 128) :
    decide (x = a.toUInt8) = false := by
  refine decide_eq_false ?_
  rintro rfl
  rw [Text.toNat_toUInt8 ha] at hx
  omega

theorem char_ne_of_le {c : Char} (hc : 128 ≤ c.toNat) (a : Char) (ha : a.toNat < 128) : decide (c = a) = false := by
  refine decide_eq_false ?_
  rintro rfl
  omega

theorem isDigit_of_le {c : Char} (hc : 128 ≤ c.toNat) : c.isDigit = false := by
  have hnine : '9'.val.toNat = 57 := rfl
  have hval : c.val.toNat = c.toNat := rfl
  rw [Char.isDigit, Bool.and_eq_false_iff]
  right
  rw [decide_eq_false_iff_not, UInt32.le_iff_toNat_le]
  omega

theorem isDigitByte_of_le {x : UInt8} (hx : 128 ≤ x.toNat) : ByteReader.isDigitByte x = false := by
  have hnine : '9'.toUInt8.toNat = 57 := rfl
  rw [ByteReader.isDigitByte, Bool.and_eq_false_iff]
  right
  rw [decide_eq_false_iff_not, UInt8.le_iff_toNat_le]
  omega

private theorem kindOfByte?_of_le {x : UInt8} (hx : 128 ≤ x.toNat) : ByteReader.kindOfByte? x = none := by
  have h := byte_ne_of_le hx
  simp only [decide_eq_false_iff_not] at h
  simp only [ByteReader.kindOfByte?, isDigitByte_of_le hx, h '\x7b' (by decide), h '[' (by decide), h '"' (by decide),
    h 't' (by decide), h 'f' (by decide), h 'n' (by decide), h '-' (by decide), decide_false, Bool.or_self,
    Bool.false_eq_true, if_false]

theorem kindOf?_of_le {c : Char} (hc : 128 ≤ c.toNat) : kindOf? c = none := by
  have h := char_ne_of_le hc
  simp only [decide_eq_false_iff_not] at h
  simp only [kindOf?, isDigit_of_le hc, h '\x7b' (by decide), h '[' (by decide), h '"' (by decide), h 't' (by decide),
    h 'f' (by decide), h 'n' (by decide), h '-' (by decide), decide_false, Bool.or_self, Bool.false_eq_true, if_false]

private theorem kindOfByte?_ascii :
    ∀ n < 128, ByteReader.kindOfByte? (Char.ofNat n).toUInt8 = kindOf? (Char.ofNat n) := by
  decide

/-- The kind of a value is told from its first byte. -/
theorem kindOfByte?_front (h : Sound text r) :
    (view text r).byte?.map ByteReader.kindOfByte? = r.cursor.rest.head?.map kindOf? :=
  (fronts_view h).apply kindOfByte?_ascii (fun _ => kindOfByte?_of_le) (fun _ => kindOf?_of_le)

/-! ### Runs -/

/-- A run of characters of one byte is passed by the reader and by the machine alike. -/
theorem view_run (h : Sound text r) {p : UInt8 → Bool} {q : Char → Bool}
    (hascii : ∀ n < 128, p (Char.ofNat n).toUInt8 = q (Char.ofNat n)) (hp : ∀ x, 128 ≤ x.toNat → p x = false)
    (hq : ∀ c, 128 ≤ c.toNat → q c = false) : (view text r).run p = (r.cursor.rest.takeWhile q).length :=
  h.stands.takeWhile hascii hp hq

theorem stands_advance (h : Sound text r) {s t : List Char} (hs : ∀ c ∈ s, c.toNat < 128)
    (hr : r.cursor.rest = s ++ t) : Stands text (r.advance s.length).cursor := by
  obtain ⟨⟨rest, o⟩, started, scopes, peeked⟩ := r
  obtain rfl : rest = s ++ t := hr
  show Stands text ⟨(s ++ t).drop s.length, o + s.length⟩
  rw [List.drop_left]
  exact h.stands.advance hs

theorem stands_run (h : Sound text r) {q : Char → Bool} (hq : ∀ c, 128 ≤ c.toNat → q c = false) :
    Stands text (r.advance (r.cursor.rest.takeWhile q).length).cursor := by
  refine stands_advance h (fun c hc => ?_) (List.takeWhile_append_dropWhile (p := q)).symm
  by_contra hle
  have hnot := hq c (by omega)
  rw [List.mem_takeWhile_imp hc] at hnot
  cases hnot

private theorem isBlankByte_ascii :
    ∀ n < 128, ByteReader.isBlankByte (Char.ofNat n).toUInt8 = Text.isAsciiBlank (Char.ofNat n) := by
  decide

private theorem isAsciiBlank_of_le (c : Char) (hc : 128 ≤ c.toNat) : Text.isAsciiBlank c = false := by
  have h := char_ne_of_le hc
  simp only [Text.isAsciiBlank, h ' ' (by decide), h '\t' (by decide), h '\n' (by decide), h '\x0c' (by decide),
    h '\r' (by decide), Bool.or_self]

private theorem isBlankByte_of_le (x : UInt8) (hx : 128 ≤ x.toNat) : ByteReader.isBlankByte x = false := by
  have h := byte_ne_of_le hx
  simp only [ByteReader.isBlankByte, h ' ' (by decide), h '\t' (by decide), h '\n' (by decide), h '\x0c' (by decide),
    h '\r' (by decide), Bool.or_self]

private theorem skipBlanks_view (h : Sound text r) : (view text r).skipBlanks = view text r.skipBlanks := by
  unfold ByteReader.skipBlanks
  rw [view_run h isBlankByte_ascii isBlankByte_of_le isAsciiBlank_of_le]
  rfl

private theorem sound_skipBlanks (h : Sound text r) (hp : r.peeked = none) : Sound text r.skipBlanks :=
  .of_none (stands_run h isAsciiBlank_of_le) h.depth_le hp

section Separators

variable (h : Sound text r) (hp : r.peeked = none) {c : Char} (hc : c.toNat < 128) (hr : r.cursor.rest.head? = some c)
include h hp hc hr

private theorem sound_advance : Sound text (r.advance 1) := by
  obtain ⟨t, ht⟩ := List.head?_eq_some_iff.1 hr
  exact .of_none (stands_advance (s := [c]) h (by simpa using hc) ht) h.depth_le hp

/-- A comma or a colon is passed, with the blanks behind it. -/
private theorem sound_separator : Sound text (r.advance 1).skipBlanks :=
  sound_skipBlanks (sound_advance h hp hc hr) hp

private theorem separator_view (m : ByteM α) :
    (do modify (ByteReader.advance 1); modify ByteReader.skipBlanks; m) (view text r) =
    m (view text (r.advance 1).skipBlanks) := by
  have hadvance : (view text r).advance 1 = view text (r.advance 1) := rfl
  rw [bind_of_ok (modify_apply _ _), hadvance, bind_of_ok (modify_apply _ _),
    skipBlanks_view (sound_advance h hp hc hr)]

end Separators

/-! ### The next token -/

private theorem valueKind_agrees (h : Sound text r) :
    Agrees text (valueKind r) (ByteReader.valueKind (view text r)) := by
  have hkind := kindOfByte?_front h
  unfold ByteReader.valueKind
  rw [bind_of_ok (get_apply _)]
  cases hs : r.cursor.rest with
  | nil =>
    have hbyte : (view text r).byte? = none := by simpa [hs] using hkind
    have hfault : valueKind r = .error (.malformed .unexpectedEnd r.offset) r := by
      unfold valueKind
      rw [bind_of_ok (get_apply _)]
      simp only [hs]
      rfl
    rw [hfault, hbyte]
    exact agrees_fail h _
  | cons c s =>
    rw [hs, List.head?_cons, Option.map_some, Option.map_eq_some_iff] at hkind
    obtain ⟨x, hx, hkind⟩ := hkind
    simp only [hx, hkind]
    cases hc : kindOf? c with
    | none =>
      rw [valueKind_of_none hs hc]
      exact agrees_fail h _
    | some k =>
      rw [valueKind_of_kindOf? hs hc]
      exact .ok h

private theorem nameKind_agrees (h : Sound text r) :
    Agrees text (nameKind r) (ByteReader.nameKind (view text r)) := by
  have hquote := byte_iff h (a := '"') (by decide)
  unfold ByteReader.nameKind
  rw [nameKind_apply, bind_of_ok (get_apply _)]
  by_cases hr : r.cursor.rest.head? = some '"'
  · rw [if_pos hr, if_pos (hquote.2 hr)]
    exact .ok h
  · rw [if_neg hr, if_neg fun hbyte => hr (hquote.1 hbyte)]
    exact agrees_fail h _

theorem sound_setScope (h : Sound text r) (hp : r.peeked = none) (scope : ReadScope) :
    Sound text (r.setScope scope) := by
  obtain ⟨cursor, started, scopes, peeked⟩ := r
  cases scopes with
  | nil => exact h
  | cons => exact .of_none h.stands h.depth_le hp

private theorem scan_agrees (h : Sound text r) (hp : r.peeked = none) :
    Agrees text (scan r) (ByteReader.scan (view text r)) := by
  unfold scan ByteReader.scan
  rw [bind_of_ok (modify_apply _ r), bind_of_ok (get_apply _), bind_of_ok (modify_apply _ (view text r)),
    skipBlanks_view h, bind_of_ok (get_apply _), bind_of_ok (top_view _)]
  have h₀ := sound_skipBlanks h hp
  have hp₀ : r.skipBlanks.peeked = none := hp
  generalize r.skipBlanks = r₀ at h₀ hp₀
  rcases hs : r₀.scopes with _ | ⟨scope, outer⟩
  · have htop : r₀.top = r₀.document := by rw [top, hs]
    rw [htop, document]
    by_cases hstarted : r₀.started = true
    · simp only [hstarted, if_true]
      cases hr : r₀.cursor.rest with
      | nil =>
        rw [(fronts_view h₀).eq_none_iff.2 (by rw [hr]; rfl)]
        exact .ok h₀
      | cons c s =>
        obtain ⟨x, hx⟩ := Option.ne_none_iff_exists'.1 fun hnone => by
          have hhead := (fronts_view h₀).eq_none_iff.1 hnone
          rw [hr] at hhead
          cases hhead
        rw [hx]
        exact agrees_fail h₀ _
    · simp only [hstarted, Bool.false_eq_true, if_false]
      rw [bind_of_ok (set_apply _ _), bind_of_ok (setTop_document hs)]
      exact valueKind_agrees (r := ⟨r₀.cursor, true, [], r₀.peeked⟩) (.of_none h₀.stands (Nat.zero_le _) hp₀)
  · have htop : r₀.top = .ofRead scope := by rw [top, hs]
    rw [htop]
    -- where the reader changes its scope, the machine changes the one on top
    cases scope <;> dsimp only [ByteScope.ofRead]
    case emptyArray =>
      simp only [byte_iff h₀ (a := ']') (by decide)]
      split
      · exact .ok h₀
      · rw [bind_of_ok (set_apply _ _), bind_of_ok (setTop_scope hs .nonEmptyArray (t := .nonEmptyArray) rfl)]
        exact valueKind_agrees (sound_setScope h₀ hp₀ _)
    case nonEmptyArray =>
      simp only [byte_iff h₀ (a := ']') (by decide), byte_iff h₀ (a := ',') (by decide)]
      split
      · exact .ok h₀
      split
      · next hr =>
        rw [bind_of_ok (set_apply _ _), separator_view h₀ hp₀ (by decide) hr]
        exact valueKind_agrees (sound_separator h₀ hp₀ (by decide) hr)
      · exact agrees_fail h₀ _
    case emptyObject =>
      simp only [byte_iff h₀ (a := '\x7d') (by decide)]
      split
      · exact .ok h₀
      · exact nameKind_agrees h₀
    case nonEmptyObject =>
      simp only [byte_iff h₀ (a := '\x7d') (by decide), byte_iff h₀ (a := ',') (by decide)]
      split
      · exact .ok h₀
      split
      · next hr =>
        rw [bind_of_ok (set_apply _ _), separator_view h₀ hp₀ (by decide) hr]
        exact nameKind_agrees (sound_separator h₀ hp₀ (by decide) hr)
      · exact agrees_fail h₀ _
    case danglingName =>
      simp only [byte_iff h₀ (a := ':') (by decide)]
      split
      · next hr =>
        rw [bind_of_ok (set_apply _ _), separator_view h₀ hp₀ (by decide) hr,
          bind_of_ok (setTop_scope (r := (r₀.advance 1).skipBlanks) hs .nonEmptyObject (t := .nonEmptyObject) rfl)]
        exact valueKind_agrees (sound_setScope (sound_separator h₀ hp₀ (by decide) hr) hp₀ _)
      · exact agrees_fail h₀ _

/-- A token that was found is in front, and is allowed. -/
private theorem fits_of_scans {k : TokenKind} (h : Scans r k r') :
    Fits k r'.cursor.rest.head? ∧ r'.top.allows k = true := by
  have hvalue {c : Char} (hc : kindOf? c = some k) : Fits k (some c) ∧ k.startsValue = true := by
    have hk := startsValue_of_kindOf? hc
    refine ⟨?_, hk⟩
    cases k <;> first
      | exact ⟨c, rfl, hc⟩
      | cases hk
  cases h with
  | document _ hc => exact ⟨(hvalue hc).1, by simp [top, document, ByteScope.allows, (hvalue hc).2]⟩
  | endDocument => exact ⟨rfl, rfl⟩
  | item _ hc => exact ⟨(hvalue hc).1, by simp [top, ByteScope.ofRead, ByteScope.allows, (hvalue hc).2]⟩
  | endArray first => cases first <;> exact ⟨rfl, rfl⟩
  | @name first => cases first <;> exact ⟨rfl, rfl⟩
  | endObject first => cases first <;> exact ⟨rfl, rfl⟩
  | value _ _ hc => exact ⟨(hvalue hc).1, by simp [top, ByteScope.ofRead, ByteScope.allows, (hvalue hc).2]⟩

theorem peek_agrees (h : Sound text r) : Agrees text (peek r) (ByteReader.peek (view text r)) := by
  unfold peek ByteReader.peek
  rw [bind_of_ok (get_apply _), bind_of_ok (get_apply _)]
  have hpeeked : (view text r).peeked = r.peeked := rfl
  cases hp : r.peeked with
  | some k =>
    rw [hpeeked, hp]
    exact .ok h
  | none =>
    rw [hpeeked, hp]
    refine (scan_agrees h hp).bind fun k r' hscan h' => ?_
    obtain ⟨hfits, hallowed⟩ := fits_of_scans (scan_iff.1 hscan)
    refine .ok (r := { r' with peeked := some k }) ⟨h'.stands, h'.depth_le, ?_, ?_⟩
    · rintro k' ⟨⟩
      exact hfits
    · rintro k' ⟨⟩
      exact hallowed

end Reader

end Marshal
