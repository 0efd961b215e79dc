import Marshal.Proofs.Stream.QuotedInStep

/-!
# Calls in step

Every call of a reader is in step with the machine over bytes (`Request.agrees`).  A call that reads a token looks at
it first, so the token is in front and is allowed (`Before`); that is why the machine finds the byte it asks for, a
slice that is cut between characters, and a scope to change.
-/

namespace Marshal.Reader

open Effect
open Text (Cursor Between Stands Fronts bytes splitAt? slice?)

variable {text : List Char} {r r' : Reader} {k : TokenKind} {α : Type}

/-! ### Before a token -/

/-- The reader is about to read a token of a kind. -/
structure Before (text : List Char) (r : Reader) (k : TokenKind) : Prop where
  sound : Sound text r
  peeked_eq : r.peeked = none
  fits : Fits k r.cursor.rest.head?
  allowed : r.top.allows k = true

theorem Sound.before (h : Sound text r) (hp : r.peeked = some k) : Before text { r with peeked := none } k :=
  ⟨.of_none h.stands h.depth_le rfl, rfl, h.fits k hp, h.allowed k hp⟩

private theorem Agrees.take {f : ReadM α} {f' : ByteM α} (h : Sound text r) (hp : r.peeked = some k)
    (hf : ∀ r', Before text r' k → Agrees text (f r') (f' (view text r'))) :
    Agrees text ((do take; f) r) ((do ByteReader.take; f') (view text r)) :=
  hf _ (h.before hp)

private theorem Agrees.expect {f : ReadM α} {f' : ByteM α} (h : Sound text r)
    (hf : ∀ r', Before text r' k → Agrees text (f r') (f' (view text r'))) :
    Agrees text ((do expect k; f) r) ((do ByteReader.expect k; f') (view text r)) := by
  unfold Reader.expect ByteReader.expect
  rw [bind_assoc, bind_assoc]
  refine (peek_agrees h).bind fun found r' hpeek h' => ?_
  split
  · next hfound =>
    subst hfound
    exact .take h' (peek_ok hpeek).1 hf
  · exact .error h' (by simp)

namespace Before

variable (h : Before text r k)
include h

/-- What begins a token is a character of one byte. -/
theorem exists_front (hk : k ≠ .endDocument) : ∃ c s, r.cursor.rest = c :: s ∧ c.toNat < 128 := by
  have hfront : ∃ c, r.cursor.rest.head? = some c ∧ c.toNat < 128 := by
    have hvalue : (∃ c, r.cursor.rest.head? = some c ∧ kindOf? c = some k) →
        ∃ c, r.cursor.rest.head? = some c ∧ c.toNat < 128 := by
      rintro ⟨c, hr, hc⟩
      refine ⟨c, hr, ?_⟩
      by_contra hle
      rw [kindOf?_of_le (by omega)] at hc
      cases hc
    have hfits := h.fits
    cases k
    case endDocument => exact absurd rfl hk
    case name | endArray | endObject => exact ⟨_, hfits, by decide⟩
    all_goals exact hvalue hfits
  obtain ⟨c, hr, hc⟩ := hfront
  obtain ⟨s, hs⟩ := List.head?_eq_some_iff.1 hr
  exact ⟨c, s, hs, hc⟩

theorem between (hk : k ≠ .endDocument) : Between text r.cursor := by
  obtain ⟨c, s, hr, hc⟩ := h.exists_front hk
  obtain ⟨⟨rest, o⟩, started, scopes, p⟩ := r
  obtain rfl : rest = c :: s := hr
  exact h.sound.stands.between_of_ascii hc

private theorem stands_one (hk : k ≠ .endDocument) : Stands text (r.advance 1).cursor := by
  obtain ⟨c, s, hr, hc⟩ := h.exists_front hk
  exact stands_advance (s := [c]) h.sound (by simpa using hc) hr

/-- Names and closing brackets stand in containers only. -/
private theorem exists_scope (hk : k = .name ∨ k = .endArray ∨ k = .endObject) :
    ∃ scope outer, r.scopes = scope :: outer := by
  have hallowed := h.allowed
  cases hs : r.scopes with
  | cons scope outer => exact ⟨scope, outer, rfl⟩
  | nil =>
    unfold top document at hallowed
    rw [hs] at hallowed
    rcases hk with rfl | rfl | rfl <;> cases hstarted :
      r.started <;> simp [hstarted, ByteScope.allows, TokenKind.startsValue] at hallowed

end Before

/-! ### Containers -/

private theorem enter_agrees (h : Before text r k) (hk : k ≠ .endDocument) (scope : ReadScope) :
    Agrees text (enter scope r) (ByteReader.enter (.ofRead scope) (view text r)) := by
  -- the scope of the document stands below those of the open containers
  have hlength : (view text r).stack.length = r.scopes.length + 1 := by simp [view]
  unfold enter ByteReader.enter
  rw [bind_of_ok (get_apply _), bind_of_ok (get_apply _), hlength]
  by_cases hlt : r.scopes.length < maxDepth
  · rw [if_pos hlt, if_neg (by omega)]
    exact .ok (r := { r.advance 1 with scopes := scope :: r.scopes }) (.of_none (h.stands_one hk) hlt h.peeked_eq)
  · rw [if_neg hlt, if_pos (by omega)]
    exact agrees_fail h.sound _

private theorem leave_agrees (h : Before text r k) (hk : k = .endArray ∨ k = .endObject) :
    Agrees text (leave r) (ByteReader.leave (view text r)) := by
  obtain ⟨scope, outer, hs⟩ := h.exists_scope (.inr hk)
  have hend : k ≠ .endDocument := by
    rintro rfl
    simp at hk
  have hdepth : ({ r.advance 1 with scopes := r.scopes.tail } : Reader).depth ≤ maxDepth :=
    Nat.le_trans (by simp [depth]) h.sound.depth_le
  have hstack : (view text r).stack.tail = (view text { r.advance 1 with scopes := r.scopes.tail }).stack := by
    simp only [view, hs]
    rfl
  have hleave : ByteReader.leave (view text r) = .ok ⟨⟩ (view text { r.advance 1 with scopes := r.scopes.tail }) := by
    unfold ByteReader.leave
    rw [modify_apply, hstack]
    rfl
  rw [hleave]
  exact .ok (.of_none (h.stands_one hend) hdepth h.peeked_eq)

private theorem beginObject_agrees (h : Sound text r) :
    Agrees text (beginObject r) (ByteReader.beginObject (view text r)) :=
  .expect h fun _ h' => enter_agrees h' (by decide) .emptyObject

private theorem beginArray_agrees (h : Sound text r) :
    Agrees text (beginArray r) (ByteReader.beginArray (view text r)) :=
  .expect h fun _ h' => enter_agrees h' (by decide) .emptyArray

private theorem endObject_agrees (h : Sound text r) :
    Agrees text (endObject r) (ByteReader.endObject (view text r)) :=
  .expect h fun _ h' => leave_agrees h' (.inr rfl)

private theorem endArray_agrees (h : Sound text r) : Agrees text (endArray r) (ByteReader.endArray (view text r)) :=
  .expect h fun _ h' => leave_agrees h' (.inl rfl)

/-! ### Leaves -/

private theorem isNumberByte_ascii :
    ∀ n < 128, ByteReader.isNumberByte (Char.ofNat n).toUInt8 = isNumberChar (Char.ofNat n) := by
  decide

private theorem isNumberByte_of_le (x : UInt8) (hx : 128 ≤ x.toNat) : ByteReader.isNumberByte x = false := by
  have h := byte_ne_of_le hx
  simp only [ByteReader.isNumberByte, isDigitByte_of_le hx, h '-' (by decide), h '+' (by decide), h '.' (by decide),
    h 'e' (by decide), h 'E' (by decide), Bool.or_self]

private theorem isNumberChar_of_le (c : Char) (hc : 128 ≤ c.toNat) : isNumberChar c = false := by
  have h := char_ne_of_le hc
  simp only [isNumberChar, isDigit_of_le hc, h '-' (by decide), h '+' (by decide), h '.' (by decide),
    h 'e' (by decide), h 'E' (by decide), Bool.or_self]

private theorem ascii_of_mem_lexeme {s : List Char} {c : Char} (hc : c ∈ s.takeWhile isNumberChar) :
    c.toNat < 128 := by
  by_contra hle
  have hnot := isNumberChar_of_le c (by omega)
  rw [List.mem_takeWhile_imp hc] at hnot
  cases hnot

private theorem readNumber_agrees (h : Before text r .number) :
    Agrees text (readNumber r) (ByteReader.readNumber (view text r)) := by
  have hcount : (view text r).run ByteReader.isNumberByte = (r.cursor.rest.takeWhile isNumberChar).length :=
    view_run h.sound isNumberByte_ascii isNumberByte_of_le isNumberChar_of_le
  have hslice : slice? (view text r).pos (r.cursor.rest.takeWhile isNumberChar).length (view text r).text =
      some (r.cursor.rest.takeWhile isNumberChar) := by
    rw [← Text.utf8Size_of_ascii fun c hc => ascii_of_mem_lexeme hc]
    have hsplit := Text.splitAt?_append (r.cursor.rest.takeWhile isNumberChar) (r.cursor.rest.dropWhile isNumberChar)
    rw [List.takeWhile_append_dropWhile] at hsplit
    have hbetween := slice?_between (h.between (by decide)) (Text.utf8Size (r.cursor.rest.takeWhile isNumberChar))
    rw [hsplit] at hbetween
    exact hbetween
  unfold readNumber ByteReader.readNumber
  rw [bind_of_ok (get_apply _), bind_of_ok (get_apply _), hcount, hslice, bind_of_ok (modify_apply _ _)]
  dsimp only
  split
  · exact .ok (.of_none (stands_run h.sound isNumberChar_of_le) h.sound.depth_le h.peeked_eq)
  · rw [bind_of_ok (set_apply _ _)]
    exact agrees_fail h.sound _

/-- A string begins with a quote. -/
private theorem Before.quote (h : Before text r .string) : r.cursor.rest.head? = some '"' := by
  obtain ⟨c, hr, hc⟩ : ∃ c, r.cursor.rest.head? = some c ∧ kindOf? c = some .string := h.fits
  rw [hr, front_of_kindOf?.1 hc]

private theorem readLiteral_agrees (h : Before text r k) (hk : k ≠ .endDocument) {literal : List Char}
    (hliteral : ∀ c ∈ literal, c.toNat < 128) :
    Agrees text (readLiteral literal r) (ByteReader.readLiteral literal (view text r)) := by
  unfold readLiteral ByteReader.readLiteral
  rw [bind_of_ok (get_apply _), bind_of_ok (rest_between (h.between hk))]
  split
  · next hprefix =>
    obtain ⟨s, hs⟩ := List.isPrefixOf_iff_prefix.1 hprefix
    exact .ok (r := r.advance literal.length)
      (.of_none (stands_advance h.sound hliteral hs.symm) h.sound.depth_le h.peeked_eq)
  · exact agrees_fail h.sound _

private theorem nextName_agrees (h : Sound text r) :
    Agrees text (nextName r) (ByteReader.nextName (view text r)) := by
  refine .expect h fun r₁ h₁ => (readQuoted_agrees h₁.sound h₁.peeked_eq h₁.fits).bind fun name r₂ hname h₂ => ?_
  -- a name opens and closes nothing, so the container it stands in is still on top
  obtain ⟨hdepth, -, hp⟩ := readQuoted_ok hname
  obtain ⟨scope, outer, hs⟩ := h₁.exists_scope (.inl rfl)
  obtain ⟨scope', outer', hs'⟩ : ∃ scope outer, r₂.scopes = scope :: outer := by
    refine List.exists_cons_of_length_pos ?_
    rw [show r₂.scopes.length = r₁.scopes.length from hdepth, hs]
    exact Nat.succ_pos _
  rw [bind_of_ok (modify_apply _ _), bind_of_ok (setTop_scope hs' .danglingName (t := .danglingName) rfl)]
  exact .ok (sound_setScope h₂ (hp.trans h₁.peeked_eq) _)

private theorem nextString_agrees (h : Sound text r) :
    Agrees text (nextString r) (ByteReader.nextString (view text r)) := by
  refine (peek_agrees h).bind fun k r₁ hpeek h₁ => ?_
  have hp := (peek_ok hpeek).1
  cases k
  case string => exact .take h₁ hp fun r₂ h₂ => readQuoted_agrees h₂.sound h₂.peeked_eq h₂.quote
  case number => exact .take h₁ hp fun r₂ h₂ => readNumber_agrees h₂
  all_goals exact agrees_unexpected h₁ _ _

private theorem nextNumber_agrees (h : Sound text r) :
    Agrees text (nextNumber r) (ByteReader.nextNumber (view text r)) := by
  refine (peek_agrees h).bind fun k r₁ hpeek h₁ => ?_
  have hp := (peek_ok hpeek).1
  cases k
  case string => exact .take h₁ hp fun r₂ h₂ => readQuoted_agrees h₂.sound h₂.peeked_eq h₂.quote
  case number => exact .take h₁ hp fun r₂ h₂ => readNumber_agrees h₂
  all_goals exact agrees_unexpected h₁ _ _

private theorem nextBool_agrees (h : Sound text r) :
    Agrees text (nextBool r) (ByteReader.nextBool (view text r)) := by
  refine .expect h fun r₁ h₁ => ?_
  obtain ⟨c, s, hr, hc⟩ := h₁.exists_front (by decide)
  have hfront : r₁.cursor.rest.head? = some c := by rw [hr, List.head?_cons]
  have hindex := index_front h₁.sound.stands hc hfront
  have hbyte : c.toUInt8 = 't'.toUInt8 ↔ r₁.cursor.rest.head? = some 't' := by
    rw [← byte_iff h₁.sound (by decide), (byte_iff h₁.sound hc).2 hfront, Option.some.injEq]
  rw [bind_of_ok (get_apply _), bind_of_ok hindex]
  simp only [hbyte]
  split
  · exact (readLiteral_agrees h₁ (by decide) (by simp)).bind fun _ _ _ h₂ => .pure h₂ true
  · exact (readLiteral_agrees h₁ (by decide) (by simp)).bind fun _ _ _ h₂ => .pure h₂ false

private theorem nextNull_agrees (h : Sound text r) : Agrees text (nextNull r) (ByteReader.nextNull (view text r)) :=
  .expect h fun _ h₁ => readLiteral_agrees h₁ (by decide) (by simp)

private theorem nextInt_agrees (h : Sound text r) : Agrees text (nextInt r) (ByteReader.nextInt (view text r)) := by
  refine (nextNumber_agrees h).bind fun s r₁ _ h₁ => ?_
  unfold integerOf
  cases integralText? s.toList with
  | some n => exact .pure h₁ n
  | none => exact .error h₁ (by simp)

private theorem nextFloat_agrees (h : Sound text r) :
    Agrees text (nextFloat r) (ByteReader.nextFloat (view text r)) := by
  refine (nextNumber_agrees h).bind fun s r₁ _ h₁ => ?_
  cases floatText? (Text.trim s.toList) with
  | some x => exact .pure h₁ x
  | none => exact .error h₁ (by simp)

private theorem hasNext_agrees (h : Sound text r) : Agrees text (hasNext r) (ByteReader.hasNext (view text r)) := by
  refine (peek_agrees h).bind fun k r₁ _ h₁ => ?_
  cases k <;> exact .ok h₁

/-! ### Skipping -/

private theorem left_le_view (h : Sound text r) : r.left ≤ (view text r).left := h.stands.left_le

/-- A loop is in step if its steps are.  Each step takes a character, so fuel for the characters that are left is
enough, and so is fuel for the bytes. -/
private theorem whileNext_agrees {d : Nat} {step : ReadM Unit} {step' : ByteM Unit}
    (hstep : ∀ r, Sound text r → r.depth = d → Agrees text (step r) (step' (view text r)))
    (hok : ∀ r r', step r = .ok ⟨⟩ r' → Consumes r r') :
    ∀ {n n' : Nat} {r : Reader}, Sound text r → r.depth = d → r.left < n → r.left < n' →
      Agrees text (whileNext n step r) (ByteReader.whileNext n' step' (view text r)) := by
  intro n
  induction n with
  | zero =>
    intro n' r _ _ hn
    exact absurd hn (Nat.not_lt_zero _)
  | succ n ih =>
    intro n' r h hr hn hn'
    obtain ⟨n', rfl⟩ := Nat.exists_eq_succ_of_ne_zero (Nat.ne_zero_of_lt hn')
    refine (hasNext_agrees h).bind fun more r₁ hnext h₁ => ?_
    obtain ⟨k, hpeek, -⟩ := hasNext_ok hnext
    obtain ⟨-, hdepth, hleft, -⟩ := peek_ok hpeek
    split
    · refine (hstep r₁ h₁ (hdepth.trans hr)).bind fun _ r₂ hs h₂ => ?_
      obtain ⟨hd, hl, -⟩ := hok r₁ r₂ hs
      exact ih h₂ (by omega) (by omega) (by omega)
    · exact .pure h₁ _

/-- The fuel of a skip lasts: it covers the nesting that is still allowed. -/
private theorem skipWith_agrees : ∀ {fuel : Nat} {r : Reader}, Sound text r → maxDepth + 2 ≤ r.depth + fuel →
    Agrees text (skipWith fuel r) (ByteReader.skipWith fuel (view text r)) := by
  intro fuel
  induction fuel with
  | zero =>
    intro r h hfuel
    have hdepth := h.depth_le
    omega
  | succ fuel ih =>
    intro r h hfuel
    refine (peek_agrees h).bind fun k r₁ hpeek h₁ => ?_
    have hdepth := (peek_ok hpeek).2.1
    -- a container takes one unit of fuel and opens one level, which keeps the bound
    cases k
    case beginObject =>
      refine (beginObject_agrees h₁).bind fun _ r₂ hopen h₂ => ?_
      have hr₂ := (beginObject_ok hopen).depth_eq
      rw [bind_of_ok (get_apply _), bind_of_ok (get_apply _)]
      refine Agrees.bind ?_ fun _ _ _ h₃ => endObject_agrees h₃
      refine whileNext_agrees (fun r₃ h₃ hr₃ => ?_) (fun r₃ r₄ hs => ?_) h₂ rfl (Nat.lt_succ_self _)
        (Nat.lt_succ_of_le (left_le_view h₂))
      · refine (nextName_agrees h₃).bind fun _ r₄ hname h₄ => ih h₄ ?_
        have hr₄ := (nextName_ok hname).depth_eq
        omega
      · obtain ⟨_, r₅, hname, hs⟩ := bind_eq_ok.1 hs
        have hc := nextName_ok hname
        have hc' := skipWith_consumes _ _ _ hs
        exact ⟨hc'.depth_eq.trans hc.depth_eq, Nat.lt_trans hc'.left_lt hc.left_lt, hc'.peeked_eq⟩
    case beginArray =>
      refine (beginArray_agrees h₁).bind fun _ r₂ hopen h₂ => ?_
      have hr₂ := (beginArray_ok hopen).depth_eq
      rw [bind_of_ok (get_apply _), bind_of_ok (get_apply _)]
      refine Agrees.bind ?_ fun _ _ _ h₃ => endArray_agrees h₃
      exact whileNext_agrees (fun r₃ h₃ hr₃ => ih h₃ (by omega)) (fun r₃ r₄ hs => skipWith_consumes _ _ _ hs) h₂ rfl
        (Nat.lt_succ_self _) (Nat.lt_succ_of_le (left_le_view h₂))
    case string | number => exact (nextString_agrees h₁).bind fun _ _ _ h₂ => .pure h₂ _
    case boolean => exact (nextBool_agrees h₁).bind fun _ _ _ h₂ => .pure h₂ _
    case null => exact nextNull_agrees h₁
    case name => exact (nextName_agrees h₁).bind fun _ _ _ h₂ => .pure h₂ _
    all_goals exact agrees_unexpected h₁ _ _

private theorem skipValue_agrees (h : Sound text r) :
    Agrees text (skipValue r) (ByteReader.skipValue (view text r)) :=
  skipWith_agrees h (Nat.le_add_left _ _)

/-! ### Any call -/

private theorem Agrees.answer {m : ReadM α} {m' : ByteM α} {b : ByteReader} (h : Agrees text (m r) (m' b))
    (f : α → Answer) : Agrees text ((do return f (← m)) r) ((do return f (← m')) b) :=
  h.bind fun _ _ _ h' => .pure h' _

/-- Every call is in step with the machine. -/
theorem Request.agrees (q : Request) (h : Sound text r) : Agrees text (q.run r) (q.runBytes (view text r)) := by
  cases q with
  | peek => exact (peek_agrees h).answer .kind
  | hasNext => exact (hasNext_agrees h).answer .flag
  | beginObject => exact (beginObject_agrees h).answer fun _ => .done
  | endObject => exact (endObject_agrees h).answer fun _ => .done
  | beginArray => exact (beginArray_agrees h).answer fun _ => .done
  | endArray => exact (endArray_agrees h).answer fun _ => .done
  | name => exact (nextName_agrees h).answer .text
  | string => exact (nextString_agrees h).answer .text
  | number => exact (nextNumber_agrees h).answer .text
  | bool => exact (nextBool_agrees h).answer .flag
  | null => exact (nextNull_agrees h).answer fun _ => .done
  | int => exact (nextInt_agrees h).answer .int
  | float => exact (nextFloat_agrees h).answer .float
  | skip => exact (skipValue_agrees h).answer fun _ => .done

end Marshal.Reader
