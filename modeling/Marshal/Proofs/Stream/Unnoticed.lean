import Marshal.Proofs.Stream.ByteReader
import Marshal.Proofs.Stream.Looking
import Marshal.Proofs.Stream.Looks

/-!
# Looks that go unnoticed

A look at the next token that succeeds changes nothing that later calls give.  A look that fails does, if it has gone
on in its scope before it came to the fault: past a comma or a colon, or into a container or a document of which
nothing was known (`LookFails.beyond`).  A second look goes on from there and gives something else.  So a look goes
unnoticed exactly if it succeeds or has passed nothing but blanks (`unnoticed_iff`).
-/

namespace Marshal

open Effect

/-- Whether a fault says that no value and no name begins where one has to. -/
def SyntaxFault.isOfBeginning : SyntaxFault → Bool
  | .unexpectedEnd | .unexpectedCharacter | .expectedName => true
  | _ => false

namespace Reader

variable {r r' r'' : Reader} {k : TokenKind} {e : Error} {q : Request}

/-! ### Blanks -/

private theorem rest_skipBlanks (r : Reader) :
    r.skipBlanks.cursor.rest = r.cursor.rest.dropWhile Text.isAsciiBlank := by
  have hdrop :=
    @List.drop_left _ (r.cursor.rest.takeWhile Text.isAsciiBlank) (r.cursor.rest.dropWhile Text.isAsciiBlank)
  rw [List.takeWhile_append_dropWhile] at hdrop
  exact hdrop

private theorem skipBlanks_skipBlanks (r : Reader) : r.skipBlanks.skipBlanks = r.skipBlanks := by
  have hnone : r.skipBlanks.cursor.rest.takeWhile Text.isAsciiBlank = [] := by
    rw [rest_skipBlanks]
    have hhead := List.head?_dropWhile_not Text.isAsciiBlank r.cursor.rest
    cases hs : r.cursor.rest.dropWhile Text.isAsciiBlank with
    | nil => rfl
    | cons c s =>
      rw [hs] at hhead
      exact List.takeWhile_cons_of_neg (by simpa using hhead)
  conv => lhs; rw [skipBlanks, hnone]
  rfl

private theorem scan_skipBlanks (r : Reader) : scan r.skipBlanks = scan r := by
  obtain ⟨m, r', hasks⟩ := exists_asks r.skipBlanks
  rw [scan_of_asks hasks]
  exact scan_of_asks (by rwa [skipBlanks_skipBlanks])

/-! ### Failing looks -/

/-- Whether the innermost container, or the document, is known to have begun. -/
def begun (r : Reader) : Bool :=
  match r.scopes with
  | [] => r.started
  | .nonEmptyArray :: _ | .nonEmptyObject :: _ => true
  | .emptyArray :: _ | .emptyObject :: _ | .danglingName :: _ => false

/-- How a look fails. -/
inductive LookFails (r : Reader) : Error → Reader → Prop
  /-- Only blanks were passed. -/
  | inFront {fault : SyntaxFault} (h : fault.isOfBeginning = true → r.begun = false) :
    LookFails r (.malformed fault r.skipBlanks.offset) r.skipBlanks
  /-- The reader went on in its scope, past a comma if it had begun, to where a value or a name has to begin. -/
  | beyond {fault : SyntaxFault} {r' : Reader} (hfault : fault.isOfBeginning = true) (hbegun : r'.begun = true)
    (hpassed : r.begun = true → r.offset < r'.offset) : LookFails r (.malformed fault r'.offset) r'

private theorem fail_eq_error {α : Type} {fault : SyntaxFault} (h : (fail fault : ReadM α) r = .error e r') :
    e = .malformed fault r.offset ∧ r' = r := by
  obtain ⟨rfl, rfl⟩ := EStateM.Result.error.inj h
  exact ⟨rfl, rfl⟩

private theorem valueKind_error (h : valueKind r = .error e r') :
    r' = r ∧ ∃ fault, fault.isOfBeginning = true ∧ e = .malformed fault r.offset := by
  cases hs : r.cursor.rest with
  | nil =>
    unfold valueKind at h
    rw [bind_of_ok (get_apply r), hs] at h
    obtain ⟨rfl, rfl⟩ := fail_eq_error h
    exact ⟨rfl, _, rfl, rfl⟩
  | cons c s =>
    cases hc : kindOf? c with
    | none =>
      rw [valueKind_of_none hs hc] at h
      obtain ⟨rfl, rfl⟩ := EStateM.Result.error.inj h
      exact ⟨rfl, _, rfl, rfl⟩
    | some k =>
      rw [valueKind_of_kindOf? hs hc] at h
      cases h

private theorem nameKind_error (h : nameKind r = .error e r') : r' = r ∧ e = .malformed .expectedName r.offset := by
  rw [nameKind_apply] at h
  split at h
  · cases h
  · obtain ⟨rfl, rfl⟩ := EStateM.Result.error.inj h
    exact ⟨rfl, rfl⟩

private theorem offset_le_skipBlanks (r : Reader) : r.offset ≤ r.skipBlanks.offset := Nat.le_add_right ..

/-- Past a comma or a colon. -/
private theorem offset_lt_passed (r : Reader) : r.offset < (r.skipBlanks.advance 1).skipBlanks.offset := by
  have hfront := offset_le_skipBlanks r
  have hbehind := offset_le_skipBlanks (r.skipBlanks.advance 1)
  have hone : (r.skipBlanks.advance 1).offset = r.skipBlanks.offset + 1 := rfl
  omega

private theorem lookFails_of_scan (h : scan r = .error e r') : LookFails r e r' := by
  have hvalue {r₁ : Reader} (h : valueKind r₁ = .error e r') (hbegun : r₁.begun = true)
      (hpassed : r.begun = true → r.offset < r₁.offset) : LookFails r e r' := by
    obtain ⟨rfl, fault, hfault, rfl⟩ := valueKind_error h
    exact .beyond hfault hbegun hpassed
  have hfail {fault : SyntaxFault} (h : (fail fault : ReadM TokenKind) r.skipBlanks = .error e r')
      (hfault : fault.isOfBeginning = false) : LookFails r e r' := by
    obtain ⟨rfl, rfl⟩ := fail_eq_error h
    exact .inFront (by simp [hfault])
  have hscopes : r.scopes = r.skipBlanks.scopes := rfl
  have hpassed : (r.skipBlanks.advance 1).skipBlanks.scopes = r.skipBlanks.scopes := rfl
  obtain ⟨m, r₁, hasks⟩ := exists_asks r.skipBlanks
  rw [scan_of_asks hasks] at h
  cases hasks with
  | endDocument | endArray | endObject => cases h
  | trailing | noItem | noName | noColon => exact hfail h rfl
  | document hs hstarted =>
    have hnot : r.begun = false := by rw [begun, hscopes, hs]; exact hstarted
    exact hvalue h (by rw [begun, hs]) (by simp [hnot])
  | firstItem hs _ =>
    have hnot : r.begun = false := by rw [begun, hscopes, hs]
    exact hvalue h (by simp [begun, setScope, hs]) (by simp [hnot])
  | nextItem hs _ => exact hvalue h (by simp [begun, hpassed, hs]) fun _ => offset_lt_passed r
  | firstName hs _ =>
    obtain ⟨rfl, rfl⟩ := nameKind_error h
    exact .inFront fun _ => by rw [begun, hscopes, hs]
  | nextName hs _ =>
    obtain ⟨rfl, rfl⟩ := nameKind_error h
    exact .beyond rfl (by simp [begun, hpassed, hs]) fun _ => offset_lt_passed r
  | entryValue hs _ =>
    have hnot : r.begun = false := by rw [begun, hscopes, hs]
    exact hvalue h (by simp [begun, setScope, hpassed, hs]) (by simp [hnot])

/-- A look fails only where the next token has to be worked out. -/
private theorem peek_error (h : peek r = .error e r') : r.peeked = none ∧ scan r = .error e r' := by
  unfold peek at h
  rw [bind_of_ok (get_apply r)] at h
  cases hp : r.peeked with
  | some k =>
    simp only [hp] at h
    cases h
  | none =>
    simp only [hp] at h
    rcases bind_eq_error.1 h with hscan | ⟨_, _, _, h⟩
    · exact ⟨rfl, hscan⟩
    · cases h

private theorem peek_skipBlanks (hr : r.peeked = none) : peek r.skipBlanks = peek r := by
  have hr' : r.skipBlanks.peeked = none := hr
  unfold peek
  rw [bind_of_ok (get_apply r.skipBlanks), bind_of_ok (get_apply r)]
  simp only [hr, hr']
  exact bind_congr_run (scan_skipBlanks r)

private theorem LookFails.of_peek (h : peek r = .error e r') : LookFails r e r' := lookFails_of_scan (peek_error h).2

/-- A look that went on in its scope fails elsewhere, or otherwise, if it is made again. -/
private theorem LookFails.eq_skipBlanks (h : LookFails r e r') (h' : LookFails r' e r'') : r' = r.skipBlanks := by
  cases h with
  | inFront => rfl
  | beyond hfault hbegun =>
    generalize he : Error.malformed _ r'.offset = e at h'
    cases h' with
    | inFront hfirst =>
      obtain ⟨rfl, -⟩ := Error.malformed.inj he
      rw [hfirst hfault] at hbegun
      cases hbegun
    | beyond _ _ hpassed =>
      have hmoved := hpassed hbegun
      have hsame := (Error.malformed.inj he).2
      omega

/-! ### Unnoticed looks -/

/-- The state behind a look, whatever the look gives. -/
def looked (r : Reader) : Reader :=
  match peek r with
  | .ok _ r' => r'
  | .error _ r' => r'

/-- A request that looks at the next token and does nothing else. -/
def Request.isLook (q : Request) : Prop := q = .peek ∨ q = .hasNext

private theorem runAll_look (h : q.isLook) (qs : List Request) :
    (runAll Request.run (q :: qs) r).1.tail = (runAll Request.run qs r.looked).1 := by
  have hok {k : TokenKind} {r₁ : Reader} (hpeek : peek r = .ok k r₁) : ∃ a, q.run r = .ok a r₁ := by
    rcases h with rfl | rfl
    · exact ⟨_, bind_of_ok hpeek⟩
    · exact ⟨_, bind_of_ok (hasNext_of_peek hpeek)⟩
  cases hpeek : peek r with
  | ok k r₁ =>
    obtain ⟨a, hrun⟩ := hok hpeek
    rw [runAll_of_ok hrun, looked, hpeek]
    rfl
  | error e r₁ =>
    rw [runAll_of_error (q.looksFirst.of_error hpeek), looked, hpeek]
    rfl

/-- A look goes unnoticed: made twice in a row it gives the same twice, and put in front of any calls it changes none
of their results. -/
structure Unnoticed (r : Reader) : Prop where
  again : ∃ x, (runAll Request.run [.peek, .peek] r).1 = [x, x]
  later : ∀ q : Request, q.isLook → ∀ qs, (runAll Request.run (q :: qs) r).1.tail = (runAll Request.run qs r).1

private theorem unnoticed_of_run (h : ∀ q : Request, q.run r.looked = q.run r) : Unnoticed r where
  again := by
    have htail := (runAll_look (.inl rfl) [.peek]).trans (runAll_congr h [.peek])
    cases hrun : Request.run .peek r with
    | ok a r₁ =>
      rw [runAll_of_ok hrun, runAll_of_ok hrun] at htail
      rw [runAll_of_ok hrun]
      exact ⟨_, congrArg _ htail⟩
    | error e r₁ =>
      rw [runAll_of_error hrun, runAll_of_error hrun] at htail
      rw [runAll_of_error hrun]
      exact ⟨_, congrArg _ htail⟩
  later _ hq qs := (runAll_look hq qs).trans (runAll_congr h qs)

/-- A look that is made again fails again, if it goes unnoticed. -/
private theorem Unnoticed.peek_error_again (h : Unnoticed r) (hpeek : peek r = .error e r') :
    ∃ r'', peek r' = .error e r'' := by
  have hrun : Request.run .peek r = .error e r' := bind_of_error hpeek
  obtain ⟨x, hx⟩ := h.again
  rw [runAll_of_error hrun] at hx
  obtain ⟨rfl, hx⟩ := List.cons.inj hx
  cases hrun' : Request.run .peek r' with
  | ok a r'' =>
    rw [runAll_of_ok hrun'] at hx
    cases hx
  | error e' r'' =>
    rw [runAll_of_error hrun'] at hx
    obtain rfl := Except.error.inj (List.cons.inj hx).1
    rcases bind_eq_error.1 hrun' with hpeek' | ⟨_, _, _, h⟩
    · exact ⟨r'', hpeek'⟩
    · cases h

/-- A look goes unnoticed exactly if it succeeds, or fails and has passed nothing but blanks. -/
theorem unnoticed_iff (r : Reader) : Unnoticed r ↔ ∀ e r', peek r = .error e r' → r' = r.skipBlanks := by
  constructor
  · intro h e r' hpeek
    obtain ⟨r'', hpeek'⟩ := h.peek_error_again hpeek
    exact (LookFails.of_peek hpeek).eq_skipBlanks (.of_peek hpeek')
  · refine fun h => unnoticed_of_run fun q => ?_
    cases hpeek : peek r with
    | ok k r₁ =>
      rw [looked, hpeek]
      exact q.looksFirst.after_peek hpeek
    | error e r₁ =>
      obtain rfl := h e r₁ hpeek
      rw [looked, hpeek]
      exact q.looksFirst.congr (peek_skipBlanks (peek_error hpeek).1)

/-- A look that fails behind a comma is noticed: the next one finds what is behind the comma. -/
theorem not_forall_unnoticed :
    ¬∀ (text : List Char) (qs : List Request), Unnoticed (runAll Request.run qs (ofText text)).2 := by
  intro h
  obtain ⟨x, hx⟩ := (h ['[', ',', '1', ']'] [.beginArray]).again
  have hruns :
      (runAll Request.run [.peek, .peek] (runAll Request.run [.beginArray] (ofText ['[', ',', '1', ']'])).2).1 =
        [.error (.malformed .unexpectedCharacter 1), .ok (.kind .number)] := rfl
  rw [hruns] at hx
  cases hx

end Reader

end Marshal
