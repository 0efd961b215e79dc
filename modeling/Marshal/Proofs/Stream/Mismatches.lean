import Marshal.Proofs.Converter.Faults
import Marshal.Proofs.Stream.Acceptance
import Marshal.Proofs.Stream.ByteReader

/-!
# Mismatches

A call that finds a token of another kind than it asks for has done nothing but look at that token, so it can be taken
for not made (`run_unexpectedToken`).  A skip asks for many tokens, but behind the first one it goes by what it finds:
inside a container the next token is the closing bracket or begins an element or an entry (`noMismatch_loop`), so no
later one is of another kind.
-/

namespace Marshal

open Effect

/-- Whether a fault says that a token of another kind was found. -/
def Error.isMismatch : Error → Bool
  | .unexpectedToken .. => true
  | _ => false

private theorem Error.isMismatch_of_isMalformed {e : Error} (h : e.isMalformed = true) : e.isMismatch = false := by
  cases e with
  | malformed => rfl
  | _ => cases h

namespace Reader

variable {α β : Type} {k kind last : TokenKind} {outer : List ReadScope} {r r₁ r' : Reader}

/-! ### Runs without a mismatch -/

/-- The run finds every token to be of a kind that it asks for. -/
def NoMismatch (m : ReadM α) (r : Reader) : Prop := ∀ e r', m r = .error e r' → e.isMismatch = false

namespace NoMismatch

variable {m : ReadM α}

private theorem of_ok {a : α} (h : m r = .ok a r') : NoMismatch m r := by
  intro e r' he
  rw [h] at he
  cases he

private theorem of_textual (h : Textual m) : NoMismatch m r :=
  fun e r' he => Error.isMismatch_of_isMalformed (h r e r' he)

private theorem throw {e : Error} (he : e.isMismatch = false) : NoMismatch (throw e : ReadM α) r := by
  intro e' r' h
  obtain ⟨rfl, -⟩ := EStateM.Result.error.inj h
  exact he

private theorem congr {m' : ReadM α} (h : m r = m' r₁) (hm' : NoMismatch m' r₁) : NoMismatch m r := by
  intro e r' he
  exact hm' e r' (h.symm.trans he)

private theorem bind {f : α → ReadM β} (hm : NoMismatch m r) (hf : ∀ a r₁, m r = .ok a r₁ → NoMismatch (f a) r₁) :
    NoMismatch (m >>= f) r := by
  intro e r' h
  rcases bind_eq_error.1 h with h | ⟨a, r₁, ha, h⟩
  · exact hm e r' h
  · exact hf a r₁ ha e r' h

/-- A look that fails is no mismatch, so there is nothing to show but what comes behind one that succeeds. -/
private theorem of_looksFirst (h : LooksFirst m) (hm : ∀ k r₁, peek r = .ok k r₁ → NoMismatch m r₁) :
    NoMismatch m r := by
  cases hpeek : peek r with
  | ok k r₁ => exact (hm k r₁ hpeek).congr (h.after_peek hpeek).symm
  | error e r₁ =>
    intro e' r' he
    rw [h.of_error hpeek] at he
    obtain ⟨rfl, -⟩ := EStateM.Result.error.inj he
    exact Error.isMismatch_of_isMalformed (textual_peek r e r₁ hpeek)

end NoMismatch

/-! ### Refusals -/

/-- A mismatch is found at the first token, which is of a kind as said, and nothing but the look at it is done. -/
def Refuses (p : TokenKind → Prop) (m : ReadM α) : Prop := ∀ r expected found o r',
  m r = .error (.unexpectedToken expected found o) r' → peek r = .ok found r' ∧ o = r'.offset ∧ p found

namespace Refuses

variable {p : TokenKind → Prop} {m : ReadM α}

/-- A token of a kind that is not refused is fit for the whole run. -/
private theorem noMismatch (h : Refuses p m) (hpeek : peek r = .ok k r₁) (hk : ¬p k) : NoMismatch m r := by
  intro e r' he
  cases e with
  | unexpectedToken expected found o =>
    obtain ⟨hfound, -, hp⟩ := h r expected found o r' he
    obtain ⟨rfl, -⟩ := ok_inj.1 (hpeek.symm.trans hfound)
    exact absurd hp hk
  | _ => rfl

/-- A computation that goes by the kind of the next token: it refuses the kind, or there is no mismatch any more. -/
private theorem of_kinds {f : TokenKind → ReadM α}
    (hf : ∀ k r, peek r = .ok k r → (p k ∧ ∃ expected, f k = unexpected expected k) ∨ NoMismatch (f k) r) :
    Refuses p (peek >>= f) := by
  intro r expected found o r' h
  rcases bind_eq_error.1 h with h | ⟨k, r₁, hpeek, h⟩
  · cases textual_peek _ _ _ h
  · rcases hf k r₁ (peek_idem hpeek) with ⟨hp, expected, hk⟩ | hk
    · rw [hk] at h
      obtain ⟨he, rfl⟩ := EStateM.Result.error.inj h
      obtain ⟨-, rfl, rfl⟩ := Error.unexpectedToken.inj he
      exact ⟨hpeek, rfl, hp⟩
    · cases hk _ _ h

private theorem bind {f : α → ReadM β} (hm : Refuses p m) (hf : ∀ a r, NoMismatch (f a) r) : Refuses p (m >>= f) := by
  intro r expected found o r' h
  rcases bind_eq_error.1 h with h | ⟨a, r₁, -, h⟩
  · exact hm r expected found o r' h
  · cases hf a r₁ _ _ h

end Refuses

private theorem refuses_peek : Refuses (fun _ => False) peek := by
  intro r expected found o r' h
  cases textual_peek _ _ _ h

private theorem refuses_hasNext : Refuses (fun _ => False) hasNext :=
  refuses_peek.bind fun k _ => by cases k <;> exact .of_ok rfl

private theorem refuses_expect (kind : TokenKind) : Refuses (· ≠ kind) (expect kind) := by
  refine .of_kinds fun k r _ => ?_
  by_cases hk : k = kind
  · rw [if_pos hk]
    exact .inr (.of_ok rfl)
  · rw [if_neg hk]
    exact .inl ⟨hk, _, rfl⟩

private theorem refuses_begin (kind : TokenKind) (scope : ReadScope) :
    Refuses (· ≠ kind) (do expect kind; enter scope) :=
  (refuses_expect kind).bind fun _ _ => .of_textual (textual_enter scope)

private theorem refuses_end (kind : TokenKind) : Refuses (· ≠ kind) (do expect kind; leave) :=
  (refuses_expect kind).bind fun _ _ => .of_ok rfl

private theorem refuses_nextName : Refuses (· ≠ .name) nextName :=
  (refuses_expect .name).bind fun _ _ =>
    .of_textual (.bind textual_readQuoted fun _ => .bind (raises_modify _) fun _ => raises_pure _)

private theorem refuses_nextString : Refuses (fun k => ¬(k = .string ∨ k = .number)) nextString := by
  refine .of_kinds fun k r _ => ?_
  cases k with
  | string => exact .inr (.of_textual (.bind (raises_modify _) fun _ => textual_readQuoted))
  | number => exact .inr (.of_textual (.bind (raises_modify _) fun _ => textual_readNumber))
  | _ => exact .inl ⟨by simp, _, rfl⟩

private theorem refuses_nextNumber : Refuses (fun k => ¬(k = .string ∨ k = .number)) nextNumber := by
  refine .of_kinds fun k r _ => ?_
  cases k with
  | string => exact .inr (.of_textual (.bind (raises_modify _) fun _ => textual_readQuoted))
  | number => exact .inr (.of_textual (.bind (raises_modify _) fun _ => textual_readNumber))
  | _ => exact .inl ⟨by simp, _, rfl⟩

private theorem noMismatch_integerOf (text : String) : NoMismatch (integerOf text) r := by
  unfold integerOf
  split
  · exact .of_ok rfl
  · exact .throw rfl

private theorem refuses_nextFloat : Refuses (fun k => ¬(k = .string ∨ k = .number)) nextFloat := by
  refine refuses_nextNumber.bind fun text r => ?_
  split
  · exact .of_ok rfl
  · exact .throw rfl

private theorem refuses_nextBool : Refuses (· ≠ .boolean) nextBool :=
  (refuses_expect .boolean).bind fun _ _ =>
    .of_textual (.bind raises_get fun _ => raises_ite (.bind (textual_readLiteral _) fun _ => raises_pure _)
      (.bind (textual_readLiteral _) fun _ => raises_pure _))

private theorem refuses_nextNull : Refuses (· ≠ .null) nextNull :=
  (refuses_expect .null).bind fun _ _ => .of_textual (textual_readLiteral _)

/-! ### Loops -/

/-- A loop inside a container, with an invariant by which the next token is the closing bracket or is fit for a
step. -/
theorem noMismatch_loop {I : Reader → Prop} {step : ReadM Unit} (hlast : Ends last)
    (hI : ∀ r k r₁, I r → peek r = .ok k r₁ →
      k = last ∨ (¬Ends k ∧ NoMismatch step r₁ ∧ ∀ r₂, step r₁ = .ok ⟨⟩ r₂ → I r₂)) (n : Nat) :
    ∀ r, I r → NoMismatch (do whileNext n step; expect last; leave) r := by
  induction n with
  | zero => exact fun r _ => .bind (.throw rfl) fun _ _ h => by cases h
  | succ n ih =>
    intro r hr
    refine .of_looksFirst ((looksFirst_whileNext n step).bind _) fun k r₁ hpeek => ?_
    have hpeek' := peek_idem hpeek
    rcases hI r k r₁ hr hpeek with rfl | ⟨hk, hstep, hnext⟩
    · refine .congr (bind_of_ok (whileNext_of_ends n step hpeek' hlast)) ?_
      exact (refuses_end _).noMismatch hpeek' (absurd rfl)
    · refine .congr (bind_congr_run (whileNext_of_not_ends n step hpeek' hk)) ?_
      rw [bind_assoc]
      exact hstep.bind fun _ r₂ h => ih r₂ (hnext r₂ h)

/-! ### Containers -/

/-- The reader stands in a container, and the next token has not been looked at.  The containers around are
`outer`. -/
structure Inside (scope : Bool → ReadScope) (outer : List ReadScope) (r : Reader) : Prop where
  scopes_eq : ∃ first, r.scopes = scope first :: outer
  peeked_eq : r.peeked = none
  outer_lt : outer.length < maxDepth

private theorem inside_of_enter (scope : Bool → ReadScope) (h : (do expect kind; enter (scope true)) r = .ok ⟨⟩ r') :
    ∃ outer, Inside scope outer r' := by
  obtain ⟨_, r₁, hexpect, henter⟩ := bind_eq_ok.1 h
  obtain ⟨r₂, -, rfl⟩ := expect_ok hexpect
  obtain ⟨hlt, rfl⟩ := enter_ok henter
  exact ⟨_, ⟨true, rfl⟩, rfl, hlt⟩

/-- Behind a value the reader stands in the same container. -/
private theorem inside_of_skipWith {fuel : Nat} {scope : Bool → ReadScope} (hvalue : AtValue r)
    (hscopes : r.scopes = scope false :: outer) (houter : outer.length < maxDepth) (h : skipWith fuel r = .ok ⟨⟩ r') :
    Inside scope outer r' := by
  have hdepth : r.depth ≤ maxDepth := by
    rw [depth, hscopes]
    exact houter
  obtain ⟨j, hj, -⟩ := takesValue_skipWith fuel r r' hvalue hdepth h
  exact ⟨⟨false, hj.scopes_eq.trans hscopes⟩, hj.peeked_eq, houter⟩

/-- The next token, if there is one, begins a value or a name. -/
def Begins (r : Reader) : Prop := ∀ k r₁, peek r = .ok k r₁ → ¬Ends k

private theorem begins_of_peek (h : peek r = .ok k r₁) (hk : ¬Ends k) : Begins r := by
  intro k' r₂ h'
  obtain ⟨rfl, -⟩ := ok_inj.1 (h.symm.trans h')
  exact hk

private theorem noMismatch_items {fuel : Nat} (hskip : ∀ r, Begins r → NoMismatch (skipWith fuel) r) (n : Nat)
    (hr : Inside itemScope outer r) : NoMismatch (do whileNext n (skipWith fuel); endArray) r := by
  refine noMismatch_loop (.inr (.inl rfl)) ?_ n r hr
  rintro r k r₁ ⟨⟨first, hscopes⟩, hpeeked, houter⟩ hpeek
  obtain ⟨r₁, hscan, rfl⟩ := (peek_iff hpeeked).1 hpeek
  rcases hscan.of_items hscopes with ⟨_, -, -, hscopes₁, hvalue⟩ | ⟨rfl, -⟩
  · refine .inr ⟨hvalue.not_ends, hskip _ (begins_of_peek (peek_idem hpeek) hvalue.not_ends), fun r₂ h => ?_⟩
    exact inside_of_skipWith hvalue hscopes₁ houter h
  · exact .inl rfl

/-- Behind a name there is a colon, and a value. -/
private theorem begins_of_danglingName (hscopes : r.scopes = .danglingName :: outer) (hpeeked : r.peeked = none) :
    Begins r := by
  intro k r₁ hpeek
  obtain ⟨r₁, hscan, rfl⟩ := (peek_iff hpeeked).1 hpeek
  obtain ⟨_, _, -, -, -, -, hvalue⟩ := hscan.of_danglingName hscopes
  exact hvalue.not_ends

/-- Behind the value of an entry the reader stands in the same object. -/
private theorem inside_of_danglingName {fuel : Nat} (hscopes : r.scopes = .danglingName :: outer)
    (hpeeked : r.peeked = none) (houter : outer.length < maxDepth) (h : skipWith fuel r = .ok ⟨⟩ r') :
    Inside entryScope outer r' := by
  obtain ⟨k, r₁, hpeek, h⟩ := skipWith_ok h
  obtain ⟨r₁, hscan, rfl⟩ := (peek_iff hpeeked).1 hpeek
  obtain ⟨_, _, -, -, -, hscopes₁, hvalue⟩ := hscan.of_danglingName hscopes
  exact inside_of_skipWith hvalue hscopes₁ houter h

private theorem noMismatch_entries {fuel : Nat} (hskip : ∀ r, Begins r → NoMismatch (skipWith fuel) r) (n : Nat)
    (hr : Inside entryScope outer r) :
    NoMismatch (do whileNext n (do let _ ← nextName; skipWith fuel); endObject) r := by
  refine noMismatch_loop (.inl rfl) ?_ n r hr
  rintro r k r₁ ⟨⟨first, hscopes⟩, hpeeked, houter⟩ hpeek
  obtain ⟨r₁, hscan, rfl⟩ := (peek_iff hpeeked).1 hpeek
  rcases hscan.of_entries hscopes with ⟨rfl, _, s, -, -, hrest₁, hscopes₁⟩ | ⟨rfl, -⟩
  · have hname {name : String} {r₂ : Reader} (h : nextName { r₁ with peeked := some .name } = .ok name r₂) :
        r₂.scopes = .danglingName :: outer ∧ r₂.peeked = none := by
      obtain ⟨-, -, -, hscopes₂, hpeeked₂⟩ := spelled_of_nextName (r := { r₁ with peeked := some .name }) rfl hrest₁
        (hscopes₁.trans hscopes) h
      exact ⟨hscopes₂, hpeeked₂⟩
    refine .inr ⟨by simp [Ends], ?_, fun r₃ h => ?_⟩
    · refine (refuses_nextName.noMismatch (peek_idem hpeek) (absurd rfl)).bind fun name r₂ h => hskip r₂ ?_
      obtain ⟨hscopes₂, hpeeked₂⟩ := hname h
      exact begins_of_danglingName hscopes₂ hpeeked₂
    · obtain ⟨name, r₂, h, hvalue⟩ := bind_eq_ok.1 h
      obtain ⟨hscopes₂, hpeeked₂⟩ := hname h
      exact inside_of_danglingName hscopes₂ hpeeked₂ houter hvalue
  · exact .inl rfl

/-! ### Skipping -/

/-- A skip begun at a value or a name meets no token of another kind than it asks for. -/
private theorem noMismatch_skipKind {fuel : Nat} (hskip : ∀ r, Begins r → NoMismatch (skipWith fuel) r)
    (hpeek : peek r = .ok k r₁) (hk : ¬Ends k) : NoMismatch (skipKind fuel k) r := by
  cases k with
  | beginObject =>
    refine ((refuses_begin _ _).noMismatch hpeek (absurd rfl)).bind fun _ r₂ hopen => ?_
    obtain ⟨outer, hinside⟩ := inside_of_enter entryScope hopen
    exact noMismatch_entries hskip _ hinside
  | beginArray =>
    refine ((refuses_begin _ _).noMismatch hpeek (absurd rfl)).bind fun _ r₂ hopen => ?_
    obtain ⟨outer, hinside⟩ := inside_of_enter itemScope hopen
    exact noMismatch_items hskip _ hinside
  | string | number => exact (refuses_nextString.noMismatch hpeek (by simp)).bind fun _ _ _ => .of_ok rfl
  | boolean => exact (refuses_nextBool.noMismatch hpeek (absurd rfl)).bind fun _ _ _ => .of_ok rfl
  | null => exact refuses_nextNull.noMismatch hpeek (absurd rfl)
  | name => exact (refuses_nextName.noMismatch hpeek (absurd rfl)).bind fun _ _ _ => .of_ok rfl
  | endObject | endArray | endDocument => simp [Ends] at hk

private theorem noMismatch_skipWith (fuel : Nat) : ∀ r, Begins r → NoMismatch (skipWith fuel) r := by
  induction fuel with
  | zero => exact fun _ _ => .throw rfl
  | succ fuel ih =>
    intro r hr
    refine .of_looksFirst (looksFirst_skipWith fuel) fun k r₁ hpeek => ?_
    exact (noMismatch_skipKind ih (peek_idem hpeek) (hr k r₁ hpeek)).congr (skipWith_of_peek fuel (peek_idem hpeek))

private theorem refuses_skipValue : Refuses Ends skipValue := by
  unfold skipValue
  rw [skipWith_succ]
  refine .of_kinds fun k r hpeek => ?_
  by_cases hk : Ends k
  · refine .inl ⟨hk, "a value", ?_⟩
    rcases hk with rfl | rfl | rfl <;> rfl
  · exact .inr (noMismatch_skipKind (noMismatch_skipWith _) hpeek hk)

/-! ### Calls -/

/-- No call of a reader goes on behind its first token if it finds a token of another kind than it asks for. -/
private theorem Request.refuses (q : Request) : ∃ p, Refuses p q.run := by
  cases q with
  | peek => exact ⟨_, refuses_peek.bind fun _ _ => .of_ok rfl⟩
  | hasNext => exact ⟨_, refuses_hasNext.bind fun _ _ => .of_ok rfl⟩
  | beginObject => exact ⟨_, (refuses_begin _ _).bind fun _ _ => .of_ok rfl⟩
  | endObject => exact ⟨_, (refuses_end _).bind fun _ _ => .of_ok rfl⟩
  | beginArray => exact ⟨_, (refuses_begin _ _).bind fun _ _ => .of_ok rfl⟩
  | endArray => exact ⟨_, (refuses_end _).bind fun _ _ => .of_ok rfl⟩
  | name => exact ⟨_, refuses_nextName.bind fun _ _ => .of_ok rfl⟩
  | string => exact ⟨_, refuses_nextString.bind fun _ _ => .of_ok rfl⟩
  | number => exact ⟨_, refuses_nextNumber.bind fun _ _ => .of_ok rfl⟩
  | bool => exact ⟨_, refuses_nextBool.bind fun _ _ => .of_ok rfl⟩
  | null => exact ⟨_, refuses_nextNull.bind fun _ _ => .of_ok rfl⟩
  | int => exact ⟨_, (refuses_nextNumber.bind fun _ _ => noMismatch_integerOf _).bind fun _ _ => .of_ok rfl⟩
  | float => exact ⟨_, refuses_nextFloat.bind fun _ _ => .of_ok rfl⟩
  | skip => exact ⟨_, refuses_skipValue.bind fun _ _ => .of_ok rfl⟩

/-- **Mismatches.**  A call that finds a token of another kind than it asks for leaves the reader as a look at the
token does, and what later calls give is as if it had not been made. -/
theorem run_unexpectedToken {q : Request} {r r' : Reader} {expected : String} {found : TokenKind} {o : Nat}
    (h : q.run r = .error (.unexpectedToken expected found o) r') :
    peek r = .ok found r' ∧ o = r'.offset ∧ ∀ qs, (runAll Request.run qs r').1 = (runAll Request.run qs r).1 := by
  obtain ⟨p, hrefuses⟩ := q.refuses
  obtain ⟨hpeek, ho, -⟩ := hrefuses r expected found o r' h
  exact ⟨hpeek, ho, runAll_congr fun q => q.looksFirst.after_peek hpeek⟩

/-- A number is asked for as a flag: the comma in front of it is passed, as by a look. -/
theorem run_unexpectedToken_number :
    let r := (runAll Request.run [.beginArray, .number] (ofText ['[', '1', ',', ' ', '2', ']'])).2
    let r' : Reader := ⟨⟨['2', ']'], 4⟩, true, [.nonEmptyArray], some .number⟩
    Request.run .bool r = .error (.unexpectedToken "BOOLEAN" .number 4) r' ∧ peek r = .ok .number r' ∧ 4 = r'.offset ∧
      ∀ qs, (runAll Request.run qs r').1 = (runAll Request.run qs r).1 :=
  ⟨rfl, @run_unexpectedToken .bool _ ⟨⟨['2', ']'], 4⟩, true, [.nonEmptyArray], some .number⟩ "BOOLEAN" .number 4 rfl⟩

end Reader

end Marshal
