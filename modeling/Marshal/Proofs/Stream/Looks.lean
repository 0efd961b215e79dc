import Marshal.Proofs.Stream.Skip

/-!
# Looking first

Every call of a reader looks at the next token before it does anything else (`Request.looksFirst`).  So a call does
the same once the token was looked at (`LooksFirst.after_peek`), and where the look fails it fails alike
(`LooksFirst.of_error`).
-/

namespace Marshal.Reader

open Effect

variable {α β : Type} {k : TokenKind} {r r₁ r' : Reader} {e : Error}

/-- The computation looks at the next token, and goes on with the kind that was found. -/
def LooksFirst (m : ReadM α) : Prop := ∃ f : TokenKind → ReadM α, m = peek >>= f

namespace LooksFirst

variable {m : ReadM α}

theorem bind (h : LooksFirst m) (f : α → ReadM β) : LooksFirst (m >>= f) := by
  obtain ⟨g, rfl⟩ := h
  exact ⟨fun k => g k >>= f, bind_assoc ..⟩

/-- Where the looks agree, so do the runs. -/
theorem congr (h : LooksFirst m) (hpeek : peek r = peek r₁) : m r = m r₁ := by
  obtain ⟨f, rfl⟩ := h
  exact bind_congr_run hpeek

/-- Once the token was looked at, the computation does what it would have done. -/
theorem after_peek (h : LooksFirst m) (hpeek : peek r = .ok k r₁) : m r₁ = m r :=
  h.congr ((peek_idem hpeek).trans hpeek.symm)

theorem of_error (h : LooksFirst m) (hpeek : peek r = .error e r') : m r = .error e r' := by
  obtain ⟨f, rfl⟩ := h
  exact bind_of_error hpeek

end LooksFirst

/-! ### Calls -/

private theorem looksFirst_peek : LooksFirst peek := ⟨pure, (bind_pure _).symm⟩

private theorem looksFirst_hasNext : LooksFirst hasNext := ⟨_, rfl⟩

private theorem looksFirst_expect (kind : TokenKind) : LooksFirst (expect kind) := ⟨_, rfl⟩

theorem looksFirst_beginObject : LooksFirst beginObject := (looksFirst_expect _).bind _

theorem looksFirst_endObject : LooksFirst endObject := (looksFirst_expect _).bind _

theorem looksFirst_beginArray : LooksFirst beginArray := (looksFirst_expect _).bind _

theorem looksFirst_endArray : LooksFirst endArray := (looksFirst_expect _).bind _

theorem looksFirst_nextName : LooksFirst nextName := (looksFirst_expect _).bind _

theorem looksFirst_nextString : LooksFirst nextString := ⟨_, rfl⟩

private theorem looksFirst_nextNumber : LooksFirst nextNumber := ⟨_, rfl⟩

theorem looksFirst_nextBool : LooksFirst nextBool := (looksFirst_expect _).bind _

theorem looksFirst_nextNull : LooksFirst nextNull := (looksFirst_expect _).bind _

theorem looksFirst_whileNext (n : Nat) (step : ReadM Unit) : LooksFirst (whileNext (n + 1) step) :=
  looksFirst_hasNext.bind _

theorem looksFirst_skipWith (fuel : Nat) : LooksFirst (skipWith (fuel + 1)) := ⟨_, skipWith_succ fuel⟩

theorem looksFirst_skipValue : LooksFirst skipValue := looksFirst_skipWith _

/-- Every call looks at the next token first. -/
theorem Request.looksFirst (q : Request) : LooksFirst q.run := by
  cases q with
  | peek => exact looksFirst_peek.bind _
  | hasNext => exact looksFirst_hasNext.bind _
  | beginObject => exact looksFirst_beginObject.bind _
  | endObject => exact looksFirst_endObject.bind _
  | beginArray => exact looksFirst_beginArray.bind _
  | endArray => exact looksFirst_endArray.bind _
  | name => exact looksFirst_nextName.bind _
  | string => exact looksFirst_nextString.bind _
  | number => exact looksFirst_nextNumber.bind _
  | bool => exact looksFirst_nextBool.bind _
  | null => exact looksFirst_nextNull.bind _
  | int => exact (looksFirst_nextNumber.bind _).bind _
  | float => exact (looksFirst_nextNumber.bind _).bind _
  | skip => exact looksFirst_skipValue.bind _

end Marshal.Reader
