import Marshal.Converter.Read
import Marshal.Proofs.Stream.Looks

/-!
# Framing

A read that succeeds takes exactly one value off the document: skipping from the same place succeeds as well and ends
in the same state of the reader.  This holds of every converter without code of the caller's own, and from every state
of a reader (`skipValue_of_read`), so lenient reads never shift what comes after them.
-/

namespace Marshal

open Effect Reader

namespace Reader

variable {k : TokenKind} {r r₁ r' : Reader}

/-- Skipping a value goes by the kind of its first token. -/
theorem skipValue_of_peek (h : peek r = .ok k r₁) : skipValue r = skipKind (maxDepth + 1) k r₁ :=
  skipWith_of_peek _ h

/-! ### Leaves -/

theorem skipValue_of_nextString {s : String} (h : nextString r = .ok s r') : skipValue r = .ok ⟨⟩ r' := by
  obtain ⟨-, k, r₁, hpeek, hk⟩ := nextString_ok h
  rw [← looksFirst_nextString.after_peek hpeek] at h
  rw [skipValue_of_peek hpeek]
  rcases hk with rfl | rfl
  all_goals
    rw [skipKind, bind_of_ok h]
    rfl

theorem skipValue_of_nextNumber {s : String} (h : nextNumber r = .ok s r') : skipValue r = .ok ⟨⟩ r' :=
  skipValue_of_nextString (nextNumber_eq_nextString h)

theorem skipValue_of_nextBool {b : Bool} (h : nextBool r = .ok b r') : skipValue r = .ok ⟨⟩ r' := by
  obtain ⟨-, r₁, hpeek⟩ := nextBool_ok h
  rw [← looksFirst_nextBool.after_peek hpeek] at h
  rw [skipValue_of_peek hpeek, skipKind, bind_of_ok h]
  rfl

theorem skipValue_of_nextNull (h : nextNull r = .ok ⟨⟩ r') : skipValue r = .ok ⟨⟩ r' := by
  obtain ⟨-, r₁, hpeek⟩ := nextNull_ok h
  rw [← looksFirst_nextNull.after_peek hpeek] at h
  rw [skipValue_of_peek hpeek]
  exact h

/-- A value that can be skipped is not the end of a container. -/
private theorem hasNext_of_skipValue (h : skipValue r = .ok ⟨⟩ r') :
    ∃ k r₁, peek r = .ok k r₁ ∧ hasNext r = .ok true r₁ := by
  obtain ⟨k, r₁, hpeek, -⟩ := bind_eq_ok.1 h
  rw [skipValue_of_peek hpeek] at h
  refine ⟨k, r₁, hpeek, ?_⟩
  rw [hasNext_of_peek hpeek]
  cases k <;> first
    | rfl
    | cases h

/-! ### Loops -/

/-- A loop that carries a state along runs over the same tokens as a loop without one. -/
private theorem whileNext_of_foldNext {σ : Type} {step : σ → ReadM σ} {body : ReadM Unit} {d : Nat}
    (hstep : ∀ s r s' r', r.depth = d → step s r = .ok s' r' → body r = .ok ⟨⟩ r' ∧ r'.depth = d) :
    ∀ (fuel : Nat) (s : σ) (r : Reader) (s' : σ) (r' : Reader), r.depth = d →
      foldNext fuel step s r = .ok s' r' → whileNext fuel body r = .ok ⟨⟩ r' := by
  intro fuel
  induction fuel with
  | zero =>
    intro s r s' r' _ h
    cases h
  | succ fuel ih =>
    intro s r s' r' hr h
    obtain ⟨b, r₁, hnext, h⟩ := bind_eq_ok.1 h
    obtain ⟨k, hpeek, -⟩ := hasNext_ok hnext
    obtain ⟨-, hdepth, -, -⟩ := peek_ok hpeek
    rw [whileNext, bind_of_ok hnext]
    split at h
    · next hb =>
      obtain ⟨s₁, r₂, hs, h⟩ := bind_eq_ok.1 h
      obtain ⟨hbody, hd₂⟩ := hstep s r₁ s₁ r₂ (by omega) hs
      rw [if_pos hb, bind_of_ok (a := ⟨⟩) hbody]
      exact ih s₁ r₂ s' r' hd₂ h
    · next hb =>
      obtain ⟨-, rfl⟩ := ok_inj.1 h
      rw [if_neg hb]
      rfl

/-- A loop inside an array whose steps take one value each runs like the loop of a skip. -/
private theorem skipValue_of_array {σ : Type} {step : σ → ReadM σ} {s s' : σ} {r₂ : Reader}
    (hstep : ∀ s r s' r', step s r = .ok s' r' → skipValue r = .ok ⟨⟩ r') (hopen : beginArray r = .ok ⟨⟩ r₁)
    (hloop : overEntries step s r₁ = .ok s' r₂) (hclose : endArray r₂ = .ok ⟨⟩ r') : skipValue r = .ok ⟨⟩ r' := by
  obtain ⟨p, hpeek⟩ := (beginArray_ok hopen).peek_eq
  have hdepth := (beginArray_ok hopen).depth_eq
  rw [← looksFirst_beginArray.after_peek hpeek] at hopen
  unfold overEntries at hloop
  rw [bind_of_ok (get_apply r₁)] at hloop
  rw [skipValue_of_peek hpeek, skipKind, bind_of_ok hopen, bind_of_ok (get_apply r₁)]
  refine (bind_of_ok (a := ⟨⟩) ?_).trans hclose
  refine whileNext_of_foldNext ?_ _ _ _ _ _ rfl hloop
  intro s r s' r' hr h
  have hskip := hstep s r s' r' h
  have hd := (skipValue_consumes hskip).depth_eq
  exact ⟨skipWith_of_skipValue (by omega) hskip, by omega⟩

/-- A loop inside an object whose steps take a name and a value each runs like the loop of a skip. -/
private theorem skipValue_of_object {σ : Type} {step : σ → ReadM σ} {s s' : σ} {r₂ : Reader}
    (hstep : ∀ s r s' r', step s r = .ok s' r' →
      ∃ name r₁, nextName r = .ok name r₁ ∧ skipValue r₁ = .ok ⟨⟩ r') (hopen : beginObject r = .ok ⟨⟩ r₁)
    (hloop : overEntries step s r₁ = .ok s' r₂) (hclose : endObject r₂ = .ok ⟨⟩ r') : skipValue r = .ok ⟨⟩ r' := by
  obtain ⟨p, hpeek⟩ := (beginObject_ok hopen).peek_eq
  have hdepth := (beginObject_ok hopen).depth_eq
  rw [← looksFirst_beginObject.after_peek hpeek] at hopen
  unfold overEntries at hloop
  rw [bind_of_ok (get_apply r₁)] at hloop
  rw [skipValue_of_peek hpeek, skipKind, bind_of_ok hopen, bind_of_ok (get_apply r₁)]
  refine (bind_of_ok (a := ⟨⟩) ?_).trans hclose
  refine whileNext_of_foldNext ?_ _ _ _ _ _ rfl hloop
  intro s r s' r' hr h
  obtain ⟨name, r₁, hname, hskip⟩ := hstep s r s' r' h
  have hd₁ := (nextName_ok hname).depth_eq
  have hd := (skipValue_consumes hskip).depth_eq
  exact ⟨(bind_of_ok hname).trans (skipWith_of_skipValue (by omega) hskip), by omega⟩

/-- One more value in front of a loop that skips. -/
theorem whileNext_skip (fuel : Nat) (hr : 0 < r.depth) (h : skipValue r = .ok ⟨⟩ r') :
    whileNext (fuel + 1) (skipWith (maxDepth + 1)) r = whileNext fuel (skipWith (maxDepth + 1)) r' := by
  obtain ⟨k, r₁, hpeek, hnext⟩ := hasNext_of_skipValue h
  have hskip := skipWith_of_skipValue hr h
  rw [← (looksFirst_skipWith _).after_peek hpeek] at hskip
  rw [whileNext, bind_of_ok hnext, if_pos rfl, bind_of_ok hskip]

end Reader

/-! ### Computations that read nothing -/

/-- A computation that leaves the reader alone if it succeeds. -/
def Still {α : Type} (m : ReadM α) : Prop :=
  ∀ r a r', m r = .ok a r' → r' = r

namespace Still

variable {α β : Type}

private theorem pure (a : α) : Still (pure a) := fun _ _ _ h => (ok_inj.1 h).2.symm

private theorem throw (e : Error) : Still (throw e : ReadM α) := by
  intro r a r' h
  cases h

private theorem bind {m : ReadM α} {f : α → ReadM β} (hm : Still m) (hf : ∀ a, Still (f a)) : Still (m >>= f) := by
  intro r b r' h
  obtain ⟨a, r₁, ha, hb⟩ := bind_eq_ok.1 h
  exact (hf a _ _ _ hb).trans (hm _ _ _ ha)

private theorem ite {m n : ReadM α} {p : Prop} [Decidable p] (hm : Still m) (hn : Still n) :
    Still (if p then m else n) := by
  split
  · exact hm
  · exact hn

private theorem onText (s : List Char) (m : ReadM α) : Still (onText s m) := by
  intro r a r' h
  unfold Reader.onText at h
  cases hm : m.run (ofText s) with
  | ok => rw [hm] at h; exact (ok_inj.1 h).2.symm
  | error => rw [hm] at h; cases h

end Still

/-! ### Framed reads -/

/-- A computation is framed if each of its successful runs takes exactly what a skip takes. -/
def Framed {α : Type} (m : ReadM α) : Prop :=
  ∀ r a r', m r = .ok a r' → skipValue r = .ok ⟨⟩ r'

namespace Framed

variable {α β : Type}

/-- What is made of the result does not matter as long as the reader is left alone. -/
private theorem bind {m : ReadM α} {f : α → ReadM β} (hm : Framed m)
    (hf : ∀ a, Still (f a)) : Framed (m >>= f) := by
  intro r b r' h
  obtain ⟨a, r₁, ha, hb⟩ := bind_eq_ok.1 h
  rw [hf a _ _ _ hb]
  exact hm _ _ _ ha

private theorem map {m : ReadM α} (f : α → β) (hm : Framed m) : Framed (do return f (← m)) :=
  hm.bind fun _ => Still.pure _

/-- A computation that looks at the next token first is framed if what it does for each kind is. -/
private theorem of_peek {f : TokenKind → ReadM α}
    (hf : ∀ k r a r', peek r = .ok k r → f k r = .ok a r' → skipValue r = .ok ⟨⟩ r') : Framed (peek >>= f) := by
  intro r a r' h
  obtain ⟨k, r₁, hpeek, h⟩ := bind_eq_ok.1 h
  rw [← looksFirst_skipValue.after_peek hpeek]
  exact hf k r₁ a r' (peek_idem hpeek) h

private theorem nextString : Framed nextString := fun _ _ _ h => skipValue_of_nextString h

private theorem nextNumber : Framed nextNumber := fun _ _ _ h => skipValue_of_nextNumber h

private theorem nextBool : Framed nextBool := fun _ _ _ h => skipValue_of_nextBool h

private theorem nextNull : Framed nextNull := fun _ _ _ h => skipValue_of_nextNull h

private theorem skipMismatched (found : TokenKind) : Framed (skipMismatched found) := by
  intro r v r' h
  unfold Reader.skipMismatched at h
  split at h
  all_goals obtain ⟨_, r₁, hskip, hv⟩ := bind_eq_ok.1 h; obtain ⟨-, rfl⟩ := ok_inj.1 hv
  · exact nextNull _ _ _ hskip
  · exact hskip

private theorem readItems {item : ReadM (Option Value)} (hitem : Framed item) : Framed (readItems item) := by
  intro r items r' h
  obtain ⟨_, r₁, hopen, h⟩ := bind_eq_ok.1 h
  obtain ⟨s, r₂, hloop, h⟩ := bind_eq_ok.1 h
  obtain ⟨_, r₃, hclose, h⟩ := bind_eq_ok.1 h
  obtain ⟨-, rfl⟩ := ok_inj.1 h
  exact skipValue_of_array (fun _ => hitem.map _) hopen hloop hclose

private theorem readNamed {key : String → ReadM (String × Value)} {value : ReadM (Option Value)}
    (hkey : ∀ name, Still (key name)) (hvalue : Framed value) :
    Framed (readNamed key value) := by
  intro r entries r' h
  obtain ⟨_, r₁, hopen, h⟩ := bind_eq_ok.1 h
  obtain ⟨s, r₂, hloop, h⟩ := bind_eq_ok.1 h
  obtain ⟨_, r₃, hclose, h⟩ := bind_eq_ok.1 h
  obtain ⟨-, rfl⟩ := ok_inj.1 h
  refine skipValue_of_object ?_ hopen hloop hclose
  intro s r s' r' hstep
  obtain ⟨name, r₁, hname, hrest⟩ := bind_eq_ok.1 hstep
  obtain ⟨⟨identity, k⟩, r₂, hk, hrest⟩ := bind_eq_ok.1 hrest
  rw [hkey _ _ _ _ hk] at hrest
  refine ⟨name, r₁, hname, ?_⟩
  dsimp only at hrest
  split at hrest
  · cases hrest
  · obtain ⟨v, r₃, hv, hrest⟩ := bind_eq_ok.1 hrest
    rw [← (ok_inj.1 hrest).2]
    exact hvalue _ _ _ hv

/-- A pair is an array of two values. -/
private theorem pair {r r₁ r₂ r₃ r' : Reader} (hopen : beginArray r = .ok ⟨⟩ r₁) (hkey : skipValue r₁ = .ok ⟨⟩ r₂)
    (hvalue : skipValue r₂ = .ok ⟨⟩ r₃) (hclose : endArray r₃ = .ok ⟨⟩ r') : skipValue r = .ok ⟨⟩ r' := by
  obtain ⟨p, hpeek⟩ := (beginArray_ok hopen).peek_eq
  obtain ⟨q, hlast⟩ := (endArray_ok hclose).peek_eq
  have hdepth := (beginArray_ok hopen).depth_eq
  have hk := skipValue_consumes hkey
  have hv := skipValue_consumes hvalue
  have hfuel : ∃ n, r₁.cursor.rest.length + 1 = n + 1 + 1 + 1 := by
    have hlk := hk.left_lt
    have hlv := hv.left_lt
    refine ⟨r₁.cursor.rest.length - 2, ?_⟩
    unfold left at hlk hlv
    omega
  obtain ⟨n, hfuel⟩ := hfuel
  have hd₂ := hk.depth_eq
  have hloop : whileNext (r₁.cursor.rest.length + 1) (skipWith (maxDepth + 1)) r₁ = .ok ⟨⟩ q := by
    rw [hfuel, whileNext_skip _ (by omega) hkey, whileNext_skip _ (by omega) hvalue]
    exact whileNext_of_ends n _ hlast (.inr (.inl rfl))
  rw [← looksFirst_beginArray.after_peek hpeek] at hopen
  rw [skipValue_of_peek hpeek, skipKind, bind_of_ok hopen, bind_of_ok (get_apply r₁), bind_of_ok hloop,
    looksFirst_endArray.after_peek hlast]
  exact hclose

private theorem readPairs {key value : ReadM (Option Value)} (hkey : Framed key) (hvalue : Framed value) :
    Framed (readPairs key value) := by
  intro r entries r' h
  obtain ⟨_, r₁, hopen, h⟩ := bind_eq_ok.1 h
  obtain ⟨s, r₂, hloop, h⟩ := bind_eq_ok.1 h
  obtain ⟨_, r₃, hclose, h⟩ := bind_eq_ok.1 h
  obtain ⟨-, rfl⟩ := ok_inj.1 h
  refine skipValue_of_array ?_ hopen hloop hclose
  intro s r s' r' h
  obtain ⟨_, r₁, hopen, h⟩ := bind_eq_ok.1 h
  obtain ⟨k, r₂, hk, h⟩ := bind_eq_ok.1 h
  obtain ⟨v, r₃, hv, h⟩ := bind_eq_ok.1 h
  obtain ⟨_, r₄, hclose, h⟩ := bind_eq_ok.1 h
  have hr' : r' = r₄ := by
    split at h
    · cases h
    · exact (ok_inj.1 h).2.symm
  subst hr'
  exact pair hopen (hkey _ _ _ hk) (hvalue _ _ _ hv) hclose

end Framed

/-! ### Natives and values of any shape -/

private theorem Value.still_ofLexeme (lexeme : String) : Still (Value.ofLexeme lexeme) := by
  unfold Value.ofLexeme
  repeat' split
  all_goals first
    | exact Still.pure _
    | exact Still.throw _

private theorem Value.framed_readWith : ∀ fuel, Framed (Value.readWith fuel) := by
  intro fuel
  induction fuel with
  | zero =>
    intro r v r' h
    cases h
  | succ fuel ih =>
    refine Framed.of_peek ?_
    intro k r v r' hpeek h
    cases k
    case null => exact Framed.nextNull.bind (fun _ => Still.pure _) _ _ _ h
    case boolean => exact Framed.nextBool.map _ _ _ _ h
    case string => exact Framed.nextString.map _ _ _ _ h
    case number => exact Framed.nextNumber.bind (fun _ => (Value.still_ofLexeme _).bind fun _ => Still.pure _) _ _ _ h
    case beginArray => exact (Framed.readItems ih).map _ _ _ _ h
    case beginObject => exact (Framed.readNamed (fun _ => Still.pure _) ih).map _ _ _ _ h
    all_goals cases h

private theorem Value.framed_readAny : Framed Value.readAny := Value.framed_readWith _

namespace NativeKind

private theorem still_integerOf (text : String) : Still (integerOf text) := by
  unfold integerOf
  split
  · exact Still.pure _
  · exact Still.throw _

private theorem framed_readInt (kind : NativeKind) : Framed kind.readInt :=
  Framed.nextNumber.bind fun _ => (still_integerOf _).bind fun _ => (Still.pure _).ite (Still.throw _)

private theorem framed_nextFloat : Framed nextFloat := by
  refine Framed.nextNumber.bind fun _ => ?_
  split
  · exact Still.pure _
  · exact Still.throw _

private theorem framed_readLexeme : Framed readLexeme :=
  Framed.nextNumber.bind fun _ => (Still.pure _).ite (Still.throw _)

private theorem framed_readBigInt : Framed readBigInt :=
  Framed.nextNumber.bind fun _ => (Still.pure _).ite (Still.throw _)

private theorem framed_readAddress : Framed readAddress := by
  refine Framed.nextString.bind fun _ => ?_
  split
  · exact Still.pure _
  · exact Still.throw _

private theorem still_charOf (text : String) : Still (charOf text) := by
  unfold charOf
  split
  · exact Still.pure _
  · exact Still.throw _

private theorem still_boolOf (text : String) : Still (boolOf text) := by
  unfold boolOf
  exact (Still.pure _).ite ((Still.pure _).ite (Still.throw _))

private theorem framed_readBool : Framed bool.readValue := by
  refine Framed.of_peek ?_
  intro k r v r' _ h
  split at h
  · exact Framed.nextBool.map _ _ _ _ h
  · exact Framed.nextString.bind (fun _ => (still_boolOf _).bind fun _ => Still.pure _) _ _ _ h

private theorem framed_readValue (kind : NativeKind) : Framed kind.readValue := by
  cases kind
  case bool => exact framed_readBool
  case i8 | i16 | i32 | i64 => exact (framed_readInt _).map _
  case f32 | f64 => exact framed_nextFloat.map _
  case char => exact Framed.nextString.bind fun _ => (still_charOf _).bind fun _ => Still.pure _
  case string | path => exact Framed.nextString.map _
  case bigInt => exact framed_readBigInt.map _
  case bigDecimal | number => exact framed_readLexeme.map _
  case ipAddr => exact framed_readAddress.map _
  case json => exact Value.framed_readAny

theorem framed_read (kind : NativeKind) : Framed kind.read := by
  refine Framed.of_peek ?_
  intro k r v r' _ h
  split at h
  · exact Framed.nextNull.bind (fun _ => Still.pure _) _ _ _ h
  · exact kind.framed_readValue _ _ _ h

private theorem still_readKey (kind : NativeKind) (name : String) : Still (kind.readKey name) :=
  (Still.onText _ _).bind fun _ => Still.pure _

end NativeKind

/-! ### Codecs and adapters -/

theorem Codec.framed_readWith {call : Nat → ReadM (Option Value)} (hcall : ∀ index, Framed (call index)) (c : Codec) :
    Framed (c.readWith call) := by
  induction c with
  | native kind => exact kind.framed_read
  | binding index => exact hcall index
  | dynamic => exact Value.framed_readAny
  | runtimeType declared ih => exact ih
  | split write read _ ih => exact ih
  | attached index nullSafe =>
    cases nullSafe with
    | false => exact hcall index
    | true =>
      refine Framed.of_peek ?_
      intro k r v r' _ h
      split at h
      · exact Framed.nextNull.bind (fun _ => Still.pure _) _ _ _ h
      · exact hcall index _ _ _ h
  | sequence element i ih =>
    refine Framed.of_peek ?_
    intro k r v r' _ h
    cases k
    case beginArray => exact (Framed.readItems ih).map _ _ _ _ h
    all_goals exact Framed.skipMismatched _ _ _ _ h
  | objectMap key value i ih =>
    refine Framed.of_peek ?_
    intro k r v r' _ h
    cases k
    case beginObject => exact (Framed.readNamed key.still_readKey ih).map _ _ _ _ h
    case beginArray => exact (Framed.readPairs key.framed_read ih).map _ _ _ _ h
    all_goals exact Framed.skipMismatched _ _ _ _ h
  | pairMap key value i ihk ihv =>
    refine Framed.of_peek ?_
    intro k r v r' _ h
    cases k
    case beginArray => exact (Framed.readPairs ihk ihv).map _ _ _ _ h
    case beginObject =>
      exact (Framed.readNamed (fun _ => (Still.onText _ _).bind fun _ => Still.pure _) ihv).map _ _ _ _ h
    all_goals exact Framed.skipMismatched _ _ _ _ h

private theorem EnumAdapter.framed_read (a : EnumAdapter) : Framed a.read := by
  refine Framed.of_peek ?_
  intro k r v r' _ h
  cases k
  case string | number => exact Framed.nextString.map _ _ _ _ h
  all_goals exact Framed.skipMismatched _ _ _ _ h

namespace ReadProcedure

/-- Every entry of an object is a name and one value, whatever becomes of it. -/
private theorem readEntry_ok {p : ReadProcedure} {call : Nat → ReadM (Option Value)}
    (hcall : ∀ index, Framed (call index)) {fields fields' : Fields} {r r' : Reader}
    (h : p.readEntry call fields r = .ok fields' r') :
    ∃ name r₁, nextName r = .ok name r₁ ∧ skipValue r₁ = .ok ⟨⟩ r' := by
  obtain ⟨name, r₁, hname, hrest⟩ := bind_eq_ok.1 h
  refine ⟨name, r₁, hname, ?_⟩
  cases hf : p.field? name with
  | none =>
    simp only [hf] at hrest
    obtain ⟨_, r₂, hskip, hrest⟩ := bind_eq_ok.1 hrest
    rw [← (ok_inj.1 hrest).2]
    exact hskip
  | some f =>
    simp only [hf] at hrest
    revert hrest
    refine Framed.of_peek (α := Fields) ?_ r₁ fields' r'
    intro k r v r' _ h
    split at h
    · exact Framed.nextNull.bind (fun _ => Still.pure _) _ _ _ h
    · split at h
      · obtain ⟨_, r₂, hskip, h⟩ := bind_eq_ok.1 h
        rw [← (ok_inj.1 h).2]
        exact hskip
      · refine (Codec.framed_readWith hcall f.codec).bind (fun v => ?_) _ _ _ h
        split <;> exact Still.pure _

private theorem framed_read (p : ReadProcedure) (target : TypeRef) {call : Nat → ReadM (Option Value)}
    (hcall : ∀ index, Framed (call index)) : Framed (p.read target call) := by
  refine Framed.of_peek ?_
  intro k r v r' _ h
  cases k
  case beginObject =>
    obtain ⟨_, r₁, hopen, h⟩ := bind_eq_ok.1 h
    obtain ⟨fields, r₂, hloop, h⟩ := bind_eq_ok.1 h
    obtain ⟨_, r₃, hclose, h⟩ := bind_eq_ok.1 h
    have hr' : r' = r₃ := by
      cases hm : p.missing? fields with
      | none =>
        simp only [hm] at h
        exact (ok_inj.1 h).2.symm
      | some name =>
        simp only [hm] at h
        cases h
    rw [hr']
    exact skipValue_of_object (fun _ _ _ _ h => readEntry_ok hcall h) hopen hloop hclose
  all_goals exact Framed.skipMismatched _ _ _ _ h

end ReadProcedure

/-! ### Converters -/

theorem Delegates.mem_of_find? {ds : Delegates} {id : Nat} {c : Converter} (h : ds.find? id = some c) :
    (id, c) ∈ ds := by
  obtain ⟨l₁, l₂, hl, -⟩ := List.lookup_eq_some_iff.1 h
  simp [hl]

namespace Converter

/-- A converter without code of the caller's own, however deep its bindings go. -/
inductive Plain : Converter → Prop
  | native (id : Nat) (kind : NativeKind) : Plain (.native id kind)
  | dynamic (id : Nat) (linked : Bool) : Plain (.dynamic id linked)
  | codec (id : Nat) (c : Codec) {bindings : List Converter} (h : ∀ b ∈ bindings, Plain b) :
    Plain (.codec id c bindings)
  | enum (id : Nat) (adapter : EnumAdapter) : Plain (.enum id adapter)
  | struct (id : Nat) (adapter : StructAdapter) (target : TypeRef) {bindings : List Converter} (linked : Bool)
    (h : ∀ b ∈ bindings, Plain b) : Plain (.struct id adapter target bindings linked)
  | placeholder (id : Nat) (ty : TypeRef) : Plain (.placeholder id ty)

/-- Bindings of framed reads are framed, and a binding that is missing is no successful read. -/
theorem framed_callBinding {read : Converter → ReadM (Option Value)} {bindings : List Converter}
    (h : ∀ b ∈ bindings, Framed (read b)) (index : Nat) : Framed (callBinding read bindings index) := by
  unfold callBinding
  cases hb : bindings[index]? with
  | none =>
    intro r v r' hr
    cases hr
  | some b => exact h b (List.mem_of_getElem? hb)

theorem framed_read {delegates : Delegates} (hd : ∀ d ∈ delegates, d.2.Plain) :
    ∀ (fuel : Nat) (c : Converter), c.Plain → Framed (c.read delegates fuel) := by
  intro fuel
  induction fuel with
  | zero =>
    intro c _ r v r' h
    cases h
  | succ fuel ih =>
    intro c hc
    cases hc with
    | native id kind => exact kind.framed_read
    | dynamic id linked => exact Value.framed_readAny
    | codec id c hb => exact Codec.framed_readWith (framed_callBinding fun b hm => ih b (hb b hm)) c
    | enum id adapter => exact adapter.framed_read
    | struct id adapter target linked hb =>
      exact adapter.read.framed_read target (framed_callBinding fun b hm => ih b (hb b hm))
    | placeholder id ty =>
      intro r v r' h
      rw [read] at h
      cases hf : delegates.find? id with
      | none =>
        simp only [hf] at h
        cases h
      | some c =>
        simp only [hf] at h
        exact ih c (hd _ (Delegates.mem_of_find? hf)) _ _ _ h

/-- A text that is read holds one value, and nothing behind it. -/
theorem fromJson_ok {delegates : Delegates} {c : Converter} {fuel : Nat} {text : String} {v : Option Value}
    (h : c.fromJson delegates fuel text = .ok v) :
    ∃ r r', c.read delegates fuel (ofText text.toList) = .ok v r ∧ peek r = .ok .endDocument r' := by
  unfold fromJson at h
  split at h
  · next v' r' hdocument =>
    obtain rfl := Except.ok.inj h
    obtain ⟨v, r, hread, hrest⟩ := bind_eq_ok.1 hdocument
    obtain ⟨found, r₁, hend, hrest⟩ := bind_eq_ok.1 hrest
    cases found with
    | endDocument =>
      obtain ⟨rfl, -⟩ := ok_inj.1 hrest
      exact ⟨r, r₁, hread, hend⟩
    | _ => cases hrest
  · cases h

/-- **Framing.**  If a converter without code of the caller's own reads successfully, then a skip from the same reader
succeeds too and leaves the same reader. -/
theorem skipValue_of_read {delegates : Delegates} {c : Converter} {fuel : Nat} {r r' : Reader} {v : Option Value}
    (hd : ∀ d ∈ delegates, d.2.Plain) (hc : c.Plain) (h : c.read delegates fuel r = .ok v r') :
    skipValue r = .ok ⟨⟩ r' :=
  framed_read hd fuel c hc r v r' h

/-- A structure with one field of its own type, which it reaches through placeholder 0. -/
private def chain : Converter :=
  .struct 1 ⟨.named "Chain" [], ⟨[], false, false⟩, [], [], ⟨[⟨"n", "n", ⟨"", ""⟩, [], .binding 0⟩], []⟩⟩
    (.named "Chain" []) [.placeholder 0 (.named "Chain" [])] false

private theorem chain_plain : chain.Plain :=
  .struct _ _ _ _ fun b hb => by
    obtain rfl := List.mem_singleton.1 hb
    exact .placeholder _ _

/-- In the document the inner field holds a number, which is skipped, and an entry of an unknown name follows. -/
theorem skipValue_of_read_chain :
    let document := ['\x7b', '"', 'n', '"', ':', '\x7b', '"', 'n', '"', ':', '7', ',', '"', 'z', '"', ':', '[', ']',
      '\x7d', '\x7d']
    chain.read [(0, chain)] 5 (ofText document) =
        .ok (some (.object (.named "Chain" []) [("n", .object (.named "Chain" []) [])])) ⟨⟨[], 20⟩, true, [], none⟩ ∧
      skipValue (ofText document) = .ok ⟨⟩ ⟨⟨[], 20⟩, true, [], none⟩ := by
  refine ⟨rfl, @skipValue_of_read [(0, chain)] chain 5 _ _
    (some (.object (.named "Chain" []) [("n", .object (.named "Chain" []) [])])) ?_ chain_plain rfl⟩
  intro d hd
  obtain rfl := List.mem_singleton.1 hd
  exact chain_plain

end Converter

end Marshal
