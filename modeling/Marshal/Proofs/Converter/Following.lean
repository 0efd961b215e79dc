import Marshal.Proofs.Following
import Marshal.Proofs.Plan.Renumbered

/-!
# Codecs and adapters that follow each other

A codec, or an adapter, run over bindings follows one that is the same but for the indices, run over other bindings,
if the bindings that the indices lead to follow each other.  The reader is the same on both sides; of two documents
being written the texts are the same and the stores are related.
-/

namespace Marshal

open Effect Reader

/-! ### Reading -/

/-- From the same document the two read the same, and leave the same. -/
def ReadFollows {α : Type} (m : ReadM α) (m' : Nat → ReadM α) : Prop := Follows Eq Eq Eq m m'

namespace ReadFollows

variable {α β : Type}

/-- What one reader comes to, unless it runs out of fuel, the other one comes to. -/
theorem iff {m : ReadM α} {m' : Nat → ReadM α} :
    ReadFollows m m' ↔ ∀ r, (∃ r', m r = .error .outOfFuel r') ∨ ∃ n, ∀ k ≥ n, m' k r = m r := by
  have hagree (x y : EStateM.Result Error Reader α) : Agree Eq Eq Eq x y ↔ y = x := by
    cases x <;> cases y <;> simp [Agree, eq_comm]
  constructor
  · intro h r
    refine (h r r rfl).imp_right ?_
    rintro ⟨n, x, hx, heq⟩
    exact ⟨n, fun k hk => (hx k hk).trans ((hagree _ _).1 heq)⟩
  · rintro h r _ rfl
    refine (h r).imp_right ?_
    rintro ⟨n, hn⟩
    exact ⟨n, m r, hn, (hagree _ _).2 rfl⟩

theorem refl (m : ReadM α) : ReadFollows m fun _ => m := iff.2 fun _ => .inr ⟨0, fun _ _ => rfl⟩

theorem bind {m : ReadM α} {m' : Nat → ReadM α} {f : α → ReadM β} {f' : Nat → α → ReadM β} (h : ReadFollows m m')
    (hf : ∀ a, ReadFollows (f a) fun k => f' k a) : ReadFollows (m >>= f) fun k => m' k >>= f' k :=
  Follows.bind h fun a _ hab => hab ▸ hf a

private theorem ite {p : Prop} [Decidable p] {m₁ m₂ : ReadM α} {m₁' m₂' : Nat → ReadM α} (h₁ : ReadFollows m₁ m₁')
    (h₂ : ReadFollows m₂ m₂') : ReadFollows (if p then m₁ else m₂) fun k => if p then m₁' k else m₂' k :=
  Follows.ite h₁ h₂

end ReadFollows

section Reading

variable {σ : Type} {step : σ → ReadM σ} {step' : Nat → σ → ReadM σ}

private theorem follows_foldNext (h : ∀ s, ReadFollows (step s) fun k => step' k s) :
    ∀ fuel s, ReadFollows (foldNext fuel step s) fun k => foldNext fuel (step' k) s
  | 0, _ => .refl _
  | fuel + 1, s => by
    simp only [foldNext]
    exact .bind (.refl _) fun _ => .ite (.bind (h s) fun s => follows_foldNext h fuel s) (.refl _)

private theorem follows_overEntries (h : ∀ s, ReadFollows (step s) fun k => step' k s) (s : σ) :
    ReadFollows (overEntries step s) fun k => overEntries (step' k) s :=
  .bind (.refl _) fun _ => follows_foldNext h _ s

private theorem follows_readItems {item : ReadM (Option Value)} {item' : Nat → ReadM (Option Value)}
    (h : ReadFollows item item') : ReadFollows (readItems item) fun k => readItems (item' k) :=
  .bind (.refl _) fun _ => .bind (follows_overEntries (fun _ => .bind h fun _ => .refl _) _) fun _ => .refl _

private theorem follows_readNamed {key : String → ReadM (String × Value)}
    {key' : Nat → String → ReadM (String × Value)} {value : ReadM (Option Value)}
    {value' : Nat → ReadM (Option Value)} (hkey : ∀ name, ReadFollows (key name) fun k => key' k name)
    (hvalue : ReadFollows value value') :
    ReadFollows (readNamed key value) fun k => readNamed (key' k) (value' k) := by
  refine .bind (.refl _) fun _ => .bind (follows_overEntries (fun s => ?_) _) fun _ => .refl _
  refine .bind (.refl _) fun name => .bind (hkey name) fun entry => ?_
  exact .ite (.refl _) (.bind hvalue fun _ => .refl _)

private theorem follows_readPairs {key value : ReadM (Option Value)} {key' value' : Nat → ReadM (Option Value)}
    (hkey : ReadFollows key key') (hvalue : ReadFollows value value') :
    ReadFollows (readPairs key value) fun k => readPairs (key' k) (value' k) := by
  refine .bind (.refl _) fun _ => .bind (follows_overEntries (fun s => ?_) _) fun _ => .refl _
  exact .bind (.refl _) fun _ => .bind hkey fun _ => .bind hvalue fun _ => .refl _

private theorem follows_onText {α : Type} {m : ReadM α} {m' : Nat → ReadM α} (s : List Char) (h : ReadFollows m m') :
    ReadFollows (onText s m) fun k => onText s (m' k) := by
  refine ReadFollows.iff.2 fun r => ?_
  rcases ReadFollows.iff.1 h (ofText s) with ⟨r', hout⟩ | ⟨n, hn⟩
  · exact .inl ⟨r, by simp only [onText, EStateM.run, hout, throw_apply]⟩
  · exact .inr ⟨n, fun k hk => by simp only [onText, EStateM.run, hn k hk]⟩

/-! Codecs whose parts follow each other -/

variable {call : Nat → ReadM (Option Value)} {call' : Nat → Nat → ReadM (Option Value)}

theorem Codec.follows_sequence {c c' : Codec} {i i' : Instantiator}
    (h : ReadFollows (c.readWith call) fun k => c'.readWith (call' k)) :
    ReadFollows ((sequence c i).readWith call) fun k => (sequence c' i').readWith (call' k) := by
  refine .bind (.refl peek) fun kind => ?_
  cases kind with
  | beginArray => exact .bind (follows_readItems h) fun _ => .refl _
  | _ => exact .refl _

theorem Codec.follows_objectMap {key : NativeKind} {c c' : Codec} {i i' : Instantiator}
    (h : ReadFollows (c.readWith call) fun k => c'.readWith (call' k)) :
    ReadFollows ((objectMap key c i).readWith call) fun k => (objectMap key c' i').readWith (call' k) := by
  refine .bind (.refl peek) fun kind => ?_
  cases kind with
  | beginObject => exact .bind (follows_readNamed (fun _ => .refl _) h) fun _ => .refl _
  | beginArray => exact .bind (follows_readPairs (.refl _) h) fun _ => .refl _
  | _ => exact .refl _

theorem Codec.follows_pairMap {key key' c c' : Codec} {i i' : Instantiator}
    (hkey : ReadFollows (key.readWith call) fun k => key'.readWith (call' k))
    (h : ReadFollows (c.readWith call) fun k => c'.readWith (call' k)) :
    ReadFollows ((pairMap key c i).readWith call) fun k => (pairMap key' c' i').readWith (call' k) := by
  refine .bind (.refl peek) fun kind => ?_
  cases kind with
  | beginArray => exact .bind (follows_readPairs hkey h) fun _ => .refl _
  | beginObject =>
    exact .bind (follows_readNamed (fun _ => .bind (follows_onText _ hkey) fun _ => .refl _) h) fun _ => .refl _
  | _ => exact .refl _

variable {I : Nat → Nat → Prop}

theorem Codec.Renumbered.follows_readWith {c c' : Codec} (h : Renumbered I c c')
    (hcall : ∀ i j, I i j → ReadFollows (call i) fun k => call' k j) :
    ReadFollows (c.readWith call) fun k => c'.readWith (call' k) := by
  induction h with
  | native kind => exact .refl _
  | binding hij => exact hcall _ _ hij
  | dynamic => exact .refl _
  | runtimeType _ ih => exact ih
  | sequence i _ ih => exact follows_sequence ih
  | objectMap kind i _ ih => exact follows_objectMap ih
  | pairMap i _ _ ihk ihv => exact follows_pairMap ihk ihv
  | attached nullSafe hij =>
    cases nullSafe with
    | true => exact .bind (.refl peek) fun _ => .ite (.refl _) (hcall _ _ hij)
    | false => exact hcall _ _ hij
  | split _ _ _ ih => exact ih

/-- The fields are recognized by one name, and where reading counts their codecs are the same but for the indices. -/
structure FieldRead.Like (I : Nat → Nat → Prop) (f f' : FieldRead) : Prop where
  name : f.name = f'.name
  serializedName : f.serializedName = f'.serializedName
  accepts : f.accepts = f'.accepts
  reading : f.codec.reading.Renumbered I f'.codec.reading

structure ReadProcedure.Like (I : Nat → Nat → Prop) (p p' : ReadProcedure) : Prop where
  fields : List.Forall₂ (FieldRead.Like I) p.fields p'.fields
  nonNull : p.nonNull = p'.nonNull

namespace ReadProcedure.Like

variable {p p' : ReadProcedure}

theorem refl (p : ReadProcedure) : p.Like Eq p where
  fields := List.forall₂_same.2 fun _ _ => ⟨rfl, rfl, rfl, .refl _⟩
  nonNull := rfl

theorem symm {J : Nat → Nat → Prop} (hIJ : ∀ i j, I i j → J j i) (h : p.Like I p') : p'.Like J p where
  fields :=
    h.fields.flip.imp fun _ _ hf => ⟨hf.name.symm, hf.serializedName.symm, hf.accepts.symm, hf.reading.symm hIJ⟩
  nonNull := h.nonNull.symm

private theorem field? (h : p.Like I p') (name : String) : (p.field? name = none ∧ p'.field? name = none) ∨
    ∃ f f', p.field? name = some f ∧ p'.field? name = some f' ∧ f.Like I f' := by
  have hfields := h.fields
  unfold ReadProcedure.field?
  generalize p.fields = fs, p'.fields = fs' at hfields ⊢
  induction hfields with
  | nil => exact .inl ⟨rfl, rfl⟩
  | @cons f f' fs fs' hf _ ih =>
    simp only [List.find?_cons, hf.serializedName]
    cases f'.serializedName == name with
    | true => exact .inr ⟨f, f', rfl, rfl, hf⟩
    | false => exact ih

variable (h : p.Like I p') (hcall : ∀ i j, I i j → ReadFollows (call i) fun k => call' k j)

include h hcall

private theorem follows_readEntry (fields : Fields) :
    ReadFollows (p.readEntry call fields) fun k => p'.readEntry (call' k) fields := by
  refine .bind (.refl nextName) fun name => ?_
  rcases h.field? name with ⟨hf, hf'⟩ | ⟨f, f', hf, hf', hlike⟩
  · simp only [hf, hf']
    exact .refl _
  · have hnull : f.codec.readsNull = f'.codec.readsNull := by
      rw [← f.codec.readsNull_reading, hlike.reading.readsNull_eq, f'.codec.readsNull_reading]
    have hread := hlike.reading.follows_readWith hcall
    simp only [Codec.readWith_reading] at hread
    simp only [hf, hf', hlike.name, hlike.accepts, hnull]
    exact .bind (.refl peek) fun token => .ite (.refl _) (.ite (.refl _) (.bind hread fun v => .refl _))

theorem follows_read (target : TypeRef) : ReadFollows (p.read target call) fun k => p'.read target (call' k) := by
  have hmissing : p.missing? = p'.missing? := by
    funext fields
    rw [ReadProcedure.missing?, ReadProcedure.missing?, h.nonNull]
  refine .bind (.refl peek) fun kind => ?_
  cases kind with
  | beginObject =>
    simp only [hmissing]
    exact .bind (.refl _) fun _ => .bind (follows_overEntries (h.follows_readEntry hcall) _) fun _ => .refl _
  | _ => exact .refl _

end ReadProcedure.Like

end Reading

/-! ### Writing -/

/-- The same document, and stores related by `S`. -/
def Beside (S : Store → Store → Prop) (w w' : Writing) : Prop := w.writer = w'.writer ∧ S w.store w'.store

/-- Begun with the same document, the two write the same, and the stores stay related. -/
def WriteFollows {α : Type} (S : Store → Store → Prop) (m : WriteM α) (m' : Nat → WriteM α) : Prop :=
  Follows (Beside S) (Beside S) Eq m m'

open WriteM (token)

namespace WriteFollows

variable {S : Store → Store → Prop} {α β : Type}

private theorem bind {m : WriteM α} {m' : Nat → WriteM α} {f : α → WriteM β} {f' : Nat → α → WriteM β}
    (h : WriteFollows S m m') (hf : ∀ a, WriteFollows S (f a) fun k => f' k a) :
    WriteFollows S (m >>= f) fun k => m' k >>= f' k :=
  Follows.bind h fun a _ hab => hab ▸ hf a

private theorem ite {p : Prop} [Decidable p] {m₁ m₂ : WriteM α} {m₁' m₂' : Nat → WriteM α}
    (h₁ : WriteFollows S m₁ m₁') (h₂ : WriteFollows S m₂ m₂') :
    WriteFollows S (if p then m₁ else m₂) fun k => if p then m₁' k else m₂' k :=
  Follows.ite h₁ h₂

private theorem pure (a : α) : WriteFollows S (pure a) fun _ => pure a := Follows.pure rfl

theorem throw (e : Error) : WriteFollows S (throw e : WriteM α) fun _ => throw e := Follows.throw (fun _ _ => id) e

theorem token (m : TokenM α) : WriteFollows S (token m) fun _ => WriteM.token m := by
  refine .of_agree fun w w' hw => ?_
  simp only [WriteM.token, ← hw.1]
  cases m w.writer with
  | ok a writer => exact ⟨rfl, rfl, hw.2⟩
  | error e writer => exact ⟨rfl, rfl, hw.2⟩

end WriteFollows

/-- What the registry does leaves the document as it is. -/
theorem Follows.registry {S : Store → Store → Prop} {α β : Type} {A : α → β → Prop} {m : EStateM Error Store α}
    {m' : Nat → EStateM Error Store β} (h : Follows S S A m m') :
    Follows (Beside S) (Beside S) A (WriteM.registry m) fun k => WriteM.registry (m' k) := by
  rintro w w' ⟨hwriter, hstores⟩
  rcases h w.store w'.store hstores with ⟨s, hout⟩ | ⟨n, x, hx, hagree⟩
  · exact .inl ⟨{ w with store := s }, by simp only [WriteM.registry, hout]⟩
  · refine .inr ⟨n, WriteM.registry (fun _ => x) w', fun k hk => by simp only [WriteM.registry, hx k hk], ?_⟩
    cases hm : m w.store with
    | ok a s =>
      rw [hm] at hagree
      obtain ⟨b, s', rfl, hab, hs⟩ := hagree.of_ok
      simp only [WriteM.registry, hm]
      exact ⟨hab, hwriter, hs⟩
    | error e s =>
      rw [hm] at hagree
      obtain ⟨s', rfl, hs⟩ := hagree.of_error
      simp only [WriteM.registry, hm]
      exact ⟨rfl, hwriter, hs⟩

/-- On both sides typed values have writers that follow each other, or on both sides they have none. -/
inductive TypedFollows (S : Store → Store → Prop) : TypedWriter → (Nat → TypedWriter) → Prop
  | none : TypedFollows S none fun _ => none
  | some {write : TypeRef → Value → WriteM Unit} {write' : Nat → TypeRef → Value → WriteM Unit}
    (h : ∀ ty v, WriteFollows S (write ty v) fun k => write' k ty v) :
    TypedFollows S (some write) fun k => some (write' k)

section Writing

variable {S : Store → Store → Prop} {typed : TypedWriter} {typed' : Nat → TypedWriter}

private theorem follows_mismatch (expected : String) (v : Value) :
    WriteFollows S (v.mismatch expected : WriteM Unit) fun _ => v.mismatch expected := .throw _

private theorem follows_writeTyped (ht : TypedFollows S typed typed') (v : Value) {otherwise : WriteM Unit}
    {otherwise' : Nat → WriteM Unit} (h : WriteFollows S otherwise otherwise') :
    WriteFollows S (v.writeTyped typed otherwise) fun k => v.writeTyped (typed' k) (otherwise' k) := by
  cases ht with
  | none => exact h
  | some hwrite => exact .ite h (hwrite _ v)

mutual

theorem follows_writeAny (ht : TypedFollows S typed typed') :
    ∀ v : Value, WriteFollows S (v.writeAny typed) fun k => v.writeAny (typed' k)
  | .null => .token _
  | .bool _ => .token _
  | .int _ => .token _
  | .float _ => .token _
  | .bigInt _ | .decimal _ | .number _ => .token _
  | .char _ => .token _
  | .str _ | .path _ => .token _
  | .ip _ => .token _
  | .enum ty c => by
    simp only [Value.writeAny]
    exact follows_writeTyped ht _ (.token _)
  | .list items => by
    simp only [Value.writeAny]
    exact .bind (.token _) fun _ => .bind (follows_writeItems ht items) fun _ => .token _
  | .map entries => by
    simp only [Value.writeAny]
    exact .ite (.bind (.token _) fun _ => .bind (follows_writeNamed ht entries) fun _ => .token _)
      (.bind (.token _) fun _ => .bind (follows_writePairs ht entries) fun _ => .token _)
  | .object ty fields => by
    simp only [Value.writeAny]
    exact follows_writeTyped ht _ (.bind (.token _) fun _ => .bind (follows_writeFields ht fields) fun _ => .token _)

private theorem follows_writeItems (ht : TypedFollows S typed typed') :
    ∀ vs : List Value, WriteFollows S (Value.writeItems typed vs) fun k => Value.writeItems (typed' k) vs
  | [] => .pure _
  | v :: vs => by
    simp only [Value.writeItems]
    exact .bind (follows_writeAny ht v) fun _ => follows_writeItems ht vs

private theorem follows_writeNamed (ht : TypedFollows S typed typed') :
    ∀ es : List (Value × Value), WriteFollows S (Value.writeNamed typed es) fun k => Value.writeNamed (typed' k) es
  | [] => .pure _
  | (_, v) :: es => by
    simp only [Value.writeNamed]
    exact .bind (.token _) fun _ => .bind (follows_writeAny ht v) fun _ => follows_writeNamed ht es

private theorem follows_writePairs (ht : TypedFollows S typed typed') :
    ∀ es : List (Value × Value), WriteFollows S (Value.writePairs typed es) fun k => Value.writePairs (typed' k) es
  | [] => .pure _
  | (k, v) :: es => by
    simp only [Value.writePairs]
    exact .bind (.token _) fun _ => .bind (follows_writeAny ht k) fun _ => .bind (follows_writeAny ht v) fun _ =>
      .bind (.token _) fun _ => follows_writePairs ht es

private theorem follows_writeFields (ht : TypedFollows S typed typed') :
    ∀ fs : List (String × Value), WriteFollows S (Value.writeFields typed fs) fun k => Value.writeFields (typed' k) fs
  | [] => .pure _
  | (_, v) :: fs => by
    simp only [Value.writeFields]
    by_cases hnull : v.isNull = true
    · simpa [hnull] using follows_writeFields ht fs
    · simp only [hnull, Bool.not_false, if_true]
      exact .bind (.token _) fun _ => .bind (follows_writeAny ht v) fun _ => follows_writeFields ht fs

end

private theorem follows_writeValue (kind : NativeKind) (v : Value) :
    WriteFollows S (kind.writeValue v) fun _ => kind.writeValue v := by
  unfold NativeKind.writeValue
  split
  all_goals try exact .token _
  -- what is left are the integers, whose range is checked, values of any shape, and mismatches
  all_goals first
    | exact follows_writeAny .none _
    | exact follows_mismatch _ _
    | exact .ite (.token _) (.throw _)

theorem follows_native (kind : NativeKind) (v : Option Value) :
    WriteFollows S (kind.write v) fun _ => kind.write v := by
  unfold NativeKind.write
  cases Value.present? v with
  | none => exact .token _
  | some v => exact follows_writeValue kind v

private theorem follows_writeEach {α : Type} {write : α → WriteM Unit} {write' : Nat → α → WriteM Unit}
    (h : ∀ a, WriteFollows S (write a) fun k => write' k a) :
    ∀ l : List α, WriteFollows S (Codec.writeEach write l) fun k => Codec.writeEach (write' k) l
  | [] => .pure _
  | a :: l => by
    simp only [Codec.writeEach]
    exact .bind (h a) fun _ => follows_writeEach h l

/-! Codecs whose parts follow each other -/

variable {call : Nat → Option Value → WriteM Unit} {call' : Nat → Nat → Option Value → WriteM Unit}

theorem Codec.follows_writeSequence {c c' : Codec} {i i' : Instantiator}
    (h : ∀ v, WriteFollows S (c.writeWith call typed v) fun k => c'.writeWith (call' k) (typed' k) v)
    (v : Option Value) :
    WriteFollows S ((sequence c i).writeWith call typed v) fun k => (sequence c' i').writeWith (call' k)
      (typed' k) v := by
  simp only [writeWith]
  rcases Value.present? v with _ | v
  · exact .token _
  · cases v with
    | list items =>
      exact .bind (.token _) fun _ => .bind (follows_writeEach (fun item => h (some item)) items) fun _ => .token _
    | _ => exact follows_mismatch _ _

theorem Codec.follows_writeObjectMap {key : NativeKind} {c c' : Codec} {i i' : Instantiator}
    (h : ∀ v, WriteFollows S (c.writeWith call typed v) fun k => c'.writeWith (call' k) (typed' k) v)
    (v : Option Value) : WriteFollows S ((objectMap key c i).writeWith call typed v) fun k =>
      (objectMap key c' i').writeWith (call' k) (typed' k) v := by
  simp only [writeWith]
  rcases Value.present? v with _ | v
  · exact .token _
  · cases v with
    | map entries =>
      refine .bind (.token _) fun _ => .bind (follows_writeEach ?_ entries) fun _ => .token _
      rintro ⟨k, v⟩
      dsimp only
      cases k.keyText? with
      | none => exact follows_mismatch _ k
      | some name => exact .bind (.token _) fun _ => h (some v)
    | _ => exact follows_mismatch _ _

theorem Codec.follows_writePairMap {key key' c c' : Codec} {i i' : Instantiator}
    (hkey : ∀ v, WriteFollows S (key.writeWith call typed v) fun k => key'.writeWith (call' k) (typed' k) v)
    (h : ∀ v, WriteFollows S (c.writeWith call typed v) fun k => c'.writeWith (call' k) (typed' k) v)
    (v : Option Value) : WriteFollows S ((pairMap key c i).writeWith call typed v) fun k =>
      (pairMap key' c' i').writeWith (call' k) (typed' k) v := by
  simp only [writeWith]
  rcases Value.present? v with _ | v
  · exact .token _
  · cases v with
    | map entries =>
      refine .bind (.token _) fun _ => .bind (follows_writeEach ?_ entries) fun _ => .token _
      rintro ⟨k, v⟩
      exact .bind (.token _) fun _ => .bind (hkey (some k)) fun _ => .bind (h (some v)) fun _ => .token _
    | _ => exact follows_mismatch _ _

variable {I : Nat → Nat → Prop}

theorem Codec.Renumbered.follows_writeWith (ht : TypedFollows S typed typed') {c c' : Codec} (h : Renumbered I c c')
    (hcall : ∀ i j, I i j → ∀ v, WriteFollows S (call i v) fun k => call' k j v) :
    ∀ v, WriteFollows S (c.writeWith call typed v) fun k => c'.writeWith (call' k) (typed' k) v := by
  induction h with
  | native kind => exact fun v => follows_native kind _
  | binding hij => exact fun v => hcall _ _ hij _
  | dynamic =>
    intro v
    simp only [writeWith]
    cases Value.present? v with
    | none => exact .token _
    | some v => exact follows_writeAny ht v
  | runtimeType _ ih =>
    intro v
    cases hv : Value.present? v with
    | none => simpa only [writeWith, hv] using ih none
    | some w =>
      cases ht with
      | none => simpa only [writeWith, hv] using ih (some w)
      | some hwrite =>
        simp only [writeWith, hv]
        exact .ite (follows_writeAny (.some hwrite) w) (hwrite _ w)
  | sequence i _ ih => exact follows_writeSequence ih
  | objectMap kind i _ ih => exact follows_writeObjectMap ih
  | pairMap i _ _ ihk ihv => exact follows_writePairMap ihk ihv
  | attached nullSafe hij =>
    intro v
    simp only [writeWith]
    cases Value.present? v with
    | some v => exact hcall _ _ hij (some v)
    | none => exact .ite (.token _) (hcall _ _ hij none)
  | split _ _ ih _ => exact fun v => ih _

theorem follows_enum (a : EnumAdapter) (v : Option Value) : WriteFollows S (a.write v) fun _ => a.write v := by
  unfold EnumAdapter.write
  rcases Value.present? v with _ | v
  · exact .token _
  · cases v with
    | enum ty constant =>
      refine .ite (.throw _) ?_
      cases a.serializedName? constant with
      | some name => exact .token _
      | none => exact .throw _
    | _ => exact follows_mismatch _ _

/-- The same step of writing; where writing counts the codecs of fields are the same but for the indices. -/
inductive WriteOp.Like (I : Nat → Nat → Prop) : WriteOp → WriteOp → Prop
  | beginObject : Like I .beginObject .beginObject
  | endIfAbsent : Like I .endIfAbsent .endIfAbsent
  | field {f f' : FieldWrite} (hname : f.name = f'.name) (hserializedName : f.serializedName = f'.serializedName)
    (hnonNull : f.nonNull = f'.nonNull) (hwriting : f.codec.writing.Renumbered I f'.codec.writing) :
    Like I (.field f) (.field f')
  | endObject : Like I .endObject .endObject

theorem WriteOp.Like.refl (op : WriteOp) : op.Like Eq op := by
  cases op with
  | beginObject => exact .beginObject
  | endIfAbsent => exact .endIfAbsent
  | field f => exact .field rfl rfl rfl (.refl _)
  | endObject => exact .endObject

theorem WriteOp.Like.symm {J : Nat → Nat → Prop} (hIJ : ∀ i j, I i j → J j i) {op op' : WriteOp} (h : op.Like I op') :
    op'.Like J op := by
  cases h with
  | beginObject => exact .beginObject
  | endIfAbsent => exact .endIfAbsent
  | field hname hserializedName hnonNull hwriting =>
    exact .field hname.symm hserializedName.symm hnonNull.symm (hwriting.symm hIJ)
  | endObject => exact .endObject

section Instance

variable (ht : TypedFollows S typed typed')
  (hcall : ∀ i j, I i j → ∀ v, WriteFollows S (call i v) fun k => call' k j v)

include ht hcall

private theorem follows_writeField {f f' : FieldWrite} (hname : f.name = f'.name)
    (hserializedName : f.serializedName = f'.serializedName) (hnonNull : f.nonNull = f'.nonNull)
    (hwriting : f.codec.writing.Renumbered I f'.codec.writing) (target : TypeRef) (fields : Fields) :
    WriteFollows S (StructAdapter.writeField (fun c => c.writeWith call typed) target fields f) fun k =>
      StructAdapter.writeField (fun c => c.writeWith (call' k) (typed' k)) target fields f' := by
  have hnull : f.codec.writesNull = f'.codec.writesNull := by
    rw [← f.codec.writesNull_writing, hwriting.writesNull_eq, f'.codec.writesNull_writing]
  have hwrite := hwriting.follows_writeWith ht hcall
  simp only [Codec.writeWith_writing] at hwrite
  simp only [StructAdapter.writeField, hname, hserializedName, hnonNull, hnull]
  cases fields.get? f'.name with
  | some v => exact .bind (.token _) fun _ => hwrite (some v)
  | none => exact .ite (.throw _) (.ite (.bind (.token _) fun _ => hwrite none) (.pure _))

private theorem follows_runOps (target : TypeRef) (instance? : Option Fields) {ops ops' : List WriteOp}
    (h : List.Forall₂ (WriteOp.Like I) ops ops') :
    WriteFollows S (StructAdapter.runOps (fun c => c.writeWith call typed) target instance? ops) fun k =>
      StructAdapter.runOps (fun c => c.writeWith (call' k) (typed' k)) target instance? ops' := by
  induction h with
  | nil => exact .pure _
  | cons hop _ hops =>
    cases hop with
    | beginObject => exact .bind (.token _) fun _ => hops
    | endIfAbsent => exact .ite (.token _) hops
    | endObject => exact .bind (.token _) fun _ => hops
    | field hname hserializedName hnonNull hwriting =>
      cases instance? with
      | none => exact hops
      | some fields =>
        exact .bind (follows_writeField ht hcall hname hserializedName hnonNull hwriting target fields) fun _ => hops

theorem StructAdapter.follows_writeInstance {a a' : StructAdapter}
    (h : List.Forall₂ (WriteOp.Like I) a.write a'.write) (target : TypeRef) (v : Option Value) :
    WriteFollows S (a.writeInstance (fun c => c.writeWith call typed) target v) fun k =>
      a'.writeInstance (fun c => c.writeWith (call' k) (typed' k)) target v := by
  unfold StructAdapter.writeInstance
  rcases Value.present? v with _ | v
  · exact follows_runOps ht hcall target none h
  · cases v with
    | object ty fields => exact follows_runOps ht hcall target (some fields) h
    | _ => exact follows_mismatch _ _

end Instance

end Writing

end Marshal
