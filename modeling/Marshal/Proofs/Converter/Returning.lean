import Marshal.Proofs.Converter.Following
import Marshal.Proofs.Converter.Writing

/-!
# Writing that returns

A computation with fuel returns if it comes to an outcome once it is given enough, however much that is in the state
it is begun in (`WriteM.Returns`).  A computation without fuel then stands in for it.  So what a converter writes
returns if what it hands on returns, to its bindings or to the converters of the types of values
(`Converter.returns_write`).
-/

namespace Marshal

open Effect

namespace WriteM

variable {I : Store → Prop} {α : Type}

/-- An outcome other than the lack of fuel, with a store of which `I` holds. -/
inductive Answer (I : Store → Prop) : EStateM.Result Error Writing α → Prop
  | ok {a : α} {w : Writing} (h : I w.store) : Answer I (.ok a w)
  | error {e : Error} {w : Writing} (h : I w.store) (he : e ≠ .outOfFuel) : Answer I (.error e w)

theorem Answer.mono {I' : Store → Prop} (hI : ∀ s, I s → I' s) {x : EStateM.Result Error Writing α} (h : Answer I x) :
    Answer I' x := by
  cases h with
  | ok h => exact .ok (hI _ h)
  | error h he => exact .error (hI _ h) he

/-- Begun where `I` holds of the store, the computation comes with enough fuel to one and the same answer. -/
def Returns (I : Store → Prop) (f : Nat → WriteM α) : Prop :=
  ∀ w, I w.store → ∃ n x, (∀ k ≥ n, f k w = x) ∧ Answer I x

theorem Returns.of_succ {f : Nat → WriteM α} (h : Returns I fun k => f (k + 1)) : Returns I f := by
  intro w hw
  obtain ⟨n, x, hx, hanswer⟩ := h w hw
  refine ⟨n + 1, x, fun k hk => ?_, hanswer⟩
  obtain ⟨k, rfl⟩ := Nat.exists_eq_add_of_le' (Nat.le_of_add_left_le hk)
  exact hx k (Nat.le_of_succ_le_succ hk)

/-- Given enough fuel the computation comes to the outcome, with the document as far as it was written. -/
def ComesTo (f : Nat → WriteM α) (w : Writing) (o : Except Error α × Writer) : Prop :=
  ∃ n, ∀ k ≥ n, outcome Writing.writer (f k) w = o

theorem ComesTo.succ {f : Nat → WriteM α} {w : Writing} {o : Except Error α × Writer} (h : ComesTo f w o) :
    ComesTo (fun k => f (k + 1)) w o := by
  obtain ⟨n, hn⟩ := h
  exact ⟨n, fun k hk => hn (k + 1) (Nat.le_succ_of_le hk)⟩

theorem ComesTo.of_succ {f : Nat → WriteM α} {w : Writing} {o : Except Error α × Writer}
    (h : ComesTo (fun k => f (k + 1)) w o) : ComesTo f w o := by
  obtain ⟨n, hn⟩ := h
  refine ⟨n + 1, fun k hk => ?_⟩
  obtain ⟨k, rfl⟩ := Nat.exists_eq_add_of_le' (Nat.le_of_add_left_le hk)
  exact hn k (Nat.le_of_succ_le_succ hk)

theorem Returns.exists_comesTo {f : Nat → WriteM α} (h : Returns I f) {w : Writing} (hw : I w.store) :
    ∃ o, o.1 ≠ .error .outOfFuel ∧ ComesTo f w o := by
  obtain ⟨n, x, hx, hanswer⟩ := h w hw
  refine ⟨outcome Writing.writer (fun _ => x) w, ?_, n, fun k hk => ?_⟩
  case refine_2 =>
    unfold outcome
    rw [hx k hk]
  cases hanswer with
  | ok _ => exact nofun
  | error _ he => exact fun heq => he (Except.error.inj heq)

/-! ### Computations that stand in -/

/-- The same store, of which `I` holds. -/
def Same (I : Store → Prop) (s s' : Store) : Prop := s = s' ∧ I s

private theorem beside_same {w w' : Writing} : Beside (Same I) w w' ↔ w = w' ∧ I w.store := by
  constructor
  · rintro ⟨hwriter, hstore, hI⟩
    cases w
    cases w'
    exact ⟨by simp_all, hI⟩
  · rintro ⟨rfl, hI⟩
    exact ⟨rfl, rfl, hI⟩

/-- A computation respects a property and never lacks fuel if it always comes to an answer. -/
private theorem respects_iff_answer {m : WriteM α} :
    Respects I (· ≠ .outOfFuel) m ↔ ∀ w, I w.store → Answer I (m w) := by
  refine forall₂_congr fun w _ => ?_
  cases m w with
  | ok a w' => exact ⟨.ok, fun h => by cases h with | ok h => exact h⟩
  | error e w' => exact ⟨fun h => .error h.1 h.2, fun h => by cases h with | error h he => exact ⟨h, he⟩⟩

private theorem Answer.agree {x : EStateM.Result Error Writing α} (h : Answer I x) :
    Agree (Beside (Same I)) (Beside (Same I)) Eq x x := by
  cases h with
  | ok h => exact ⟨rfl, beside_same.2 ⟨rfl, h⟩⟩
  | error h _ => exact ⟨rfl, beside_same.2 ⟨rfl, h⟩⟩

private theorem eq_of_agree {x y : EStateM.Result Error Writing α}
    (h : Agree (Beside (Same I)) (Beside (Same I)) Eq x y) : y = x := by
  cases x with
  | ok a w =>
    obtain ⟨b, w', rfl, rfl, hbeside⟩ := h.of_ok
    rw [(beside_same.1 hbeside).1]
  | error e w =>
    obtain ⟨w', rfl, hbeside⟩ := h.of_error
    rw [(beside_same.1 hbeside).1]

/-- What follows a computation that never lacks fuel returns. -/
private theorem returns_of_follows {m : WriteM α} {f : Nat → WriteM α} (h : WriteFollows (Same I) m f)
    (hm : Respects I (· ≠ .outOfFuel) m) : Returns I f := by
  intro w hw
  have hanswer := respects_iff_answer.1 hm w hw
  rcases h w w (beside_same.2 ⟨rfl, hw⟩) with ⟨w', hout⟩ | ⟨n, x, hx, hagree⟩
  · rw [hout] at hanswer
    cases hanswer with
    | error _ he => exact absurd rfl he
  · obtain rfl := eq_of_agree hagree
    exact ⟨n, m w, hx, hanswer⟩

theorem returns_of_respects {m : WriteM α} (hm : Respects I (· ≠ .outOfFuel) m) : Returns I fun _ => m :=
  fun w hw => ⟨0, m w, fun _ _ => rfl, respects_iff_answer.1 hm w hw⟩

/-- A computation without fuel that stands in for one that returns.  Where that does not return, one that lacks fuel
does. -/
private theorem exists_standIn (I : Store → Prop) (f : Nat → WriteM α) :
    ∃ m, WriteFollows (Same I) m f ∧ (Returns I f → Respects I (· ≠ .outOfFuel) m) := by
  classical
  by_cases hf : Returns I f
  · choose n x hx hanswer using hf
    let m : WriteM α := fun w => if hw : I w.store then x w hw else .error .outOfFuel w
    have hm (w : Writing) (hw : I w.store) : m w = x w hw := dif_pos hw
    refine ⟨m, fun w w' hbeside => ?_, fun _ => respects_iff_answer.2 fun w hw => ?_⟩
    · obtain ⟨rfl, hw⟩ := beside_same.1 hbeside
      exact .inr ⟨n w hw, x w hw, hx w hw, (hm w hw).symm ▸ (hanswer w hw).agree⟩
    · rw [hm w hw]
      exact hanswer w hw
  · refine ⟨fun w => .error .outOfFuel w, fun w _ _ => .inl ⟨w, rfl⟩, fun h => absurd h hf⟩

/-- The same of the writers of typed values. -/
private theorem exists_typed_standIn (I : Store → Prop) (linked : Bool)
    (write : Nat → TypeRef → Value → WriteM Unit) :
    ∃ typed, TypedFollows (Same I) typed (fun k => if linked then some (write k) else none) ∧
      ∀ v : Value, (linked = true → ∀ u : Value, u.Inside v → u.runtimeType.isAny = false →
        Returns I fun k => write k u.runtimeType u) → RespectsTyped I (· ≠ .outOfFuel) typed v := by
  cases linked with
  | false => exact ⟨none, .none, fun v _ => respectsTyped_none v⟩
  | true =>
    choose write' hfollows hrespects using fun ty v => exists_standIn I fun k => write k ty v
    refine ⟨some write', .some hfollows, fun v hreturns _ heq u hu hany => ?_⟩
    obtain rfl := Option.some.inj heq
    exact hrespects _ u (hreturns rfl u hu hany)

/-! ### Values, codecs and adapters -/

section Writing

variable {call : Nat → Nat → Option Value → WriteM Unit} {write : Nat → TypeRef → Value → WriteM Unit} (linked : Bool)

theorem ne_outOfFuel_of_isUnwritable (e : Error) (he : e.isUnwritable = true) : e ≠ .outOfFuel := by
  rintro rfl
  cases he

private theorem returns_writeAny {v : Value}
    (htyped : linked = true → ∀ u : Value, u.Inside v → u.runtimeType.isAny = false →
    Returns I fun k => write k u.runtimeType u) : Returns I fun k =>
      v.writeAny (if linked then some (write k) else none) := by
  obtain ⟨typed, hfollows, hrespects⟩ := exists_typed_standIn I linked write
  exact returns_of_follows (follows_writeAny hfollows v)
    (respects_writeAny ne_outOfFuel_of_isUnwritable v (hrespects v htyped))

/-- Stand-ins for all bindings of a converter. -/
private theorem exists_call_standIn (I : Store → Prop) (call : Nat → Nat → Option Value → WriteM Unit) :
    ∃ call' : Nat → Option Value → WriteM Unit,
      (∀ i j, i = j → ∀ v, WriteFollows (Same I) (call' i v) fun k => call k j v) ∧
        ∀ i v, Returns I (fun k => call k i v) → Respects I (· ≠ .outOfFuel) (call' i v) := by
  choose call' hfollows hrespects using fun i v => exists_standIn I fun k => call k i v
  exact ⟨call', fun i _ hij v => hij ▸ hfollows i v, hrespects⟩

private theorem returns_codec (c : Codec) {v : Option Value}
    (hnone : ∀ i ∈ c.indices, Returns I fun k => call k i none)
    (hsome : ∀ v' i u, v = some v' → c.Hands v' i u → Returns I fun k => call k i (some u))
    (htyped : ∀ v', v = some v' → linked = true → ∀ u : Value, u.Inside v' → u.runtimeType.isAny = false →
      Returns I fun k => write k u.runtimeType u) :
    Returns I fun k => c.writeWith (call k) (if linked then some (write k) else none) v := by
  obtain ⟨typed, hfollows, hvalues⟩ := exists_typed_standIn I linked write
  obtain ⟨call', hcall, hrespects⟩ := exists_call_standIn I call
  have habsent (i : Nat) (hi : i ∈ c.indices) := hrespects i none (hnone i hi)
  refine returns_of_follows ((Codec.Renumbered.refl c).follows_writeWith hfollows hcall v) ?_
  cases v with
  | none => exact respects_codec_none ne_outOfFuel_of_isUnwritable c habsent
  | some v =>
    have hpart (i : Nat) (u : Value) (hu : c.Hands v i u) := hrespects i (some u) (hsome v i u rfl hu)
    exact respects_codec ne_outOfFuel_of_isUnwritable c habsent hpart (hvalues v (htyped v rfl))

private theorem returns_writeInstance (a : StructAdapter) (target : TypeRef) {v : Option Value}
    (hnone : ∀ i, Returns I fun k => call k i none)
    (hsome : ∀ ty fields name u i x, v = some (.object ty fields) → Fields.get? fields name = some u → x.Inside u →
      Returns I fun k => call k i (some x))
    (htyped : ∀ ty fields name u, v = some (.object ty fields) → Fields.get? fields name = some u → linked = true →
      ∀ x : Value, x.Inside u → x.runtimeType.isAny = false → Returns I fun k => write k x.runtimeType x) :
    Returns I fun k => a.writeInstance (fun c => c.writeWith (call k) (if linked then some (write k) else none))
      target v := by
  have hE := ne_outOfFuel_of_isUnwritable
  obtain ⟨typed, hfollows, hvalues⟩ := exists_typed_standIn I linked write
  obtain ⟨call', hcall, hrespects⟩ := exists_call_standIn I call
  have habsent (i : Nat) := hrespects i none (hnone i)
  have hops : List.Forall₂ (WriteOp.Like Eq) a.write a.write := List.forall₂_same.2 fun op _ => .refl op
  refine returns_of_follows (StructAdapter.follows_writeInstance hfollows hcall hops target v) ?_
  refine respects_struct hE a fun ty fields hobject f _ => ?_
  have hname : Respects I (· ≠ .outOfFuel) (token (Writer.name f.serializedName)) :=
    respects_token (Writer.raises_name hE _)
  have hmissing : Error.nonNull target.plain f.name ≠ .outOfFuel := Error.noConfusion
  refine respects_writeField hname (fun u hu => ?_) (fun _ _ => hmissing) fun _ =>
    respects_codec_none hE f.codec fun i _ => habsent i
  have hpart (i : Nat) (x : Value) (hx : f.codec.Hands u i x) :=
    hrespects i (some x) (hsome ty fields f.name u i x hobject hu hx.inside)
  exact respects_codec hE f.codec (fun i _ => habsent i) hpart (hvalues u (htyped ty fields f.name u hobject hu))

end Writing

end WriteM

open WriteM

namespace Converter

/-! ### Converters -/

/-- What a converter is to write a value, it hands the part `u` of the value on. -/
inductive Passes : Converter → Value → Value → Prop
  | codec {id : Nat} {k : Codec} {bs : List Converter} {v u : Value} {i : Nat} (h : k.Hands v i u) : Passes
      (.codec id k bs) v u
  | dynamic {id : Nat} {v u : Value} (h : u.Inside v) : Passes (.dynamic id true) v u
  | field {id : Nat} {a : StructAdapter} {target ty : TypeRef} {bs : List Converter} {linked : Bool} {fields : Fields}
    {name : String} {v u : Value} (hv : fields.get? name = some v) (h : u.Inside v) :
    Passes (.struct id a target bs linked) (.object ty fields) u

/-- The converter is no placeholder, and if it is the caller's own it does not know about fuel. -/
def Direct : Converter → Prop
  | placeholder .. => False
  | custom _ x => ∀ v, Raises (· ≠ .outOfFuel) (x.write v)
  | _ => True

variable {I : Store → Prop} {reg : Registry}

/-- A binding that is there returns if its converter does, and a missing one is a fault. -/
private theorem returns_writeBinding {bs : List Converter} {v : Option Value}
    (h : ∀ b ∈ bs, Returns I fun k => b.write reg k v) (i : Nat) :
    Returns I fun k => writeBinding (write reg k) bs i v := by
  unfold writeBinding
  cases hb : bs[i]? with
  | none => exact returns_of_respects (respects_throw Error.noConfusion)
  | some b => exact h b (List.mem_of_getElem? hb)

/-- Writing returns if whatever is handed on returns. -/
theorem returns_write {c : Converter} (hc : c.Direct) {v : Option Value}
    (hnone : ∀ b ∈ c.bindings, Returns I fun k => b.write reg k none)
    (hsome : ∀ b ∈ c.bindings, ∀ v' u, v = some v' → c.Passes v' u → Returns I fun k => b.write reg k (some u))
    (htyped : ∀ v' u, v = some v' → c.Passes v' u → u.runtimeType.isAny = false →
      Returns I fun k => writeResolved reg k (write reg k) u.runtimeType u) : Returns I fun k => c.write reg k v := by
  have hE := ne_outOfFuel_of_isUnwritable
  have hbinding {v' u : Value} (hv : v = some v') (hu : c.Passes v' u) (i : Nat) :
      Returns I fun k => writeBinding (write reg k) c.bindings i (some u) :=
    returns_writeBinding (fun b hb => hsome b hb v' u hv hu) i
  refine .of_succ ?_
  cases c with
  | native id kind => exact returns_of_respects (respects_native hE kind v)
  | enum id a => exact returns_of_respects (respects_enum hE a v)
  | custom id x => exact returns_of_respects (respects_token (hc v))
  | placeholder id ty => exact hc.elim
  | dynamic id linked =>
    simp only [write]
    cases hv : Value.present? v with
    | none => exact returns_of_respects (respects_token (Writer.raises_null hE))
    | some v' =>
      refine returns_writeAny linked fun hlinked u hu hany => ?_
      subst hlinked
      exact htyped v' u (Value.present?_eq_some hv) (.dynamic hu) hany
  | codec id k bs =>
    exact @returns_codec I _ (fun k => writeResolved reg k (write reg k)) false k v
      (fun i _ => returns_writeBinding hnone i)
      (fun v' i u hv hu => hbinding hv (.codec hu) i) fun _ _ hlinked => absurd hlinked Bool.false_ne_true
  | struct id a target bs linked =>
    exact returns_writeInstance linked a target (returns_writeBinding hnone)
      (fun ty fields name u i x hv hu hx => hbinding hv (.field hu hx) i)
      fun ty fields name u hv hu _ x hx hany => htyped _ x hv (.field hu hx) hany

end Converter

end Marshal
