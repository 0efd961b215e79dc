import Marshal.Proofs.Converter.Assembling
import Marshal.Proofs.Registry.Run

/-!
# Writing and the store of a registry

Writing may resolve further types, so what holds of the store of a registry has to be kept by writing as well.  A
property of the store and of converters that are held (`Frame`) is kept by whatever is written with them, if resolving
a type keeps it and the parts of a converter are held with it.
-/

namespace Marshal

open Effect

namespace WriteM

/-- Begun where `I` holds of the store, the computation ends where it holds, and `E` holds of the faults that it
raises. -/
def Respects {α : Type} (I : Store → Prop) (E : Error → Prop) (m : WriteM α) : Prop :=
  ∀ w, I w.store →
    match m w with
    | .ok _ w' => I w'.store
    | .error e w' => I w'.store ∧ E e

variable {I : Store → Prop} {E : Error → Prop} {α β : Type}

private theorem respects_pure (a : α) : Respects I E (pure a : WriteM α) := fun _ hI => hI

theorem respects_throw {e : Error} (he : E e) : Respects I E (throw e : WriteM α) := fun _ hI => ⟨hI, he⟩

private theorem Respects.bind {m : WriteM α} {f : α → WriteM β} (hm : Respects I E m) (hf : ∀ a, Respects I E (f a)) :
    Respects I E (m >>= f) := by
  intro w hI
  have hw := hm w hI
  cases h : m w with
  | ok a w₁ =>
    rw [h] at hw
    rw [bind_of_ok h]
    exact hf a w₁ hw
  | error e w₁ =>
    rw [h] at hw
    rw [bind_of_error h]
    exact hw

private theorem respects_ite {p : Prop} [Decidable p] {m m' : WriteM α} (hm : Respects I E m)
    (hm' : Respects I E m') : Respects I E (if p then m else m') := by
  by_cases hp : p
  · rwa [if_pos hp]
  · rwa [if_neg hp]

theorem respects_token {m : TokenM α} (hm : Raises E m) : Respects I E (token m) := by
  intro w hI
  unfold token
  cases h : m w.writer with
  | ok a writer => exact hI
  | error e writer => exact ⟨hI, hm _ _ _ h⟩

/-! ### Values -/

/-- Where a registry is at hand, every part of the value is written with the converter of its own type, if it has
one. -/
def RespectsTyped (I : Store → Prop) (E : Error → Prop) (typed : TypedWriter) (v : Value) : Prop :=
  ∀ write, typed = some write → ∀ u : Value, u.Inside v → u.runtimeType.isAny = false →
    Respects I E (write u.runtimeType u)

private theorem RespectsTyped.of_inside {typed : TypedWriter} {u v : Value} (h : RespectsTyped I E typed v)
    (hu : u.Inside v) : RespectsTyped I E typed u := fun write hw w hin => h write hw w (hin.trans hu)

theorem respectsTyped_none (v : Value) : RespectsTyped I E none v := nofun

section Writing

variable (hE : ∀ e, e.isUnwritable = true → E e) {typed : TypedWriter}

include hE in
private theorem respects_mismatch (expected : String) (found : Value) :
    Respects I E (found.mismatch expected : WriteM α) :=
  respects_throw (hE _ rfl)

include hE

private theorem respects_assembles :
    Assembles typed (RespectsTyped I E typed) (Respects I E) (Respects I E) (Respects I E) where
  part hu hv := hv.of_inside hu
  null := respects_token (Writer.raises_null hE)
  bool b := respects_token (Writer.raises_bool hE b)
  int n := respects_token (Writer.raises_int hE n)
  float x := respects_token (Writer.raises_float hE x)
  string s := respects_token (Writer.raises_string hE s)
  number _ _ := respects_token (Writer.raises_number hE _)
  typed h hv hany := hv _ h _ .self hany
  refused he _ := respects_throw (hE _ he)
  refusedEntry he _ := respects_throw (hE _ he)
  noItems := respects_pure _
  item h := h
  items h h' := .bind h fun _ => h'
  array h := .bind (respects_token (Writer.raises_beginArray hE)) fun _ =>
    .bind h fun _ => respects_token (Writer.raises_endArray hE)
  noEntries := respects_pure _
  entry h name := .bind (respects_token (Writer.raises_name hE name)) fun _ => h
  entries h h' := .bind h fun _ => h'
  object h := .bind (respects_token (Writer.raises_beginObject hE)) fun _ =>
    .bind h fun _ => respects_token (Writer.raises_endObject hE)

theorem respects_writeAny (v : Value) (htyped : RespectsTyped I E typed v) : Respects I E (v.writeAny typed) :=
  (respects_assembles hE).writeAny v htyped

theorem respects_native (kind : NativeKind) (v : Option Value) : Respects I E (kind.write v) :=
  (respects_assembles hE).native kind fun w _ => respectsTyped_none w

theorem respects_enum (a : EnumAdapter) (v : Option Value) : Respects I E (a.write v) := by
  have h : Assembles none (RespectsTyped I E none) (Respects I E) (Respects I E) (Respects I E) :=
    respects_assembles hE
  exact h.enum a v

variable {call : Nat → Option Value → WriteM Unit}

theorem respects_codec_none (c : Codec) (hcall : ∀ i ∈ c.indices, Respects I E (call i none)) :
    Respects I E (c.writeWith call typed none) := (respects_assembles hE).codec_none c hcall

/-- A codec calls its bindings for the parts of the value that it hands to them, and for absent values. -/
theorem respects_codec (c : Codec) (hnone : ∀ i ∈ c.indices, Respects I E (call i none)) {v : Value}
    (hcall : ∀ i u, c.Hands v i u → Respects I E (call i (some u))) (htyped : RespectsTyped I E typed v) :
    Respects I E (c.writeWith call typed (some v)) := (respects_assembles hE).codec c hnone hcall htyped

/-! ### Declarations -/

omit hE in
/-- A field is written as a value if it is present; its absence is a fault, is written, or passed over. -/
theorem respects_writeField {write : Codec → Option Value → WriteM Unit} {target : TypeRef} {fields : Fields}
    {f : FieldWrite} (hname : Respects I E (token (Writer.name f.serializedName)))
    (hsome : ∀ v, fields.get? f.name = some v → Respects I E (write f.codec (some v)))
    (hmissing : fields.get? f.name = none → f.nonNull = true → E (.nonNull target.plain f.name))
    (hnone : fields.get? f.name = none → Respects I E (write f.codec none)) :
    Respects I E (StructAdapter.writeField write target fields f) := by
  unfold StructAdapter.writeField
  cases hv : fields.get? f.name with
  | some v => exact .bind hname fun _ => hsome v hv
  | none =>
    dsimp only
    by_cases hf : f.nonNull = true
    · rw [if_pos hf]
      exact respects_throw (hmissing hv hf)
    · rw [if_neg hf]
      exact respects_ite (.bind hname fun _ => hnone hv) (respects_pure _)

private theorem respects_runOps {write : Codec → Option Value → WriteM Unit} {target : TypeRef}
    (instance? : Option Fields) (ops : List WriteOp) (h : ∀ fields, instance? = some fields → ∀ f, .field f ∈ ops →
      Respects I E (StructAdapter.writeField write target fields f)) :
    Respects I E (StructAdapter.runOps write target instance? ops) := by
  induction ops with
  | nil => exact respects_pure _
  | cons op ops ih =>
    have hops := ih fun fields hfields f hf => h fields hfields f (List.mem_cons_of_mem _ hf)
    cases op with
    | beginObject => exact .bind (respects_token (Writer.raises_beginObject hE)) fun _ => hops
    | endIfAbsent => exact respects_ite (respects_token (Writer.raises_endObject hE)) hops
    | endObject => exact .bind (respects_token (Writer.raises_endObject hE)) fun _ => hops
    | field f =>
      cases instance? with
      | none => exact hops
      | some fields => exact .bind (h fields rfl f (List.mem_cons_self ..)) fun _ => hops

/-- It is enough that the fields of an object are written so. -/
theorem respects_struct (a : StructAdapter) {write : Codec → Option Value → WriteM Unit} {target : TypeRef}
    {v : Option Value} (h : ∀ ty fields, v = some (.object ty fields) → ∀ f, .field f ∈ a.write →
      Respects I E (StructAdapter.writeField write target fields f)) : Respects I E
        (a.writeInstance write target v) := by
  unfold StructAdapter.writeInstance
  rcases hv : Value.present? v with _ | w
  · exact respects_runOps hE none a.write nofun
  · obtain rfl := Value.present?_eq_some hv
    cases w with
    | object ty fields =>
      refine respects_runOps hE (some fields) a.write fun _ heq f hf => ?_
      obtain rfl := Option.some.inj heq
      exact h ty fields rfl f hf
    | _ => exact respects_mismatch hE _ _

end Writing

end WriteM

/-! ### Whole converters -/

namespace Converter

/-- The converters that a converter is built over. -/
def bindings : Converter → List Converter
  | codec _ _ bs | struct _ _ _ bs _ => bs
  | native .. | dynamic .. | enum .. | placeholder .. | custom .. => []

/-- The positions of the bindings that a converter refers to. -/
def indices : Converter → List Nat
  | codec _ c _ => c.indices
  | struct _ a _ _ _ => a.indices
  | native .. | dynamic .. | enum .. | placeholder .. | custom .. => []

end Converter

namespace Registry

/-- A property of the store of a registry and of converters that are held, which resolving and writing keep, and a
property of the faults on the way. -/
structure Frame (reg : Registry) (J : List Converter → Store → Prop) (E : Error → Prop) : Prop where
  mild : ∀ e, e.isViolation = false → E e
  drop : ∀ {c cs s}, J (c :: cs) s → J cs s
  hold : ∀ {c cs s}, c ∈ cs → J cs s → J (c :: cs) s
  binding : ∀ {b c cs s}, b ∈ c.bindings → J (c :: cs) s → J (b :: c :: cs) s
  missing : ∀ {c cs s i}, J (c :: cs) s → i ∈ c.indices → c.bindings[i]? = none →
    E (.violation (.missingBinding i c.bindings.length))
  delegate : ∀ {id ty c cs s}, J (.placeholder id ty :: cs) s → s.delegates.find? id = some c →
    J (c :: .placeholder id ty :: cs) s
  unset : ∀ {id ty cs s}, J (.placeholder id ty :: cs) s → s.delegates.find? id = none →
    E (.violation (.unsetDelegate ty))
  custom : ∀ {id x cs s}, J (.custom id x :: cs) s → ∀ v w e w', x.write v w = .error e w' → E e
  resolved : ∀ {fuel ty c cs s s'}, J cs s → reg.resolve fuel ty s = .ok c s' → J (c :: cs) s'
  failed : ∀ {fuel ty e cs s s'}, J cs s → reg.resolve fuel ty s = .error e s' → J cs s' ∧ E e

theorem resolveIfAlive_apply (reg : Registry) (fuel : Nat) (ty : TypeRef) (s : Store) :
    reg.resolveIfAlive fuel ty s = if s.alive then reg.resolve fuel ty s else .error .registryDropped s := by
  rw [resolveIfAlive, bind_of_ok (get_apply s)]
  by_cases h : s.alive = true
  · rw [if_pos h, if_pos h]
  · rw [if_neg h, if_neg h, throw_apply]

theorem registry_ok {α : Type} {m : EStateM Error Store α} {a : α} {w : Writing} {s : Store}
    (h : m w.store = .ok a s) : WriteM.registry m w = .ok a { w with store := s } := by
  rw [WriteM.registry, h]

theorem registry_error {α : Type} {m : EStateM Error Store α} {e : Error} {w : Writing} {s : Store}
    (h : m w.store = .error e s) : WriteM.registry m w = .error e { w with store := s } := by
  rw [WriteM.registry, h]

end Registry

namespace WriteM

open Registry

variable {reg : Registry} {J : List Converter → Store → Prop} {E : Error → Prop}

private theorem Respects.of_hold {α : Type} {m : WriteM α} {b c : Converter} {cs : List Converter}
    (hF : Frame reg J E) (hJ : ∀ s, J (c :: cs) s → J (b :: c :: cs) s) (hm : Respects (J (b :: c :: cs)) E m) :
    Respects (J (c :: cs)) E m := by
  intro w hw
  have h := hm w (hJ _ hw)
  cases hr : m w with
  | ok a w' =>
    rw [hr] at h
    exact hF.drop h
  | error e w' =>
    rw [hr] at h
    exact ⟨hF.drop h.1, h.2⟩

section Resolved

/-! A value is written with the converter of its type, as far as the registry lives on and resolves the type. -/

variable {fuel : Nat} {write : Converter → Option Value → WriteM Unit} {ty : TypeRef} {v : Value} {w : Writing}

theorem writeResolved_of_ok {c : Converter} {s : Store} (ha : w.store.alive = true)
    (hr : reg.resolve fuel ty w.store = .ok c s) :
    Converter.writeResolved reg fuel write ty v w = write c (some v) { w with store := s } :=
  bind_of_ok (registry_ok (by rw [resolveIfAlive_apply, if_pos ha, hr]))

theorem writeResolved_of_error {e : Error} {s : Store} (ha : w.store.alive = true)
    (hr : reg.resolve fuel ty w.store = .error e s) :
    Converter.writeResolved reg fuel write ty v w = .error e { w with store := s } :=
  bind_of_error (registry_error (by rw [resolveIfAlive_apply, if_pos ha, hr]))

theorem writeResolved_of_dropped (ha : ¬w.store.alive = true) :
    Converter.writeResolved reg fuel write ty v w = .error .registryDropped w :=
  bind_of_error (registry_error (by rw [resolveIfAlive_apply, if_neg ha]))

end Resolved

private theorem respects_writeResolved (hF : Frame reg J E) {fuel : Nat}
    (hwrite : ∀ c cs v, Respects (J (c :: cs)) E (c.write reg fuel v)) (cs : List Converter) (ty : TypeRef)
    (v : Value) : Respects (J cs) E (Converter.writeResolved reg fuel (Converter.write reg fuel) ty v) := by
  intro w hw
  by_cases ha : w.store.alive = true
  · cases hr : reg.resolve fuel ty w.store with
    | ok c s =>
      have hc := hwrite c cs (some v) { w with store := s } (hF.resolved hw hr)
      rw [writeResolved_of_ok ha hr]
      cases hrun : c.write reg fuel (some v) { w with store := s } with
      | ok a w' =>
        rw [hrun] at hc
        exact hF.drop hc
      | error e w' =>
        rw [hrun] at hc
        exact ⟨hF.drop hc.1, hc.2⟩
    | error e s =>
      rw [writeResolved_of_error ha hr]
      exact hF.failed hw hr
  · rw [writeResolved_of_dropped ha]
    exact ⟨hw, hF.mild _ rfl⟩

private theorem respects_writeBinding (hF : Frame reg J E) {fuel : Nat}
    (hwrite : ∀ c cs v, Respects (J (c :: cs)) E (c.write reg fuel v)) (c : Converter) (cs : List Converter) (i : Nat)
    (hi : i ∈ c.indices) (v : Option Value) :
    Respects (J (c :: cs)) E (Converter.writeBinding (Converter.write reg fuel) c.bindings i v) := by
  unfold Converter.writeBinding
  cases hb : c.bindings[i]? with
  | some b => exact .of_hold hF (fun s => hF.binding (List.mem_of_getElem? hb)) (hwrite b (c :: cs) v)
  | none => exact fun w hw => ⟨hw, hF.missing hw hi hb⟩

/-- Whatever is written with a converter that is held keeps what the frame says. -/
theorem respects_write (hF : Frame reg J E) :
    ∀ (fuel : Nat) (c : Converter) (cs : List Converter) (v : Option Value),
      Respects (J (c :: cs)) E (c.write reg fuel v) := by
  have hE (e : Error) (he : e.isUnwritable = true) : E e := hF.mild e (by cases e <;> first | rfl | cases he)
  intro fuel
  induction fuel with
  | zero =>
    intro c cs v
    exact respects_throw (hF.mild _ rfl)
  | succ fuel ih =>
    intro c cs v
    have htyped (linked : Bool) (v : Value) : RespectsTyped (J (c :: cs)) E
        (if linked then some (Converter.writeResolved reg fuel (Converter.write reg fuel)) else none) v := by
      intro write hw u _ _
      cases linked with
      | false => cases hw
      | true =>
        obtain rfl : Converter.writeResolved reg fuel (Converter.write reg fuel) = write := by simpa using hw
        exact respects_writeResolved hF ih _ u.runtimeType u
    have hcall := respects_writeBinding hF ih c cs
    have hcodec (linked : Bool) (k : Codec) (hk : ∀ i ∈ k.indices, i ∈ c.indices) (v : Option Value) :
        Respects (J (c :: cs)) E (k.writeWith (Converter.writeBinding (Converter.write reg fuel) c.bindings)
          (if linked then some (Converter.writeResolved reg fuel (Converter.write reg fuel)) else none) v) := by
      have hnone (i : Nat) (hi : i ∈ k.indices) := hcall i (hk i hi) none
      cases v with
      | none => exact respects_codec_none hE k hnone
      | some v =>
        exact respects_codec hE k hnone (fun i u hu => hcall i (hk i hu.mem_indices) (some u)) (htyped linked v)
    cases c with
    | native id kind => exact respects_native hE kind v
    | dynamic id linked =>
      rw [Converter.write]
      cases Value.present? v with
      | none => exact respects_token (Writer.raises_null hE)
      | some v => exact respects_writeAny hE v (htyped linked v)
    | codec id k bs => exact hcodec false k (fun _ hi => hi) v
    | enum id a => exact respects_enum hE a v
    | struct id a target bs linked =>
      refine respects_struct hE a fun ty fields _ f hf => ?_
      have hf (i : Nat) (hi : i ∈ f.codec.indices) : i ∈ a.indices :=
        List.mem_append_left _ (List.mem_flatMap.2 ⟨_, hf, hi⟩)
      exact respects_writeField (respects_token (Writer.raises_name hE _))
        (fun v _ => hcodec linked f.codec hf (some v))
        (fun _ _ => hF.mild _ rfl) fun _ => hcodec linked f.codec hf none
    | placeholder id ty =>
      intro w hw
      rw [Converter.write, bind_of_ok (get_apply w)]
      cases hd : w.store.delegates.find? id with
      | none => exact ⟨hw, hF.unset hw hd⟩
      | some d =>
        have hheld : J (d :: .placeholder id ty :: cs) w.store := hF.delegate hw hd
        have hrun := ih d (.placeholder id ty :: cs) v w hheld
        dsimp only
        cases hr : d.write reg fuel v w with
        | ok a w' =>
          rw [hr] at hrun
          exact hF.drop hrun
        | error e w' =>
          rw [hr] at hrun
          exact ⟨hF.drop hrun.1, hrun.2⟩
    | custom id x =>
      intro w hw
      rw [Converter.write, token]
      cases hx : x.write v w.writer with
      | ok a writer => exact hw
      | error e writer => exact ⟨hw, hF.custom hw v _ _ _ hx⟩

end WriteM

/-! ### The life of a registry -/

namespace Registry

/-- The stores that a registry comes to, with the converters that it has given out on the way. -/
inductive Run (reg : Registry) : Store → List Converter → Prop
  | start : Run reg .empty []
  | resolved {fuel : Nat} {ty : TypeRef} {c : Converter} {cs : List Converter} {s s' : Store} (h : Run reg s cs)
    (hc : reg.resolve fuel ty s = .ok c s') : Run reg s' (c :: cs)
  | failed {fuel : Nat} {ty : TypeRef} {e : Error} {cs : List Converter} {s s' : Store} (h : Run reg s cs)
    (he : reg.resolve fuel ty s = .error e s') : Run reg s' cs
  | written {fuel : Nat} {c : Converter} {v : Option Value} {cs : List Converter} {w w' : Writing}
    (h : Run reg w.store cs)
    (hc : c ∈ cs) (hw : c.write reg fuel v w = .ok ⟨⟩ w' ∨ ∃ e, c.write reg fuel v w = .error e w') :
    Run reg w'.store cs

theorem Frame.of_run {reg : Registry} {J : List Converter → Store → Prop} {E : Error → Prop} (hF : Frame reg J E)
    (h0 : J [] .empty) {s : Store} {cs : List Converter} (h : Run reg s cs) : J cs s := by
  induction h with
  | start => exact h0
  | resolved _ hc ih => exact hF.resolved ih hc
  | failed _ he ih => exact (hF.failed ih he).1
  | @written fuel c v cs w w' _ hc hw ih =>
    have hrun := WriteM.respects_write hF fuel c cs v w (hF.hold hc ih)
    rcases hw with hw | ⟨e, hw⟩
    · rw [hw] at hrun
      exact hF.drop hrun
    · rw [hw] at hrun
      exact hF.drop hrun.1

end Registry

end Marshal
