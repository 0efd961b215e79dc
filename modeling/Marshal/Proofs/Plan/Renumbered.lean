import Marshal.Proofs.Converter.Faults
import Marshal.Proofs.Value.Inside

/-!
# Codecs that differ by their indices

Two plans for one type come to codecs of one form whose indices lead to bindings at other positions
(`Codec.Renumbered`).  If an attached converter is taken away that takes over one direction only, what is left is the
codec that it was split from (`Codec.Freed`).
-/

namespace Marshal.Codec

/-! ### The two directions -/

/-- What is left of a codec where only reading counts. -/
def reading : Codec → Codec
  | split _ read => read.reading
  | c => c

/-- What is left of a codec where only writing counts. -/
def writing : Codec → Codec
  | split write _ => write.writing
  | c => c

theorem acceptedTokens_reading (c : Codec) : c.reading.acceptedTokens = c.acceptedTokens := by
  induction c with
  | split _ _ _ ih => exact ih
  | _ => rfl

theorem readsNull_reading (c : Codec) : c.reading.readsNull = c.readsNull := by
  induction c with
  | split _ _ _ ih => exact ih
  | _ => rfl

theorem writesNull_writing (c : Codec) : c.writing.writesNull = c.writesNull := by
  induction c with
  | split _ _ ih _ => exact ih
  | _ => rfl

theorem readWith_reading (call : Nat → ReadM (Option Value)) (c : Codec) :
    c.reading.readWith call = c.readWith call := by
  induction c with
  | split _ _ _ ih => exact ih
  | _ => rfl

theorem writeWith_present {call : Nat → Option Value → WriteM Unit} {typed : TypedWriter} (k : Codec)
    (v : Option Value) : k.writeWith call typed (Value.present? v) = k.writeWith call typed v := by
  cases k <;> simp only [writeWith, Value.present?_present?]

theorem writeWith_writing (call : Nat → Option Value → WriteM Unit) (typed : TypedWriter) (c : Codec) :
    c.writing.writeWith call typed = c.writeWith call typed := by
  induction c with
  | split w _ ih _ =>
    funext v
    rw [writing, ih, writeWith, writeWith_present]
  | _ => rfl

/-! ### Indices -/

/-- The codecs are the same but for the indices, which correspond by `I`. -/
inductive Renumbered (I : Nat → Nat → Prop) : Codec → Codec → Prop
  | native (kind : NativeKind) : Renumbered I (.native kind) (.native kind)
  | binding {i j : Nat} (h : I i j) : Renumbered I (.binding i) (.binding j)
  | dynamic : Renumbered I .dynamic .dynamic
  | runtimeType {c c' : Codec} (h : Renumbered I c c') : Renumbered I (.runtimeType c) (.runtimeType c')
  | sequence {c c' : Codec} (i : Instantiator) (h : Renumbered I c c') : Renumbered I (.sequence c i) (.sequence c' i)
  | objectMap {c c' : Codec} (kind : NativeKind) (i : Instantiator) (h : Renumbered I c c') :
    Renumbered I (.objectMap kind c i) (.objectMap kind c' i)
  | pairMap {k k' v v' : Codec} (i : Instantiator) (hk : Renumbered I k k') (hv : Renumbered I v v') :
    Renumbered I (.pairMap k v i) (.pairMap k' v' i)
  | attached {i j : Nat} (nullSafe : Bool) (h : I i j) : Renumbered I (.attached i nullSafe) (.attached j nullSafe)
  | split {w w' r r' : Codec} (hw : Renumbered I w w') (hr : Renumbered I r r') : Renumbered I (.split w r)
      (.split w' r')

namespace Renumbered

variable {I J : Nat → Nat → Prop} {c c' : Codec}

theorem symm (hIJ : ∀ i j, I i j → J j i) (h : Renumbered I c c') : Renumbered J c' c := by
  induction h with
  | native kind => exact .native kind
  | binding h => exact .binding (hIJ _ _ h)
  | dynamic => exact .dynamic
  | runtimeType _ ih => exact .runtimeType ih
  | sequence i _ ih => exact .sequence i ih
  | objectMap kind i _ ih => exact .objectMap kind i ih
  | pairMap i _ _ ihk ihv => exact .pairMap i ihk ihv
  | attached nullSafe h => exact .attached nullSafe (hIJ _ _ h)
  | split _ _ ihw ihr => exact .split ihw ihr

private theorem self (c : Codec) (h : ∀ i ∈ c.indices, I i i) : Renumbered I c c := by
  induction c with
  | native kind => exact .native kind
  | binding index => exact .binding (h index (List.mem_singleton_self index))
  | dynamic => exact .dynamic
  | runtimeType declared ih => exact .runtimeType (ih h)
  | sequence element i ih => exact .sequence i (ih h)
  | objectMap kind value i ih => exact .objectMap kind i (ih h)
  | pairMap key value i ihk ihv =>
    exact .pairMap i (ihk fun i hi => h i (List.mem_append_left _ hi))
      (ihv fun i hi => h i (List.mem_append_right _ hi))
  | attached index nullSafe => exact .attached nullSafe (h index (List.mem_singleton_self index))
  | split write read ihw ihr =>
    exact .split (ihw fun i hi => h i (List.mem_append_left _ hi)) (ihr fun i hi => h i (List.mem_append_right _ hi))

theorem refl (c : Codec) : Renumbered Eq c c := self c fun _ _ => rfl

theorem eq (h : Renumbered Eq c c') : c' = c := by
  induction h with
  | native | dynamic => rfl
  | binding h | attached _ h => rw [h]
  | runtimeType _ ih | sequence _ _ ih | objectMap _ _ _ ih => rw [ih]
  | pairMap _ _ _ ih ih' | split _ _ ih ih' => rw [ih, ih']

/-- A test that does not look at indices finds the same. -/
private theorem any_eq {p : Codec → Bool} (hp : ∀ c c', Renumbered I c c' → p c = p c') (h : Renumbered I c c') :
    c.any p = c'.any p := by
  induction h with
  | native | dynamic => rfl
  | binding h => simp only [any, hp _ _ (.binding h)]
  | attached nullSafe h => simp only [any, hp _ _ (.attached nullSafe h)]
  | runtimeType h ih => simp only [any, hp _ _ (.runtimeType h), ih]
  | sequence i h ih => simp only [any, hp _ _ (.sequence i h), ih]
  | objectMap kind i h ih => simp only [any, hp _ _ (.objectMap kind i h), ih]
  | pairMap i hk hv ihk ihv => simp only [any, hp _ _ (.pairMap i hk hv), ihk, ihv]
  | split hw hr ihw ihr => simp only [any, hp _ _ (.split hw hr), ihw, ihr]

theorem acceptedTokens_eq (h : Renumbered I c c') : c.acceptedTokens = c'.acceptedTokens := by
  induction h with
  | runtimeType _ ih => exact ih
  | split _ _ _ ih => exact ih
  | _ => rfl

theorem writesNull_eq (h : Renumbered I c c') : c.writesNull = c'.writesNull := by
  induction h with
  | split _ _ ih _ => exact ih
  | _ => rfl

theorem readsNull_eq (h : Renumbered I c c') : c.readsNull = c'.readsNull := by
  induction h with
  | split _ _ _ ih => exact ih
  | _ => rfl

private theorem reading (h : Renumbered I c c') : Renumbered I c.reading c'.reading := by
  induction h with
  | split _ _ _ ih => exact ih
  | native kind => exact .native kind
  | binding h => exact .binding h
  | dynamic => exact .dynamic
  | runtimeType h _ => exact .runtimeType h
  | sequence i h _ => exact .sequence i h
  | objectMap kind i h _ => exact .objectMap kind i h
  | pairMap i hk hv _ _ => exact .pairMap i hk hv
  | attached nullSafe h => exact .attached nullSafe h

private theorem writing (h : Renumbered I c c') : Renumbered I c.writing c'.writing := by
  induction h with
  | split _ _ ih _ => exact ih
  | native kind => exact .native kind
  | binding h => exact .binding h
  | dynamic => exact .dynamic
  | runtimeType h _ => exact .runtimeType h
  | sequence i h _ => exact .sequence i h
  | objectMap kind i h _ => exact .objectMap kind i h
  | pairMap i hk hv _ _ => exact .pairMap i hk hv
  | attached nullSafe h => exact .attached nullSafe h

end Renumbered

/-- The codecs are the same but for the indices, or in the first one an attached converter takes over the given
direction of what is the second one otherwise. -/
inductive Freed (I : Nat → Nat → Prop) (usage : ConverterUse) (c c' : Codec) : Prop
  | same (h : Renumbered I c c')
  | write {i : Nat} {nullSafe : Bool} {r : Codec} (husage : usage = .write) (hc : c = .split (.attached i nullSafe) r)
    (h : Renumbered I r c')
  | read {i : Nat} {nullSafe : Bool} {w : Codec} (husage : usage = .read) (hc : c = .split w (.attached i nullSafe))
    (h : Renumbered I w c')

namespace Freed

variable {I : Nat → Nat → Prop} {usage : ConverterUse} {c c' : Codec}

/-- A converter for writing leaves the reading as it is. -/
theorem reading (h : Freed I usage c c') (husage : usage = .write) : Renumbered I c.reading c'.reading := by
  cases h with
  | same h => exact h.reading
  | write _ hc h => exact hc ▸ h.reading
  | read hread => exact absurd (husage.symm.trans hread) nofun

/-- A converter for reading leaves the writing as it is. -/
theorem writing (h : Freed I usage c c') (husage : usage = .read) : Renumbered I c.writing c'.writing := by
  cases h with
  | same h => exact h.writing
  | read _ hc h => exact hc ▸ h.writing
  | write hwrite => exact absurd (husage.symm.trans hwrite) nofun

/-- A test that finds no attached converter finds the same. -/
theorem any_eq {p : Codec → Bool} (hp : ∀ c c', Renumbered I c c' → p c = p c')
    (hsplit : ∀ w r, p (.split w r) = false) (hattached : ∀ i nullSafe, p (.attached i nullSafe) = false)
    (h : Freed I usage c c') : c.any p = c'.any p := by
  cases h with
  | same h => exact h.any_eq hp
  | write _ hc h =>
    rw [← h.any_eq hp, hc]
    simp [any, hsplit, hattached]
  | read _ hc h =>
    rw [← h.any_eq hp, hc]
    simp [any, hsplit, hattached]

end Freed

end Marshal.Codec
