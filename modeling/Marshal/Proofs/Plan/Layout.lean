import Marshal.Proofs.Adapter.Generated
import Marshal.Proofs.Plan.Entering

/-!
# What planning lays out

Codecs inside codecs, and what planning does to the bindings: they stay tidy (`Tidy`), each type and each path bound
once and with the source it calls for, and nothing is bound for nobody, since what is new is referred to by the codec
that was planned.
-/

namespace Marshal

open Effect

/-! ### Codecs inside codecs -/

namespace Codec

/-- A codec is another one or stands inside it, at any depth. -/
inductive Inside (c : Codec) : Codec → Prop
  | self : Inside c c
  | declared {d : Codec} (h : Inside c d) : Inside c (.runtimeType d)
  | element {d : Codec} {i : Instantiator} (h : Inside c d) : Inside c (.sequence d i)
  | entry {kind : NativeKind} {d : Codec} {i : Instantiator} (h : Inside c d) : Inside c (.objectMap kind d i)
  | key {k v : Codec} {i : Instantiator} (h : Inside c k) : Inside c (.pairMap k v i)
  | value {k v : Codec} {i : Instantiator} (h : Inside c v) : Inside c (.pairMap k v i)
  | write {w r : Codec} (h : Inside c w) : Inside c (.split w r)
  | read {w r : Codec} (h : Inside c r) : Inside c (.split w r)

/-- A binding is referred to, as one of a type or as an attached converter. -/
def Refers (i : Nat) (c : Codec) : Prop := Inside (.binding i) c ∨ ∃ nullSafe, Inside (.attached i nullSafe) c

/-- A test finds what stands inside a codec, at any depth. -/
theorem Inside.any {p : Codec → Bool} {b c : Codec} (h : b.Inside c) (hb : p b = true) : c.any p = true := by
  induction h with
  | self => cases b <;> simp [Codec.any, hb]
  | declared _ ih | element _ ih | entry _ ih | key _ ih | value _ ih | write _ ih | read _ ih => simp [Codec.any, ih]

private theorem mem_indices_of_inside {i : Nat} {b c : Codec} (h : b.Inside c) (hb : i ∈ b.indices) :
    i ∈ c.indices := by
  induction h with
  | self => exact hb
  | declared _ ih | element _ ih | entry _ ih => exact ih
  | key _ ih | write _ ih => exact List.mem_append_left _ ih
  | value _ ih | read _ ih => exact List.mem_append_right _ ih

theorem Refers.mem_indices {i : Nat} {c : Codec} : c.Refers i → i ∈ c.indices
  | .inl h => mem_indices_of_inside h (List.mem_singleton_self i)
  | .inr ⟨_, h⟩ => mem_indices_of_inside h (List.mem_singleton_self i)

/-- What is referred to inside a part is referred to. -/
private theorem Refers.inside {i : Nat} {b c : Codec} (h : b.Refers i)
    (hin : ∀ {a : Codec}, a.Inside b → a.Inside c) : c.Refers i :=
  h.imp hin fun ⟨nullSafe, h⟩ => ⟨nullSafe, hin h⟩

end Codec

/-! ### Tidy bindings -/

/-- Bindings are numbered, each type is bound once and with the source it calls for, and each attached converter
once. -/
structure Tidy (namePrefix : String) (params : List String) (bs : List Binding) : Prop where
  numbered : Numbered namePrefix bs
  sources : ∀ b ∈ bs, b.source.isAttached = false → b.ty.CallsFor params b.source
  types : bs.Pairwise fun b b' => b.source.isAttached = false → b'.source.isAttached = false → b.ty ≠ b'.ty
  paths : bs.Pairwise fun b b' => b.source.isAttached = true → b.source ≠ b'.source

namespace Tidy

variable {namePrefix : String} {params : List String} {bs : List Binding}

private theorem nil : Tidy namePrefix params [] := ⟨by simp [Numbered], by simp, .nil, .nil⟩

private theorem pairwise_snoc {α : Type} {R : α → α → Prop} {l : List α} {x : α} (h : l.Pairwise R)
    (hx : ∀ y ∈ l, R y x) : (l ++ [x]).Pairwise R :=
  List.pairwise_append.2 ⟨h, .cons (by simp) .nil, fun y hy z hz => List.mem_singleton.1 hz ▸ hx y hy⟩

/-- A type that is not bound yet is bound with the source it calls for. -/
private theorem bind (h : Tidy namePrefix params bs) {b : Binding} (hname : b.name = namePrefix ++ toString bs.length)
    (hsource : b.ty.CallsFor params b.source) (hnew : ∀ b' ∈ bs, b'.source.isAttached = false → b'.ty ≠ b.ty) :
    Tidy namePrefix params (bs ++ [b]) where
  numbered := h.numbered.snoc hname
  sources b' hb' hs := by
    rcases List.mem_append.1 hb' with hold | hb
    · exact h.sources b' hold hs
    · rw [List.mem_singleton.1 hb]
      exact hsource
  types := pairwise_snoc h.types fun b' hb' hs _ => hnew b' hb' hs
  paths := pairwise_snoc h.paths fun b' _ hs heq => by
    rw [heq, hsource.isAttached] at hs
    cases hs

/-- A converter that is not attached yet is attached. -/
private theorem attach (h : Tidy namePrefix params bs) {b : Binding}
    (hname : b.name = namePrefix ++ toString bs.length) (hs : b.source.isAttached = true)
    (hnew : ∀ b' ∈ bs, b'.source ≠ b.source) : Tidy namePrefix params (bs ++ [b]) where
  numbered := h.numbered.snoc hname
  sources b' hb' hb's := by
    rcases List.mem_append.1 hb' with hold | hb
    · exact h.sources b' hold hb's
    · rw [List.mem_singleton.1 hb, hs] at hb's
      cases hb's
  types := pairwise_snoc h.types fun b' _ _ hb's => by
    rw [hs] at hb's
    cases hb's
  paths := pairwise_snoc h.paths fun b' hb' _ => hnew b' hb'

end Tidy

/-! ### Planning -/

namespace PlanScope

variable {scope : PlanScope} {s s' : Planning} {c : Codec}

private theorem bind_tidy {ty : TypeRef} {source : BindingSource} {i : Nat}
    (hsource : ty.CallsFor scope.declaration.params source) (h : scope.bind ty source s = .ok i s')
    (hs : Tidy scope.namePrefix scope.declaration.params s.bindings) :
    Tidy scope.namePrefix scope.declaration.params s'.bindings := by
  rcases bind_cases h with ⟨rfl, -⟩ | ⟨-, hnew, rfl⟩
  · exact hs
  · exact hs.bind rfl hsource hnew

private theorem bindAttached_tidy {path : String} {i : Nat} (h : scope.bindAttached path s = .ok i s')
    (hs : Tidy scope.namePrefix scope.declaration.params s.bindings) :
    Tidy scope.namePrefix scope.declaration.params s'.bindings := by
  rcases bindAttached_cases h with ⟨rfl, -⟩ | ⟨-, hnew, rfl⟩
  · exact hs
  · exact hs.attach rfl rfl hnew

/-- At most the binding that is given back is new. -/
private theorem bind_new {ty : TypeRef} {source : BindingSource} {i j : Nat} (h : scope.bind ty source s = .ok i s')
    (hle : s.bindings.length ≤ j) (hlt : j < s'.bindings.length) : j = i := by
  rcases bind_cases h with ⟨rfl, -⟩ | ⟨rfl, -, rfl⟩
  · omega
  · rw [List.length_append, List.length_singleton] at hlt
    omega

private theorem bindAttached_new {path : String} {i j : Nat} (h : scope.bindAttached path s = .ok i s')
    (hle : s.bindings.length ≤ j) (hlt : j < s'.bindings.length) : j = i := by
  rcases bindAttached_cases h with ⟨rfl, -⟩ | ⟨rfl, -, rfl⟩
  · omega
  · rw [List.length_append, List.length_singleton] at hlt
    omega

namespace Unwraps

variable {runtime : Bool} {ty : TypeRef}

private theorem tidy (h : Unwraps scope runtime ty s c s')
    (hs : Tidy scope.namePrefix scope.declaration.params s.bindings) :
    Tidy scope.namePrefix scope.declaration.params s'.bindings := by
  induction h with
  | dynamic | inline => exact hs
  | bind hsource h => exact bind_tidy hsource h hs
  | list _ _ ih | objectMap _ _ _ ih => exact ih hs
  | pairMap _ _ _ _ ihv ihk => exact ihk (ihv hs)

/-- What was bound is referred to: at a leaf the binding that was added, and in a container what its parts refer
to. -/
private theorem used (h : Unwraps scope runtime ty s c s') :
    ∀ i, s.bindings.length ≤ i → i < s'.bindings.length → c.Refers i := by
  induction h with
  | dynamic | inline => exact fun i hle hlt => absurd hlt (by omega)
  | bind _ h =>
    intro i hle hlt
    obtain rfl := bind_new h hle hlt
    exact .inl .self
  | list _ _ ih => exact fun i hle hlt => (ih i hle hlt).inside .element
  | objectMap _ _ _ ih => exact fun i hle hlt => (ih i hle hlt).inside .entry
  | @pairMap _ _ _ s s₁ s' _ _ _ _ _ _ _ ihv ihk =>
    intro i hle hlt
    by_cases hi : i < s₁.bindings.length
    · exact (ihv i hle hi).inside .value
    · exact (ihk i (by omega) hlt).inside .key

end Unwraps

namespace Prepares

private theorem tidy (h : Prepares scope s c s') (hs : Tidy scope.namePrefix scope.declaration.params s.bindings) :
    Tidy scope.namePrefix scope.declaration.params s'.bindings := by
  cases h with
  | declared _ h | runtime _ h => exact h.tidy hs

private theorem used (h : Prepares scope s c s') (i : Nat) (hle : s.bindings.length ≤ i)
    (hlt : i < s'.bindings.length) : c.Refers i := by
  cases h with
  | declared _ h => exact h.used i hle hlt
  | runtime _ h => exact (h.used i hle hlt).inside .declared

end Prepares

namespace Covers

private theorem tidy (h : Covers scope s c s') (hs : Tidy scope.namePrefix scope.declaration.params s.bindings) :
    Tidy scope.namePrefix scope.declaration.params s'.bindings := by
  cases h with
  | planned _ h => exact h.tidy hs
  | attached _ _ hi => exact bindAttached_tidy hi hs
  | write _ _ hi h | read _ _ hi h => exact h.tidy (bindAttached_tidy hi hs)

private theorem used (h : Covers scope s c s') (i : Nat) (hle : s.bindings.length ≤ i)
    (hlt : i < s'.bindings.length) : c.Refers i := by
  cases h with
  | planned _ h => exact h.used i hle hlt
  | attached _ _ hi =>
    obtain rfl := bindAttached_new hi hle hlt
    exact .inr ⟨_, .self⟩
  | @write _ _ _ s₁ _ _ _ hi h =>
    by_cases hlt₁ : i < s₁.bindings.length
    · obtain rfl := bindAttached_new hi hle hlt₁
      exact .inr ⟨_, .write .self⟩
    · exact (h.used i (by omega) hlt).inside .read
  | @read _ _ _ s₁ _ _ _ hi h =>
    by_cases hlt₁ : i < s₁.bindings.length
    · obtain rfl := bindAttached_new hi hle hlt₁
      exact .inr ⟨_, .read .self⟩
    · exact (h.used i (by omega) hlt).inside .write

end Covers

namespace CoversAll

variable {model : Model} {namePrefix : String} {d : Declaration} {fs : List Field} {cs : List Codec}

private theorem tidy (h : CoversAll model namePrefix d fs s cs s') (hs : Tidy namePrefix d.params s.bindings) :
    Tidy namePrefix d.params s'.bindings := by
  induction h with
  | nil => exact hs
  | cons h _ ih => exact ih (h.tidy hs)

private theorem used (h : CoversAll model namePrefix d fs s cs s') :
    ∀ i, s.bindings.length ≤ i → i < s'.bindings.length → ∃ c ∈ cs, c.Refers i := by
  induction h with
  | nil => exact fun i hle hlt => absurd hlt (by omega)
  | @cons _ _ c cs _ s₁ _ h _ ih =>
    intro i hle hlt
    by_cases hi : i < s₁.bindings.length
    · exact ⟨c, List.mem_cons_self, h.used i hle hi⟩
    · obtain ⟨c', hc', hrefers⟩ := ih i (by omega) hlt
      exact ⟨c', List.mem_cons_of_mem _ hc', hrefers⟩

end CoversAll

end PlanScope

/-- Each binding of a plan is tidy, and there is a field that needs it. -/
theorem planFields_tidy {model : Model} {namePrefix : String} {d : Declaration} {catalog catalog' : Catalog}
    {plan : FieldPlan} (h : planFields model namePrefix d catalog = (.ok plan, catalog')) :
    Tidy namePrefix d.params plan.bindings ∧ ∀ i < plan.bindings.length, ∃ c ∈ plan.codecs, c.Refers i := by
  have hcovers := coversAll_of_planFields h
  exact ⟨hcovers.tidy .nil, fun i hi => hcovers.used i (Nat.zero_le i) hi⟩

end Marshal
