import Mathlib.Data.List.Forall2
import Marshal.Plan.Fields
import Marshal.Proofs.Plan.Renumbered

/-!
# Plans side by side

What planning a field does is decided by its type and by which types lack an adapter; the catalog and the names of the
bindings only end up in the bindings.  So two plans for fields of one type, each with a model and a catalog of its
own, come to codecs that differ by their indices at most, as long as the steps that enter a binding keep the two
states related (`Alongside`).  With one plan on both sides this is a rule for what all bindings have in common.
-/

namespace Marshal

open Effect

variable {α β γ δ : Type} {R : Planning → Planning → Prop} {A : α → β → Prop} {B : γ → δ → Prop}

/-- Begun in states related by `R`, the two plans come to results related by `A` in related states, or to the same
error. -/
def Abreast (R : Planning → Planning → Prop) (A : α → β → Prop) (m : PlanM α) (m' : PlanM β) : Prop :=
  ∀ s s', R s s' →
    (∃ a b t t', m s = .ok a t ∧ m' s' = .ok b t' ∧ A a b ∧ R t t') ∨ ∃ e t t', m s = .error e t ∧ m' s' = .error e t'

namespace Abreast

variable {m : PlanM α} {m' : PlanM β} {f : α → PlanM γ} {f' : β → PlanM δ}

private theorem pure {a : α} {b : β} (h : A a b) : Abreast R A (pure a) (pure b) :=
  fun s s' hs => .inl ⟨a, b, s, s', rfl, rfl, h, hs⟩

theorem mono {A' : α → β → Prop} (hA : ∀ a b, A a b → A' a b) (h : Abreast R A m m') : Abreast R A' m m' := by
  intro s s' hs
  refine (h s s' hs).imp_left ?_
  rintro ⟨a, b, t, t', hm, hm', hab, ht⟩
  exact ⟨a, b, t, t', hm, hm', hA a b hab, ht⟩

private theorem throw (e : GenerateError) : Abreast R A (throw e) (throw e) := fun s s' _ => .inr ⟨e, s, s', rfl, rfl⟩

private theorem bind (h : Abreast R A m m') (hf : ∀ a b, A a b → Abreast R B (f a) (f' b)) :
    Abreast R B (m >>= f) (m' >>= f') := by
  intro s s' hs
  rcases h s s' hs with ⟨a, b, t, t', hm, hm', hab, ht⟩ | ⟨e, t, t', hm, hm'⟩
  · rw [bind_of_ok hm, bind_of_ok hm']
    exact hf a b hab t t' ht
  · exact .inr ⟨e, t, t', bind_of_error hm, bind_of_error hm'⟩

private theorem mapM {l : List α} {l' : List β} (h : List.Forall₂ (fun a b => Abreast R B (f a) (f' b)) l l') :
    Abreast R (List.Forall₂ B) (l.mapM f) (l'.mapM f') := by
  induction h with
  | nil => exact pure .nil
  | cons ha _ ih =>
    rw [List.mapM_cons, List.mapM_cons]
    exact ha.bind fun c d hcd => ih.bind fun cs ds hcds => pure (.cons hcd hcds)

end Abreast

/-- Two scopes for fields that may differ in their attached converters: they tell apart the same types, and their
bindings are entered abreast, at positions related by `I`.  `Q` holds of the types that are looked at. -/
structure PlanScope.Alongside (I : Nat → Nat → Prop) (R : Planning → Planning → Prop) (Q : TypeRef → Prop)
    (scope scope' : PlanScope) : Prop where
  path : scope'.declaration.path = scope.declaration.path
  params : scope'.declaration.params = scope.declaration.params
  name : scope'.field.name = scope.field.name
  ty : scope'.field.ty = scope.field.ty
  runtime : scope'.field.writesRuntimeType = scope.field.writesRuntimeType
  element : ∀ {t}, Q (.array t) → Q t
  args : ∀ {path args}, Q (.named path args) → ∀ t ∈ args, Q t
  lacksAdapter : ∀ {ty}, Q ty → scope'.lacksAdapter ty = scope.lacksAdapter ty
  bindGetter : ∀ {ty}, Q ty → scope.lacksAdapter ty = false → Abreast R I (scope.bindGetter ty) (scope'.bindGetter ty)
  bind : ∀ {ty source}, Q ty → source.isAttached = false → source.isRegistry = false →
    Abreast R I (scope.bind ty source) (scope'.bind ty source)

namespace PlanScope.Alongside

variable {I : Nat → Nat → Prop} {Q : TypeRef → Prop} {scope scope' : PlanScope} (h : Alongside I R Q scope scope')

include h

private theorem unknownVariable : scope'.unknownVariable = scope.unknownVariable := by
  funext name
  rw [PlanScope.unknownVariable, PlanScope.unknownVariable, h.path, h.name]

private theorem leaf {ty : TypeRef} (hty : Q ty) (runtime : Bool) :
    Abreast R (Codec.Renumbered I) (scope.leaf runtime ty) (scope'.leaf runtime ty) := by
  unfold PlanScope.leaf
  rw [h.lacksAdapter hty, h.params, h.path, h.name, h.unknownVariable]
  by_cases hany : ty.isAny = true
  · rw [if_pos hany, if_pos hany]
    exact .pure .dynamic
  rw [if_neg hany, if_neg hany]
  by_cases hconcrete : ty.isConcrete = true
  · rw [if_pos hconcrete, if_pos hconcrete]
    by_cases hlacks : scope.lacksAdapter ty = true
    · rw [if_pos hlacks, if_pos hlacks]
      by_cases hruntime : runtime = true
      · rw [if_pos hruntime]
        exact .pure .dynamic
      · rw [if_neg hruntime]
        exact .throw _
    · rw [if_neg hlacks, if_neg hlacks]
      exact (h.bindGetter hty (Bool.eq_false_iff.2 hlacks)).bind fun _ _ hij => .pure (.binding hij)
  · rw [if_neg hconcrete, if_neg hconcrete]
    cases TypeToken.ofType scope.declaration.params ty with
    | error name => exact .throw _
    | ok token =>
      cases token with
      | param index => exact (h.bind hty rfl rfl).bind fun _ _ hij => .pure (.binding hij)
      | «class» _ | array _ | parameterized _ _ => exact (h.bind hty rfl rfl).bind fun _ _ hij => .pure (.binding hij)

private theorem native {ty : TypeRef} (hty : Q ty) (kind : NativeKind) :
    Abreast R (Codec.Renumbered I) (scope.native kind ty) (scope'.native kind ty) := by
  unfold PlanScope.native
  by_cases hinline : kind.isInline = true
  · rw [if_pos hinline, if_pos hinline]
    exact .pure (.native kind)
  · rw [if_neg hinline, if_neg hinline]
    exact (h.bind hty rfl rfl).bind fun _ _ hij => .pure (.binding hij)

omit h in
private theorem mapCodec {keyKind : Option NativeKind} {key key' value value' : PlanM Codec} {i : Instantiator}
    (hkey : Abreast R (Codec.Renumbered I) key key') (hvalue : Abreast R (Codec.Renumbered I) value value') :
    Abreast R (Codec.Renumbered I) (mapCodec keyKind key value i) (PlanScope.mapCodec keyKind key' value' i) := by
  refine hvalue.bind fun v v' hv => ?_
  cases keyKind with
  | none => exact hkey.bind fun _ _ hk => .pure (.pairMap i hk hv)
  | some kind =>
    by_cases hkind : kind.isKey = true
    · simp only [if_pos hkind]
      exact .pure (.objectMap kind i hv)
    · simp only [if_neg hkind]
      exact hkey.bind fun _ _ hk => .pure (.pairMap i hk hv)

/-- By recursion on the type, as its containers are unwrapped. -/
private theorem codec (runtime : Bool) :
    ∀ ty : TypeRef, Q ty → Abreast R (Codec.Renumbered I) (scope.codec runtime ty) (scope'.codec runtime ty)
  | .array element, hty => by
    rw [PlanScope.codec, PlanScope.codec]
    exact (codec runtime element (h.element hty)).bind fun _ _ hc => .pure (.sequence .array hc)
  | .var name, hty => by
    rw [PlanScope.codec, PlanScope.codec]
    exact h.leaf hty runtime
  | .named path [], hty => by
    rw [PlanScope.codec, PlanScope.codec]
    cases NativeKind.ofPath? path with
    | some kind => exact h.native hty kind
    | none =>
      cases Instantiator.ofPath? path with
      | none => exact h.leaf hty runtime
      | some i =>
        by_cases hmap : i.isMap = true
        · simp only [if_pos hmap]
          exact .pure (.pairMap i .dynamic .dynamic)
        · simp only [if_neg hmap]
          exact .pure (.sequence i .dynamic)
  | .named path [a], hty => by
    rw [PlanScope.codec, PlanScope.codec]
    have ha := codec runtime a (h.args hty a (List.mem_singleton_self a))
    cases Instantiator.ofPath? path with
    | none => exact h.leaf hty runtime
    | some i =>
      by_cases hmap : i.isMap = true
      · simp only [if_pos hmap]
        exact mapCodec ha (.pure .dynamic)
      · simp only [if_neg hmap]
        exact ha.bind fun _ _ hc => .pure (.sequence i hc)
  | .named path (a :: b :: rest), hty => by
    rw [PlanScope.codec, PlanScope.codec]
    have ha := codec runtime a (h.args hty a (List.mem_cons_self ..))
    have hb := codec runtime b (h.args hty b (List.mem_cons_of_mem a (List.mem_cons_self ..)))
    cases Instantiator.ofPath? path with
    | none => exact h.leaf hty runtime
    | some i =>
      by_cases hmap : i.isMap = true
      · simp only [if_pos hmap]
        exact mapCodec ha hb
      · simp only [if_neg hmap]
        exact ha.bind fun _ _ hc => .pure (.sequence i hc)

variable (hfield : Q scope.field.ty)

include hfield

private theorem planned : Abreast R (Codec.Renumbered I) scope.planned scope'.planned := by
  unfold PlanScope.planned
  rw [h.ty, h.runtime]
  by_cases hruntime : scope.field.writesRuntimeType = true
  · rw [if_pos hruntime, if_pos hruntime]
    exact (h.codec true _ hfield).bind fun _ _ hc => .pure (.runtimeType hc)
  · rw [if_neg hruntime, if_neg hruntime]
    exact h.codec false _ hfield

/-- With the same converter attached on both sides, if any. -/
theorem plan (hconverter : scope'.field.converter = scope.field.converter)
    (hattached : ∀ x, scope.field.converter = some x → Abreast R I (scope.bindAttached x.path)
      (scope'.bindAttached x.path)) :
    Abreast R (Codec.Renumbered I) scope.plan scope'.plan := by
  unfold PlanScope.plan
  rw [h.ty, h.params, h.unknownVariable, hconverter]
  cases scope.field.ty.vars.find? fun name => !scope.declaration.params.contains name with
  | some name => exact .throw _
  | none =>
    cases hx : scope.field.converter with
    | none => exact h.planned hfield
    | some x =>
      refine (hattached x hx).bind fun i j hij => ?_
      cases x.usage with
      | both => exact .pure (.attached x.nullSafe hij)
      | write => exact (h.planned hfield).bind fun _ _ hc => .pure (.split (.attached x.nullSafe hij) hc)
      | read => exact (h.planned hfield).bind fun _ _ hc => .pure (.split hc (.attached x.nullSafe hij))

/-- With a converter for one direction attached on the first side only. -/
theorem plan_freed {x : FieldConverter} (hx : scope.field.converter = some x) (hx' : scope'.field.converter = none)
    (husage : x.usage ≠ .both) (hattached : ∀ s s', R s s' → ∃ i t, scope.bindAttached x.path s = .ok i t ∧ R t s') :
    Abreast R (Codec.Freed I x.usage) scope.plan scope'.plan := by
  unfold PlanScope.plan
  rw [h.ty, h.params, h.unknownVariable, hx, hx']
  cases scope.field.ty.vars.find? fun name => !scope.declaration.params.contains name with
  | some name => exact .throw _
  | none =>
    intro s s' hs
    obtain ⟨i, t, hi, ht⟩ := hattached s s' hs
    have hplanned {usage : ConverterUse} {f : Codec → Codec}
        (hf : ∀ c c', c.Renumbered I c' → (f c).Freed I usage c') :
        Abreast R (Codec.Freed I usage) (do return f (← scope.planned)) scope'.planned := by
      have hbind : Abreast R (Codec.Freed I usage) (do return f (← scope.planned)) (scope'.planned >>= Pure.pure) :=
        (h.planned hfield).bind fun c c' hc => .pure (hf c c' hc)
      rwa [bind_pure] at hbind
    simp only [bind_of_ok hi]
    cases hu : x.usage with
    | both => exact absurd hu husage
    | write => exact hplanned (fun c c' hc => .write rfl rfl hc) t s' ht
    | read => exact hplanned (fun c c' hc => .read rfl rfl hc) t s' ht

end PlanScope.Alongside

/-- The plans of all fields of two declarations, begun without bindings. -/
theorem planFields_abreast {model model' : Model} {namePrefix namePrefix' : String} {d d' : Declaration}
    {catalog catalog' : Catalog} {A : Codec → Codec → Prop} (hfields : List.Forall₂ (fun f f' =>
      Abreast R A (PlanScope.plan ⟨model, namePrefix, d, f⟩) (PlanScope.plan ⟨model', namePrefix', d', f'⟩))
        d.fields d'.fields)
    (hstart : R ⟨catalog, []⟩ ⟨catalog', []⟩) :
    (∃ plan plan' filled filled', planFields model namePrefix d catalog = (.ok plan, filled) ∧
      planFields model' namePrefix' d' catalog' = (.ok plan', filled') ∧ List.Forall₂ A plan.codecs plan'.codecs ∧
      R ⟨filled, plan.bindings⟩ ⟨filled', plan'.bindings⟩) ∨
    ∃ e filled filled', planFields model namePrefix d catalog = (.error e, filled) ∧
      planFields model' namePrefix' d' catalog' = (.error e, filled') := by
  unfold planFields
  rcases Abreast.mapM hfields _ _ hstart with ⟨codecs, codecs', t, t', hm, hm', hcodecs, ht⟩ | ⟨e, t, t', hm, hm'⟩
  · left
    simp only [EStateM.run, hm, hm']
    exact ⟨_, _, _, _, rfl, rfl, hcodecs, ht⟩
  · right
    simp only [EStateM.run, hm, hm']
    exact ⟨_, _, _, rfl, rfl⟩

/-- Bindings that are entered abreast at the same positions lead to the same codecs. -/
theorem planFields_same {model model' : Model} {namePrefix namePrefix' : String} {d : Declaration}
    {catalog catalog' : Catalog} {Q : TypeRef → Prop} (hfields : ∀ f ∈ d.fields, Q f.ty ∧
      PlanScope.Alongside Eq R Q ⟨model, namePrefix, d, f⟩ ⟨model', namePrefix', d, f⟩ ∧
      ∀ x, f.converter = some x → Abreast R Eq (PlanScope.bindAttached ⟨model, namePrefix, d, f⟩ x.path)
        (PlanScope.bindAttached ⟨model', namePrefix', d, f⟩ x.path))
    (hstart : R ⟨catalog, []⟩ ⟨catalog', []⟩) :
    (∃ plan plan' filled filled', planFields model namePrefix d catalog = (.ok plan, filled) ∧
      planFields model' namePrefix' d catalog' = (.ok plan', filled') ∧ plan'.codecs = plan.codecs ∧
      R ⟨filled, plan.bindings⟩ ⟨filled', plan'.bindings⟩) ∨
    ∃ e filled filled', planFields model namePrefix d catalog = (.error e, filled) ∧
      planFields model' namePrefix' d catalog' = (.error e, filled') := by
  have hplans : List.Forall₂ (fun f f' => Abreast R (Codec.Renumbered Eq) (PlanScope.plan ⟨model, namePrefix, d, f⟩)
      (PlanScope.plan ⟨model', namePrefix', d, f'⟩)) d.fields d.fields := by
    refine List.forall₂_same.2 fun f hf => ?_
    obtain ⟨hty, halongside, hattached⟩ := hfields f hf
    exact halongside.plan hty rfl hattached
  refine (planFields_abreast hplans hstart).imp_left ?_
  rintro ⟨plan, plan', filled, filled', hplan, hplan', hcodecs, ht⟩
  refine ⟨plan, plan', filled, filled', hplan, hplan', ?_, ht⟩
  have heq : List.Forall₂ Eq plan'.codecs plan.codecs := hcodecs.flip.imp fun _ _ h => h.eq
  exact List.forall₂_eq_eq_eq ▸ heq

end Marshal
