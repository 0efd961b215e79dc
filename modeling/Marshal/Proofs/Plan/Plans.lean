import Mathlib.Data.List.Forall2
import Marshal.Adapter.Generate
import Marshal.Proofs.Converter.Faults
import Marshal.Proofs.Plan.Unwrapping

/-!
# What plans mean

A plan ties the codec of a field to its type through the bindings (`Codes`, `Plans`), and every binding has a source
that gives the converter of the bound type (`Binding.Fits`).  Planning only adds bindings, so what was planned for one
field stays true while the next ones are planned.
-/

namespace Marshal

open Effect

/-! ### Codecs of types -/

/-- The source of a binding gives the converter of the type that is bound. -/
def Binding.Fits (params : List String) (b : Binding) : Prop :=
  match b.source with
  | .known kind _ => b.ty.native? = some kind
  | .registry _ => b.ty.isConcrete = true
  | .param index => TypeToken.ofType params b.ty = .ok (.param index)
  | .discover token => TypeToken.ofType params b.ty = .ok token
  | .attached _ => True

/-- The codec encodes a type container by container; `runtime` says that the field is written by runtime type. -/
inductive Codes (bs : List Binding) (runtime : Bool) : TypeRef → Codec → Prop
  | native {ty : TypeRef} {kind : NativeKind} (h : ty.native? = some kind) : Codes bs runtime ty (.native kind)
  | binding {ty : TypeRef} {i : Nat} {b : Binding} (hb : bs[i]? = some b) (hty : b.ty = ty)
    (hs : b.source.isAttached = false) : Codes bs runtime ty (.binding i)
  | dynamic {ty : TypeRef} (h : ty.isAny = true ∨ runtime = true) : Codes bs runtime ty .dynamic
  | list {ty element : TypeRef} {i : Instantiator} {c : Codec} (h : ty.shape = .list element i)
    (hc : Codes bs runtime element c) : Codes bs runtime ty (.sequence c i)
  | objectMap {ty key value : TypeRef} {i : Instantiator} {kind : NativeKind} {c : Codec}
    (h : ty.shape = .map key value i) (hk : key.native?.filter (·.isKey) = some kind)
    (hc : Codes bs runtime value c) : Codes bs runtime ty (.objectMap kind c i)
  | pairMap {ty key value : TypeRef} {i : Instantiator} {k v : Codec} (h : ty.shape = .map key value i)
    (hk : key.native?.filter (·.isKey) = none) (hkey : Codes bs runtime key k) (hvalue : Codes bs runtime value v) :
    Codes bs runtime ty (.pairMap k v i)

/-- The codec is what a field is planned to be encoded with. -/
inductive Plans (bs : List Binding) (f : Field) : Codec → Prop
  | declared {c : Codec} (hf : f.writesRuntimeType = false) (hc : Codes bs false f.ty c) : Plans bs f c
  | runtime {c : Codec} (hf : f.writesRuntimeType = true) (hc : Codes bs true f.ty c) : Plans bs f (.runtimeType c)

/-- A binding takes the converter that is attached to a field. -/
def Attaches (bs : List Binding) (converter : FieldConverter) (i : Nat) : Prop :=
  ∃ b, bs[i]? = some b ∧ b.source = .attached converter.path

/-- The codec of a field: what it is planned to be encoded with, but in the directions that an attached converter
takes over. -/
inductive FieldCodes (bs : List Binding) (f : Field) : Codec → Prop
  | planned {c : Codec} (hf : f.converter = none) (hc : Plans bs f c) : FieldCodes bs f c
  | attached {converter : FieldConverter} {i : Nat} (hf : f.converter = some converter)
    (husage : converter.usage = .both)
    (hb : Attaches bs converter i) : FieldCodes bs f (.attached i converter.nullSafe)
  | write {converter : FieldConverter} {i : Nat} {c : Codec} (hf : f.converter = some converter)
    (husage : converter.usage = .write) (hb : Attaches bs converter i) (hc : Plans bs f c) :
    FieldCodes bs f (.split (.attached i converter.nullSafe) c)
  | read {converter : FieldConverter} {i : Nat} {c : Codec} (hf : f.converter = some converter)
    (husage : converter.usage = .read) (hb : Attaches bs converter i) (hc : Plans bs f c) :
    FieldCodes bs f (.split c (.attached i converter.nullSafe))

section Mono

variable {bs bs' : List Binding} {f : Field} {c : Codec}

private theorem getElem?_of_isPrefix {i : Nat} {b : Binding} (h : bs <+: bs') (hb : bs[i]? = some b) :
    bs'[i]? = some b := by
  obtain ⟨more, rfl⟩ := h
  obtain ⟨hi, -⟩ := List.getElem?_eq_some_iff.1 hb
  rw [List.getElem?_append_left hi, hb]

private theorem Codes.mono {runtime : Bool} {ty : TypeRef} (h : bs <+: bs') (hc : Codes bs runtime ty c) :
    Codes bs' runtime ty c := by
  induction hc with
  | native hn => exact .native hn
  | binding hb hty hs => exact .binding (getElem?_of_isPrefix h hb) hty hs
  | dynamic hd => exact .dynamic hd
  | list hs _ ih => exact .list hs ih
  | objectMap hs hk _ ih => exact .objectMap hs hk ih
  | pairMap hs hk _ _ ihk ihv => exact .pairMap hs hk ihk ihv

private theorem Plans.mono (h : bs <+: bs') (hc : Plans bs f c) : Plans bs' f c := by
  cases hc with
  | declared hf hc => exact .declared hf (hc.mono h)
  | runtime hf hc => exact .runtime hf (hc.mono h)

private theorem Attaches.mono {converter : FieldConverter} {i : Nat} (h : bs <+: bs') (hb : Attaches bs converter i) :
    Attaches bs' converter i := by
  obtain ⟨b, hb, hsource⟩ := hb
  exact ⟨b, getElem?_of_isPrefix h hb, hsource⟩

private theorem FieldCodes.mono (h : bs <+: bs') (hc : FieldCodes bs f c) : FieldCodes bs' f c := by
  cases hc with
  | planned hf hc => exact .planned hf (hc.mono h)
  | attached hf husage hb => exact .attached hf husage (hb.mono h)
  | write hf husage hb hc => exact .write hf husage (hb.mono h) (hc.mono h)
  | read hf husage hb hc => exact .read hf husage (hb.mono h) (hc.mono h)

/-- Without an attached converter a field is encoded as planned. -/
theorem FieldCodes.plans (hc : FieldCodes bs f c) (hconverter : f.converter = none) : Plans bs f c := by
  cases hc with
  | planned _ hplans => exact hplans
  | attached hsome => exact absurd (hconverter.symm.trans hsome) nofun
  | write hsome => exact absurd (hconverter.symm.trans hsome) nofun
  | read hsome => exact absurd (hconverter.symm.trans hsome) nofun

/-- If no binding takes an attached converter, none is attached to the field. -/
theorem FieldCodes.converter_eq_none (hc : FieldCodes bs f c) (h : ∀ b ∈ bs, b.source.isAttached = false) :
    f.converter = none := by
  have hnone {converter : FieldConverter} {i : Nat} (hb : Attaches bs converter i) : False := by
    obtain ⟨b, hb, hsource⟩ := hb
    have hattached := h b (List.mem_of_getElem? hb)
    rw [hsource] at hattached
    cases hattached
  cases hc with
  | planned hf _ => exact hf
  | attached _ _ hb | write _ _ hb _ | read _ _ hb _ => exact (hnone hb).elim

/-- Without an attached converter and with no runtime type to write, a field is encoded by its declared type. -/
theorem FieldCodes.codes (hc : FieldCodes bs f c) (hconverter : f.converter = none)
    (hdeclared : f.writesRuntimeType = false) : Codes bs false f.ty c := by
  cases hc.plans hconverter with
  | declared _ hcodes => exact hcodes
  | runtime hruntime _ =>
    rw [hdeclared] at hruntime
    cases hruntime

/-! ### Bindings in range -/

private theorem lt_of_getElem? {i : Nat} {b : Binding} (hb : bs[i]? = some b) : i < bs.length :=
  (List.getElem?_eq_some_iff.1 hb).1

private theorem Codes.lt_length {runtime : Bool} {ty : TypeRef} (hc : Codes bs runtime ty c) :
    ∀ i ∈ c.indices, i < bs.length := by
  induction hc with
  | native | dynamic => simp [Codec.indices]
  | binding hb =>
    intro i hi
    obtain rfl := List.mem_singleton.1 hi
    exact lt_of_getElem? hb
  | list _ _ ih => exact ih
  | objectMap _ _ _ ih => exact ih
  | pairMap _ _ _ _ ihk ihv =>
    intro i hi
    rcases List.mem_append.1 hi with hi | hi
    · exact ihk i hi
    · exact ihv i hi

private theorem Plans.lt_length (hc : Plans bs f c) : ∀ i ∈ c.indices, i < bs.length := by
  cases hc with
  | declared _ hc => exact hc.lt_length
  | runtime _ hc => exact hc.lt_length

private theorem Attaches.lt_length {converter : FieldConverter} {i : Nat} (hb : Attaches bs converter i) :
    i < bs.length := by
  obtain ⟨b, hb, -⟩ := hb
  exact lt_of_getElem? hb

theorem FieldCodes.lt_length (hc : FieldCodes bs f c) : ∀ i ∈ c.indices, i < bs.length := by
  cases hc with
  | planned _ hc => exact hc.lt_length
  | attached _ _ hb => exact fun i hi => List.mem_singleton.1 hi ▸ hb.lt_length
  | write _ _ hb hc => exact List.forall_mem_cons.2 ⟨hb.lt_length, hc.lt_length⟩
  | read _ _ hb hc =>
    intro i hi
    rcases List.mem_append.1 hi with hi | hi
    · exact hc.lt_length i hi
    · exact List.mem_singleton.1 hi ▸ hb.lt_length

end Mono

/-! ### Planning -/

/-- Bindings were added, each with a source that fits. -/
structure Grows (params : List String) (s s' : Planning) : Prop where
  pre : s.bindings <+: s'.bindings
  fits : (∀ b ∈ s.bindings, b.Fits params) → ∀ b ∈ s'.bindings, b.Fits params

namespace Grows

variable {params : List String} {s s₁ s' : Planning}

private theorem refl (s : Planning) : Grows params s s := ⟨List.prefix_rfl, id⟩

private theorem trans (h : Grows params s s₁) (h' : Grows params s₁ s') : Grows params s s' :=
  ⟨h.pre.trans h'.pre, h'.fits ∘ h.fits⟩

private theorem push {b : Binding} (hb : b.Fits params) (s : Planning) :
    Grows params s ⟨s.catalog, s.bindings ++ [b]⟩ where
  pre := List.prefix_append _ _
  fits h b' hb' := by
    rcases List.mem_append.1 hb' with hold | hnew
    · exact h b' hold
    · rwa [List.mem_singleton.1 hnew]

end Grows

/-- The source that a type calls for gives the converter of the type. -/
private theorem Binding.fits_of_callsFor {params : List String} {b : Binding} (h : b.ty.CallsFor params b.source) :
    b.Fits params := by
  unfold TypeRef.CallsFor at h
  split at h
  · next hn =>
    rw [Fits, h.2]
    exact hn
  · next name _ hty =>
    obtain ⟨i, hi, hs⟩ := h
    rw [Fits, hs, hty]
    simp only [TypeToken.ofType, hi]
  · split at h
    · next hconcrete =>
      obtain ⟨getter, hs⟩ := h
      rw [Fits, hs]
      exact hconcrete
    · obtain ⟨token, ht, hs⟩ := h
      rw [Fits, hs]
      exact ht

namespace PlanScope

variable {scope : PlanScope} {s s' : Planning}

/-- A bound type has a binding of its own. -/
private theorem bind_ok {ty : TypeRef} {source : BindingSource} {i : Nat}
    (hsource : ty.CallsFor scope.declaration.params source) (h : scope.bind ty source s = .ok i s') :
    Grows scope.declaration.params s s' ∧ ∃ b, s'.bindings[i]? = some b ∧ b.ty = ty ∧
      b.source.isAttached = false := by
  rcases bind_cases h with ⟨rfl, hb⟩ | ⟨rfl, -, rfl⟩
  · exact ⟨.refl _, hb⟩
  · exact ⟨.push (Binding.fits_of_callsFor hsource) s, _, List.getElem?_concat_length, rfl, hsource.isAttached⟩

private theorem bindAttached_ok {path : String} {i : Nat} (h : scope.bindAttached path s = .ok i s') :
    Grows scope.declaration.params s s' ∧ ∃ b, s'.bindings[i]? = some b ∧ b.source = .attached path := by
  rcases bindAttached_cases h with ⟨rfl, hb⟩ | ⟨rfl, -, rfl⟩
  · exact ⟨.refl _, hb⟩
  · have hfits (name : String) (ty : TypeRef) : Binding.Fits scope.declaration.params ⟨name, ty, .attached path⟩ :=
      trivial
    exact ⟨.push (hfits _ _) s, _, List.getElem?_concat_length, rfl⟩

private theorem Unwraps.codes {runtime : Bool} {ty : TypeRef} {c : Codec} (h : Unwraps scope runtime ty s c s') :
    Grows scope.declaration.params s s' ∧ Codes s'.bindings runtime ty c := by
  induction h with
  | dynamic h => exact ⟨.refl _, .dynamic h⟩
  | inline h => exact ⟨.refl _, .native h⟩
  | bind hsource h =>
    obtain ⟨hgrows, b, hb, hty, hs⟩ := bind_ok hsource h
    exact ⟨⟨hgrows.pre, hgrows.fits⟩, .binding hb hty hs⟩
  | list hshape _ ih => exact ⟨ih.1, .list hshape ih.2⟩
  | objectMap hshape hkind _ ih => exact ⟨ih.1, .objectMap hshape hkind ih.2⟩
  | pairMap hshape hkind _ _ ihv ihk =>
    exact ⟨ihv.1.trans ihk.1, .pairMap hshape hkind ihk.2 (ihv.2.mono ihk.1.pre)⟩

private theorem Prepares.plans {c : Codec} (h : Prepares scope s c s') :
    Grows scope.declaration.params s s' ∧ Plans s'.bindings scope.field c := by
  cases h with
  | declared hf h => exact ⟨h.codes.1, .declared hf h.codes.2⟩
  | runtime hf h => exact ⟨h.codes.1, .runtime hf h.codes.2⟩

private theorem Covers.fieldCodes {c : Codec} (h : Covers scope s c s') :
    Grows scope.declaration.params s s' ∧ FieldCodes s'.bindings scope.field c := by
  cases h with
  | planned hf h => exact ⟨h.plans.1, .planned hf h.plans.2⟩
  | attached hf husage hi =>
    obtain ⟨hgrows, hb⟩ := bindAttached_ok hi
    exact ⟨hgrows, .attached hf husage hb⟩
  | write hf husage hi h =>
    obtain ⟨hgrows, hb⟩ := bindAttached_ok hi
    exact ⟨hgrows.trans h.plans.1, .write hf husage (Attaches.mono h.plans.1.pre hb) h.plans.2⟩
  | read hf husage hi h =>
    obtain ⟨hgrows, hb⟩ := bindAttached_ok hi
    exact ⟨hgrows.trans h.plans.1, .read hf husage (Attaches.mono h.plans.1.pre hb) h.plans.2⟩

private theorem CoversAll.fieldCodes {model : Model} {namePrefix : String} {d : Declaration} {fs : List Field}
    {cs : List Codec} (h : CoversAll model namePrefix d fs s cs s') :
    Grows d.params s s' ∧ List.Forall₂ (FieldCodes s'.bindings) fs cs := by
  induction h with
  | nil => exact ⟨.refl _, .nil⟩
  | cons h _ ih => exact ⟨h.fieldCodes.1.trans ih.1, .cons (h.fieldCodes.2.mono ih.1.pre) ih.2⟩

end PlanScope

/-! ### Declarations -/

/-- The plan of all fields of a declaration. -/
theorem planFields_ok {model : Model} {namePrefix : String} {d : Declaration} {catalog catalog' : Catalog}
    {plan : FieldPlan} (h : planFields model namePrefix d catalog = (.ok plan, catalog')) :
    (∀ b ∈ plan.bindings, b.Fits d.params) ∧ List.Forall₂ (FieldCodes plan.bindings) d.fields plan.codecs := by
  obtain ⟨hgrows, hall⟩ := (coversAll_of_planFields h).fieldCodes
  exact ⟨hgrows.fits (by simp), hall⟩

end Marshal
