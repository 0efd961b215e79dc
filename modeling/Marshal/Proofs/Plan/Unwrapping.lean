import Marshal.Plan.Fields
import Marshal.Proofs.Effect

/-!
# Unwrapping types

What planning does, said once.  A type is unwrapped container by container down to its leaves, and each leaf is
encoded inline, left to the dynamic type, or bound with the source it calls for (`PlanScope.Unwraps`).  A field is
planned by its type, but in the directions that an attached converter takes over (`PlanScope.Covers`), and the fields
of a declaration are planned one after the other (`PlanScope.CoversAll`).
-/

namespace Marshal

open Effect

/-! ### Sources -/

/-- The source that a bound type calls for: the built-in converter of a native kind that is not inline, the argument
for a variable, discovery for any other type that mentions one, and otherwise the registry. -/
def TypeRef.CallsFor (params : List String) (ty : TypeRef) (source : BindingSource) : Prop :=
  match ty.native?, ty with
  | some kind, _ => kind.isInline = false ∧ source = .known kind kind.converterPath
  | none, .var name => ∃ i, paramIndex? params name = some i ∧ source = .param i
  | none, ty => if ty.isConcrete then ∃ getter, source = .registry getter
    else ∃ token, TypeToken.ofType params ty = .ok token ∧ source = .discover token

theorem TypeRef.CallsFor.isAttached {params : List String} {ty : TypeRef} {source : BindingSource}
    (h : ty.CallsFor params source) : source.isAttached = false := by
  unfold CallsFor at h
  split at h
  · rw [h.2]; rfl
  · obtain ⟨i, -, rfl⟩ := h
    rfl
  · split at h
    · obtain ⟨getter, rfl⟩ := h
      rfl
    · obtain ⟨token, -, rfl⟩ := h
      rfl

namespace TypeToken

/-- Variables are positions. -/
private theorem ofType_var {params : List String} {name : String} {token : TypeToken}
    (h : ofType params (.var name) = .ok token) :
    ∃ i, TypeRef.paramIndex? params name = some i ∧ token = .param i := by
  rw [ofType] at h
  cases hp : TypeRef.paramIndex? params name with
  | none =>
    rw [hp] at h
    cases h
  | some i =>
    rw [hp] at h
    exact ⟨i, rfl, (Except.ok.inj h).symm⟩

/-- No other types are. -/
private theorem ofType_eq_param {params : List String} {ty : TypeRef} {i : Nat}
    (h : ofType params ty = .ok (.param i)) : ∃ name, ty = .var name := by
  cases ty with
  | var name => exact ⟨name, rfl⟩
  | array element =>
    unfold ofType at h
    split at h
    · cases h
    · cases hel : ofType params element <;> simp [hel, Except.map] at h
  | named path args =>
    unfold ofType at h
    split at h
    · cases h
    · cases hargs : ofTypes params args <;> simp [hargs, Except.map] at h

end TypeToken

/-! ### Bindings -/

namespace PlanScope

variable {scope : PlanScope} {s s' : Planning} {ty : TypeRef} {source : BindingSource} {i : Nat}

private theorem getElem?_findIdx? {p : Binding → Bool} {bs : List Binding} (h : bs.findIdx? p = some i) :
    ∃ b, bs[i]? = some b ∧ p b = true := by
  obtain ⟨hi, hp, -⟩ := List.findIdx?_eq_some_iff_getElem.1 h
  exact ⟨bs[i], List.getElem?_eq_getElem hi, hp⟩

/-- A type is bound already, or it gets the next binding. -/
theorem bind_cases (h : scope.bind ty source s = .ok i s') :
    (s' = s ∧ ∃ b, s.bindings[i]? = some b ∧ b.ty = ty ∧ b.source.isAttached = false) ∨
      i = s.bindings.length ∧ (∀ b ∈ s.bindings, b.source.isAttached = false → b.ty ≠ ty) ∧
        s' = ⟨s.catalog, s.bindings ++ [⟨scope.namePrefix ++ toString s.bindings.length, ty, source⟩]⟩ := by
  rw [bind, bind_of_ok (get_apply s)] at h
  cases hf : s.bindings.findIdx? fun b => b.ty == ty && !b.source.isAttached with
  | some j =>
    simp only [hf] at h
    obtain ⟨rfl, rfl⟩ := ok_inj.1 h
    obtain ⟨b, hb, hp⟩ := getElem?_findIdx? hf
    rw [Bool.and_eq_true, beq_iff_eq, Bool.not_eq_true'] at hp
    exact .inl ⟨rfl, b, hb, hp.1, hp.2⟩
  | none =>
    simp only [hf] at h
    obtain ⟨rfl, rfl⟩ := ok_inj.1 h
    refine .inr ⟨rfl, fun b hb hs hty => ?_, rfl⟩
    simpa [hs, hty] using List.findIdx?_eq_none_iff.1 hf b hb

/-- A converter is attached already, or it gets the next binding. -/
theorem bindAttached_cases {path : String} (h : scope.bindAttached path s = .ok i s') :
    (s' = s ∧ ∃ b, s.bindings[i]? = some b ∧ b.source = .attached path) ∨
      i = s.bindings.length ∧ (∀ b ∈ s.bindings, b.source ≠ .attached path) ∧
        s' = ⟨s.catalog,
          s.bindings ++ [⟨scope.namePrefix ++ toString s.bindings.length, scope.field.ty, .attached path⟩]⟩ := by
  rw [bindAttached, bind_of_ok (get_apply s)] at h
  cases hf : s.bindings.findIdx? fun b => b.source == .attached path with
  | some j =>
    simp only [hf] at h
    obtain ⟨rfl, rfl⟩ := ok_inj.1 h
    obtain ⟨b, hb, hp⟩ := getElem?_findIdx? hf
    exact .inl ⟨rfl, b, hb, by simpa using hp⟩
  | none =>
    simp only [hf] at h
    obtain ⟨rfl, rfl⟩ := ok_inj.1 h
    refine .inr ⟨rfl, fun b hb hs => ?_, rfl⟩
    simpa [hs] using List.findIdx?_eq_none_iff.1 hf b hb

/-! ### Types -/

/-- What planning a type does; `runtime` says that the field is written by runtime type.  The catalog may change
before a type is bound. -/
inductive Unwraps (scope : PlanScope) (runtime : Bool) : TypeRef → Planning → Codec → Planning → Prop
  | dynamic {ty : TypeRef} {s : Planning} (h : ty.isAny = true ∨ runtime = true) :
      Unwraps scope runtime ty s .dynamic s
  | inline {ty : TypeRef} {s : Planning} {kind : NativeKind} (h : ty.native? = some kind) :
    Unwraps scope runtime ty s (.native kind) s
  | bind {ty : TypeRef} {s s' : Planning} {catalog : Catalog} {source : BindingSource} {i : Nat}
    (hsource : ty.CallsFor scope.declaration.params source)
    (h : scope.bind ty source ⟨catalog, s.bindings⟩ = .ok i s') : Unwraps scope runtime ty s (.binding i) s'
  | list {ty element : TypeRef} {s s' : Planning} {c : Codec} {inst : Instantiator}
    (hshape : ty.shape = .list element inst)
    (h : Unwraps scope runtime element s c s') : Unwraps scope runtime ty s (.sequence c inst) s'
  | objectMap {ty key value : TypeRef} {s s' : Planning} {kind : NativeKind} {c : Codec} {inst : Instantiator}
    (hshape : ty.shape = .map key value inst) (hkind : key.native?.filter (·.isKey) = some kind)
    (h : Unwraps scope runtime value s c s') : Unwraps scope runtime ty s (.objectMap kind c inst) s'
  | pairMap {ty key value : TypeRef} {s s₁ s' : Planning} {k v : Codec} {inst : Instantiator}
    (hshape : ty.shape = .map key value inst) (hkind : key.native?.filter (·.isKey) = none)
    (hvalue : Unwraps scope runtime value s v s₁) (hkey : Unwraps scope runtime key s₁ k s') :
    Unwraps scope runtime ty s (.pairMap k v inst) s'

variable {runtime : Bool} {c : Codec}

private theorem unwraps_of_bind (hsource : ty.CallsFor scope.declaration.params source) {catalog : Catalog}
    (h : (do return Codec.binding (← scope.bind ty source)) ⟨catalog, s.bindings⟩ = .ok c s') :
    Unwraps scope runtime ty s c s' := by
  obtain ⟨i, s₁, hi, hrest⟩ := bind_eq_ok.1 h
  obtain ⟨rfl, rfl⟩ := ok_inj.1 hrest
  exact .bind hsource hi

/-- A leaf is a type with no built-in converter. -/
private theorem unwraps_of_leaf (hn : ty.native? = none) (h : scope.leaf runtime ty s = .ok c s') :
    Unwraps scope runtime ty s c s' := by
  unfold leaf at h
  by_cases hany : ty.isAny = true
  · rw [if_pos hany] at h
    obtain ⟨rfl, rfl⟩ := ok_inj.1 h
    exact .dynamic (.inl hany)
  rw [if_neg hany] at h
  by_cases hty : ty.isConcrete = true
  · rw [if_pos hty] at h
    by_cases hlacks : scope.lacksAdapter ty = true
    · rw [if_pos hlacks] at h
      by_cases hr : runtime = true
      · rw [if_pos hr] at h
        obtain ⟨rfl, rfl⟩ := ok_inj.1 h
        exact .dynamic (.inr hr)
      · rw [if_neg hr] at h
        cases h
    · rw [if_neg hlacks] at h
      have hgetter : ty.CallsFor scope.declaration.params (.registry (s.catalog.bind ty).1) := by
        cases ty with
        | var name => simp [TypeRef.isConcrete] at hty
        | array _ | named _ _ =>
          simp only [TypeRef.CallsFor, hn, if_pos hty]
          exact ⟨_, rfl⟩
      exact unwraps_of_bind hgetter h
  · rw [if_neg hty] at h
    cases ht : TypeToken.ofType scope.declaration.params ty with
    | error name => simp [ht, throw_apply] at h
    | ok token =>
      simp only [ht] at h
      have hopen (hvar : ∀ name, ty ≠ .var name) : ty.CallsFor scope.declaration.params (.discover token) := by
        cases ty with
        | var name => exact absurd rfl (hvar name)
        | array _ | named _ _ =>
          simp only [TypeRef.CallsFor, hn, if_neg hty]
          exact ⟨token, ht, rfl⟩
      cases token with
      | param index =>
        obtain ⟨name, rfl⟩ := TypeToken.ofType_eq_param ht
        obtain ⟨i, hp, hi⟩ := TypeToken.ofType_var ht
        cases hi
        exact unwraps_of_bind ⟨index, hp, rfl⟩ h
      | «class» _ | array _ | parameterized _ _ =>
        refine unwraps_of_bind (hopen fun name hvar => ?_) h
        obtain ⟨i, -, hi⟩ := TypeToken.ofType_var (hvar ▸ ht)
        cases hi

private theorem unwraps_of_native {kind : NativeKind} (hn : ty.native? = some kind)
    (h : scope.native kind ty s = .ok c s') : Unwraps scope runtime ty s c s' := by
  unfold native at h
  by_cases hin : kind.isInline = true
  · rw [if_pos hin] at h
    obtain ⟨rfl, rfl⟩ := ok_inj.1 h
    exact .inline hn
  · rw [if_neg hin] at h
    refine unwraps_of_bind ?_ h
    simp only [TypeRef.CallsFor, hn]
    exact ⟨by simpa using hin, trivial⟩

private theorem unwraps_of_list {element : TypeRef} {inst : Instantiator} {plan : PlanM Codec}
    (hshape : ty.shape = .list element inst)
    (hplan : ∀ s c s', plan s = .ok c s' → Unwraps scope runtime element s c s')
    (h : (do return .sequence (← plan) inst : PlanM Codec) s = .ok c s') : Unwraps scope runtime ty s c s' := by
  obtain ⟨c₁, s₁, hc, hrest⟩ := bind_eq_ok.1 h
  obtain ⟨rfl, rfl⟩ := ok_inj.1 hrest
  exact .list hshape (hplan s c₁ s₁ hc)

private theorem unwraps_of_mapCodec {key value : TypeRef} {inst : Instantiator} {keyPlan valuePlan : PlanM Codec}
    (hshape : ty.shape = .map key value inst)
    (hkey : ∀ s c s', keyPlan s = .ok c s' → Unwraps scope runtime key s c s')
    (hvalue : ∀ s c s', valuePlan s = .ok c s' → Unwraps scope runtime value s c s')
    (h : mapCodec key.native? keyPlan valuePlan inst s = .ok c s') : Unwraps scope runtime ty s c s' := by
  obtain ⟨v, s₁, hv, hrest⟩ := bind_eq_ok.1 h
  have hpair (hkind : key.native?.filter (·.isKey) = none)
      (hrun : (do return .pairMap (← keyPlan) v inst : PlanM Codec) s₁ = .ok c s') :
      Unwraps scope runtime ty s c s' := by
    obtain ⟨k, s₂, hk, hrest⟩ := bind_eq_ok.1 hrun
    obtain ⟨rfl, rfl⟩ := ok_inj.1 hrest
    exact .pairMap hshape hkind (hvalue s v s₁ hv) (hkey s₁ k s₂ hk)
  cases hk : key.native? with
  | none =>
    simp only [hk] at hrest
    exact hpair (by rw [hk, Option.filter_none]) hrest
  | some kind =>
    simp only [hk] at hrest
    by_cases hkind : kind.isKey = true
    · rw [if_pos hkind] at hrest
      obtain ⟨rfl, rfl⟩ := ok_inj.1 hrest
      exact .objectMap hshape (by rw [hk, Option.filter_some, if_pos hkind]) (hvalue s v s₁ hv)
    · rw [if_neg hkind] at hrest
      exact hpair (by rw [hk, Option.filter_some, if_neg hkind]) hrest

/-- The shape of a container type. -/
private theorem shape_of_container {path : String} (args : List TypeRef) {inst : Instantiator}
    (hn : (TypeRef.named path args).native? = none) (hi : Instantiator.ofPath? path = some inst) :
    (TypeRef.named path args).shape = if inst.isMap then .map (TypeRef.argOrAny args 0) (TypeRef.argOrAny args 1) inst
      else .list (TypeRef.argOrAny args 0) inst := by
  simp only [TypeRef.shape, hn, hi]

/-- Planning a type unwraps it: by recursion on the type. -/
private theorem unwraps_of_codec : ∀ (ty : TypeRef) (s : Planning) (c : Codec) (s' : Planning),
    scope.codec runtime ty s = .ok c s' → Unwraps scope runtime ty s c s'
  | .array element, s, c, s', h => by
    rw [codec] at h
    exact unwraps_of_list rfl (unwraps_of_codec element) h
  | .var name, s, c, s', h => by
    rw [codec] at h
    exact unwraps_of_leaf rfl h
  | .named path [], s, c, s', h => by
    rw [codec] at h
    cases hn : NativeKind.ofPath? path with
    | some kind =>
      simp only [hn] at h
      exact unwraps_of_native (by rw [TypeRef.native?, hn]) h
    | none =>
      cases hi : Instantiator.ofPath? path with
      | none =>
        simp only [hn, hi] at h
        exact unwraps_of_leaf (by rw [TypeRef.native?, hn]) h
      | some inst =>
        simp only [hn, hi] at h
        have hshape := shape_of_container [] (by rw [TypeRef.native?, hn]) hi
        by_cases hmap : inst.isMap = true
        · rw [if_pos hmap] at h hshape
          obtain ⟨rfl, rfl⟩ := ok_inj.1 h
          exact .pairMap hshape rfl (.dynamic (.inl rfl)) (.dynamic (.inl rfl))
        · rw [if_neg hmap] at h hshape
          obtain ⟨rfl, rfl⟩ := ok_inj.1 h
          exact .list hshape (.dynamic (.inl rfl))
  | .named path [a], s, c, s', h => by
    rw [codec] at h
    cases hi : Instantiator.ofPath? path with
    | none =>
      simp only [hi] at h
      exact unwraps_of_leaf rfl h
    | some inst =>
      simp only [hi] at h
      have hshape := shape_of_container [a] rfl hi
      by_cases hmap : inst.isMap = true
      · rw [if_pos hmap] at h hshape
        refine unwraps_of_mapCodec hshape (unwraps_of_codec a) (fun s c s' hany => ?_) h
        obtain ⟨rfl, rfl⟩ := ok_inj.1 hany
        exact .dynamic (.inl rfl)
      · rw [if_neg hmap] at h hshape
        exact unwraps_of_list hshape (unwraps_of_codec a) h
  | .named path (a :: b :: rest), s, c, s', h => by
    rw [codec] at h
    cases hi : Instantiator.ofPath? path with
    | none =>
      simp only [hi] at h
      exact unwraps_of_leaf rfl h
    | some inst =>
      simp only [hi] at h
      have hshape := shape_of_container (a :: b :: rest) rfl hi
      by_cases hmap : inst.isMap = true
      · rw [if_pos hmap] at h hshape
        exact unwraps_of_mapCodec hshape (unwraps_of_codec a) (unwraps_of_codec b) h
      · rw [if_neg hmap] at h hshape
        exact unwraps_of_list hshape (unwraps_of_codec a) h

/-! ### Fields -/

/-- What planning a field by its type does. -/
inductive Prepares (scope : PlanScope) (s : Planning) : Codec → Planning → Prop
  | declared {c : Codec} {s' : Planning} (hf : scope.field.writesRuntimeType = false)
    (h : Unwraps scope false scope.field.ty s c s') : Prepares scope s c s'
  | runtime {c : Codec} {s' : Planning} (hf : scope.field.writesRuntimeType = true)
    (h : Unwraps scope true scope.field.ty s c s') : Prepares scope s (.runtimeType c) s'

private theorem prepares_of_planned (h : scope.planned s = .ok c s') : Prepares scope s c s' := by
  unfold planned at h
  by_cases hf : scope.field.writesRuntimeType = true
  · rw [if_pos hf] at h
    obtain ⟨c₁, s₁, hc, hrest⟩ := bind_eq_ok.1 h
    obtain ⟨rfl, rfl⟩ := ok_inj.1 hrest
    exact .runtime hf (unwraps_of_codec _ _ _ _ hc)
  · rw [if_neg hf] at h
    exact .declared (by simpa using hf) (unwraps_of_codec _ _ _ _ h)

/-- What planning a field does: a converter that is attached to it is bound first. -/
inductive Covers (scope : PlanScope) (s : Planning) : Codec → Planning → Prop
  | planned {c : Codec} {s' : Planning} (hf : scope.field.converter = none) (h : Prepares scope s c s') :
      Covers scope s c s'
  | attached {converter : FieldConverter} {i : Nat} {s' : Planning} (hf : scope.field.converter = some converter)
    (husage : converter.usage = .both) (hi : scope.bindAttached converter.path s = .ok i s') :
    Covers scope s (.attached i converter.nullSafe) s'
  | write {converter : FieldConverter} {i : Nat} {c : Codec} {s₁ s' : Planning}
    (hf : scope.field.converter = some converter)
    (husage : converter.usage = .write) (hi : scope.bindAttached converter.path s = .ok i s₁)
    (h : Prepares scope s₁ c s') : Covers scope s (.split (.attached i converter.nullSafe) c) s'
  | read {converter : FieldConverter} {i : Nat} {c : Codec} {s₁ s' : Planning}
    (hf : scope.field.converter = some converter)
    (husage : converter.usage = .read) (hi : scope.bindAttached converter.path s = .ok i s₁)
    (h : Prepares scope s₁ c s') : Covers scope s (.split c (.attached i converter.nullSafe)) s'

private theorem covers_of_plan (h : scope.plan s = .ok c s') : Covers scope s c s' := by
  unfold plan at h
  cases hv : scope.field.ty.vars.find? fun name => !scope.declaration.params.contains name with
  | some name => simp only [hv, throw_apply, reduceCtorEq] at h
  | none =>
    simp only [hv] at h
    cases hf : scope.field.converter with
    | none =>
      simp only [hf] at h
      exact .planned hf (prepares_of_planned h)
    | some attached =>
      simp only [hf] at h
      obtain ⟨i, s₁, hi, hrest⟩ := bind_eq_ok.1 h
      cases hu : attached.usage with
      | both =>
        simp only [hu] at hrest
        obtain ⟨rfl, rfl⟩ := ok_inj.1 hrest
        exact .attached hf hu hi
      | write =>
        simp only [hu] at hrest
        obtain ⟨c₁, s₂, hc, hrest⟩ := bind_eq_ok.1 hrest
        obtain ⟨rfl, rfl⟩ := ok_inj.1 hrest
        exact .write hf hu hi (prepares_of_planned hc)
      | read =>
        simp only [hu] at hrest
        obtain ⟨c₁, s₂, hc, hrest⟩ := bind_eq_ok.1 hrest
        obtain ⟨rfl, rfl⟩ := ok_inj.1 hrest
        exact .read hf hu hi (prepares_of_planned hc)

/-! ### Declarations -/

/-- What planning fields of a declaration one after the other does. -/
inductive CoversAll (model : Model) (namePrefix : String) (d : Declaration) :
    List Field → Planning → List Codec → Planning → Prop
  | nil {s : Planning} : CoversAll model namePrefix d [] s [] s
  | cons {f : Field} {fs : List Field} {c : Codec} {cs : List Codec} {s s₁ s' : Planning}
    (h : Covers ⟨model, namePrefix, d, f⟩ s c s₁) (hs : CoversAll model namePrefix d fs s₁ cs s') :
    CoversAll model namePrefix d (f :: fs) s (c :: cs) s'

private theorem coversAll_of_mapM {model : Model} {namePrefix : String} {d : Declaration} :
    ∀ {fs : List Field} {s : Planning}
    {cs : List Codec} {s' : Planning}, fs.mapM (fun f => plan ⟨model, namePrefix, d, f⟩) s = .ok cs s' →
      CoversAll model namePrefix d fs s cs s'
  | [], s, cs, s', h => by
    obtain ⟨rfl, rfl⟩ := ok_inj.1 h
    exact .nil
  | f :: fs, s, cs, s', h => by
    rw [List.mapM_cons] at h
    obtain ⟨c, s₁, hc, hrest⟩ := bind_eq_ok.1 h
    obtain ⟨cs, s₂, hcs, hrest⟩ := bind_eq_ok.1 hrest
    obtain ⟨rfl, rfl⟩ := ok_inj.1 hrest
    exact .cons (covers_of_plan hc) (coversAll_of_mapM hcs)

end PlanScope

/-- The fields of a declaration are planned without bindings to begin with. -/
theorem coversAll_of_planFields {model : Model} {namePrefix : String} {d : Declaration} {catalog catalog' : Catalog}
    {plan : FieldPlan} (h : planFields model namePrefix d catalog = (.ok plan, catalog')) :
    PlanScope.CoversAll model namePrefix d d.fields ⟨catalog, []⟩ plan.codecs ⟨catalog', plan.bindings⟩ := by
  unfold planFields at h
  cases hrun : (d.fields.mapM fun f => PlanScope.plan ⟨model, namePrefix, d, f⟩).run ⟨catalog, []⟩ with
  | error e s => simp [hrun] at h
  | ok codecs s =>
    simp only [hrun, Prod.mk.injEq, Except.ok.injEq] at h
    obtain ⟨rfl, rfl⟩ := h
    exact PlanScope.coversAll_of_mapM hrun

end Marshal
