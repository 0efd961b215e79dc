import Marshal.Proofs.Plan.Layout

/-!
# Plans without an attached converter

If a converter that takes over one direction is taken away from a field, the same types are bound in the same order,
though at other positions (`others`), and the codec of the other direction stays the same but for the indices
(`planFields_freed`).  The bindings at corresponding indices have the same part in an adapter (`SamePart`).
-/

namespace Marshal

open Effect

/-! ### Bindings of other converters -/

/-- The source is a converter attached under one of the paths. -/
def BindingSource.isAmong (known : String → Bool) : BindingSource → Bool
  | .attached path => known path
  | _ => false

@[simp]
private theorem BindingSource.isAmong_bare (known : String → Bool) (source : BindingSource) :
    source.bare.isAmong known = source.isAmong known := by
  cases source <;> rfl

private theorem BindingSource.isAmong_eq_false {known : String → Bool} {source : BindingSource}
    (h : source.isAttached = false) : source.isAmong known = false := by
  cases source with
  | attached => cases h
  | _ => rfl

/-- The bindings that do not take converters attached under the known paths, without their names. -/
def Binding.others (known : String → Bool) (bs : List Binding) : List Binding :=
  (bs.filter fun b => !b.source.isAmong known).map bare

namespace Binding

variable {known : String → Bool}

private theorem others_append (bs bs' : List Binding) :
    others known (bs ++ bs') = others known bs ++ others known bs' := by
  rw [others, List.filter_append, List.map_append]
  rfl

private theorem others_singleton_of_among {b : Binding} (h : b.source.isAmong known = true) :
    others known [b] = [] := by
  simp [others, h]

private theorem others_singleton {b : Binding} (h : b.source.isAmong known = false) :
    others known [b] = [b.bare] := by
  simp [others, h]

/-- A search that such converters are no answer to looks at the other bindings only. -/
private theorem isSome_findIdx? {p : Binding → Bool} (hbare : ∀ b, p b.bare = p b)
    (hp : ∀ b, p b = true → b.source.isAmong known = false) (bs : List Binding) :
    (bs.findIdx? p).isSome = (others known bs).any p := by
  rw [List.findIdx?_isSome, others, List.any_map, List.any_filter]
  congr 1
  funext b
  rw [Function.comp_apply, hbare]
  cases hb : p b with
  | false => rw [Bool.and_false]
  | true => rw [hp b hb]; rfl

end Binding

/-- The plans have bound the same but for converters attached under the known paths. -/
def SameOthers (known : String → Bool) (s s' : Planning) : Prop :=
  Binding.others known s.bindings = Binding.others known s'.bindings

/-! ### Planning a field -/

/-- The field has lost its converter, which is attached under a known path and for the given use, or it is the
same. -/
inductive Field.Freed (known : String → Bool) (usage : ConverterUse) (f : Field) : Field → Prop
  | same : Freed known usage f f
  | freed {x : FieldConverter} (hx : f.converter = some x) (husage : x.usage = usage) (hknown : known x.path = true) :
    Freed known usage f { f with converter := none }

namespace PlanScope

variable {known : String → Bool} {scope scope' : PlanScope}

/-- A binding that is looked up, and entered if there is none, on both sides with the same source. -/
private theorem abreast_enter {p : Binding → Bool} (hbare : ∀ b, p b.bare = p b)
    (hp : ∀ b, p b = true → b.source.isAmong known = false) (scope scope' : PlanScope) {ty ty' : TypeRef}
    (hty : ty = ty') {source source' : BindingSource} (hsource : source.bare = source'.bare)
    (hamong : source.isAmong known = false) {m m' : PlanM Nat}
    (hm : ∀ s, m s = (s.bindings.findIdx? p).elim (scope.push ty source s) fun i => .ok i s)
    (hm' : ∀ s, m' s = (s.bindings.findIdx? p).elim (scope'.push ty' source' s) fun i => .ok i s) :
    Abreast (SameOthers known) (fun _ _ => True) m m' := by
  intro s s' hs
  have hsame : Binding.others known s.bindings = Binding.others known s'.bindings := hs
  have hfound : (s.bindings.findIdx? p).isSome = (s'.bindings.findIdx? p).isSome := by
    rw [Binding.isSome_findIdx? hbare hp, Binding.isSome_findIdx? hbare hp, hsame]
  left
  rw [hm, hm']
  cases hi : s.bindings.findIdx? p with
  | some i =>
    rw [hi] at hfound
    obtain ⟨j, hj⟩ := Option.isSome_iff_exists.1 hfound.symm
    rw [hj]
    exact ⟨i, j, s, s', rfl, rfl, trivial, hs⟩
  | none =>
    rw [hi, eq_comm, Option.isSome_none, Option.isSome_eq_false_iff, Option.isNone_iff_eq_none] at hfound
    rw [hfound]
    refine ⟨_, _, _, _, rfl, rfl, trivial, ?_⟩
    have hamong' :
        source'.isAmong known = false := by rw [← source'.isAmong_bare, ← hsource, source.isAmong_bare, hamong]
    show Binding.others known (_ ++ [_]) = Binding.others known (_ ++ [_])
    rw [Binding.others_append, Binding.others_append, hsame, Binding.others_singleton hamong,
      Binding.others_singleton hamong', Binding.bare, Binding.bare, hsource, hty]

private theorem abreast_bind_others (ty : TypeRef) {source source' : BindingSource}
    (hsource : source.bare = source'.bare) (hattached : source.isAttached = false) :
    Abreast (SameOthers known) (fun _ _ => True) (scope.bind ty source) (scope'.bind ty source') := by
  have hbind (scope : PlanScope) (source : BindingSource) (s : Planning) : scope.bind ty source s =
      (s.bindings.findIdx? fun b => b.ty == ty && !b.source.isAttached).elim (scope.push ty source s) fun i =>
        .ok i s := by
    rw [bind, bind_of_ok (get_apply s)]
    cases s.bindings.findIdx? fun b => b.ty == ty && !b.source.isAttached <;> rfl
  refine abreast_enter (fun b => by simp [Binding.bare]) (fun b hb => ?_) scope scope' rfl hsource
    (BindingSource.isAmong_eq_false hattached) (hbind scope source) (hbind scope' source')
  rw [Bool.and_eq_true, Bool.not_eq_true'] at hb
  exact BindingSource.isAmong_eq_false hb.2

private theorem abreast_bindGetter_others (ty : TypeRef) :
    Abreast (SameOthers known) (fun _ _ => True) (scope.bindGetter ty) (scope'.bindGetter ty) := by
  intro s s' hs
  have hbind : Abreast (SameOthers known) (fun _ _ => True) (scope.bind ty (.registry (s.catalog.bind ty).1))
      (scope'.bind ty (.registry (s'.catalog.bind ty).1)) := abreast_bind_others ty rfl rfl
  exact hbind ⟨(s.catalog.bind ty).2, s.bindings⟩ ⟨(s'.catalog.bind ty).2, s'.bindings⟩ hs

private theorem bindAttached_eq (scope : PlanScope) (path : String) (s : Planning) : scope.bindAttached path s =
    (s.bindings.findIdx? fun b => b.source == .attached path).elim (scope.push scope.field.ty (.attached path) s)
      fun i => .ok i s := by
  rw [bindAttached, bind_of_ok (get_apply s)]
  cases s.bindings.findIdx? fun b => b.source == .attached path <;> rfl

/-- A converter under a known path is no matter of the other bindings. -/
private theorem bindAttached_others (scope : PlanScope) {path : String} (hknown : known path = true) (s : Planning) :
    ∃ i t, scope.bindAttached path s = .ok i t ∧ Binding.others known t.bindings =
      Binding.others known s.bindings := by
  rw [bindAttached_eq]
  cases s.bindings.findIdx? fun b => b.source == .attached path with
  | some i => exact ⟨i, s, rfl, rfl⟩
  | none =>
    have hamong : (BindingSource.attached path).isAmong known = true := hknown
    refine ⟨_, _, rfl, ?_⟩
    show Binding.others known (_ ++ [_]) = _
    rw [Binding.others_append, Binding.others_singleton_of_among hamong, List.append_nil]

private theorem abreast_bindAttached_others (path : String) (hty : scope'.field.ty = scope.field.ty) :
    Abreast (SameOthers known) (fun _ _ => True) (scope.bindAttached path) (scope'.bindAttached path) := by
  cases hknown : known path with
  | true =>
    intro s s' hs
    obtain ⟨i, t, hi, ht⟩ := bindAttached_others scope hknown s
    obtain ⟨j, t', hj, ht'⟩ := bindAttached_others scope' hknown s'
    exact .inl ⟨i, j, t, t', hi, hj, trivial, ht.trans (Eq.trans hs ht'.symm)⟩
  | false =>
    have hamong : (BindingSource.attached path).isAmong known = false := hknown
    refine abreast_enter (fun b => b.source.bare_beq_attached path) (fun b hb => ?_) scope scope' hty.symm rfl hamong
      (bindAttached_eq scope path) (bindAttached_eq scope' path)
    rw [eq_of_beq hb]
    exact hamong

/-- Planning a field that has lost its converter goes on as before, but for that converter. -/
theorem abreast_freed {usage : ConverterUse} (husage : usage ≠ .both) {model model' : Model}
    {namePrefix namePrefix' : String} {d d' : Declaration} {f f' : Field} (hpath : d'.path = d.path)
    (hparams : d'.params = d.params)
    (hlacks : ∀ ty, lacksAdapter ⟨model', namePrefix', d', f'⟩ ty = lacksAdapter ⟨model, namePrefix, d, f⟩ ty)
    (hf : f.Freed known usage f') : Abreast (SameOthers known) (Codec.Freed (fun _ _ => True) usage)
      (plan ⟨model, namePrefix, d, f⟩) (plan ⟨model', namePrefix', d', f'⟩) := by
  have halongside (hname : f'.name = f.name) (hty : f'.ty = f.ty)
      (hruntime : f'.writesRuntimeType = f.writesRuntimeType) :
      Alongside (fun _ _ => True) (SameOthers known) (fun _ => True) ⟨model, namePrefix, d, f⟩
        ⟨model', namePrefix', d', f'⟩ :=
    { path := hpath
      params := hparams
      name := hname
      ty := hty
      runtime := hruntime
      element := id
      args := fun _ _ _ => trivial
      lacksAdapter := fun {ty} _ => hlacks ty
      bindGetter := fun {ty} _ _ => abreast_bindGetter_others ty
      bind := fun _ hattached _ => abreast_bind_others _ rfl hattached }
  cases hf with
  | same =>
    have hplan := (halongside rfl rfl rfl).plan trivial rfl fun x _ => abreast_bindAttached_others x.path rfl
    exact hplan.mono fun c c' h => .same h
  | @freed x hx hu hknown =>
    subst hu
    refine (halongside rfl rfl rfl).plan_freed trivial hx rfl husage fun s s' hs => ?_
    obtain ⟨i, t, hi, ht⟩ := bindAttached_others ⟨model, namePrefix, d, f⟩ hknown s
    exact ⟨i, t, hi, ht.trans hs⟩

end PlanScope

/-! ### What the indices lead to -/

/-- The bindings at the two positions take the same part, whatever the arguments. -/
def SamePart (bs bs' : List Binding) (i j : Nat) : Prop :=
  ∃ b b', bs[i]? = some b ∧ bs'[j]? = some b' ∧ ∀ args, b.part args = b'.part args

theorem SamePart.symm {bs bs' : List Binding} (i j : Nat) : SamePart bs bs' i j → SamePart bs' bs j i :=
  fun ⟨b, b', hb, hb', hpart⟩ => ⟨b', b, hb', hb, fun args => (hpart args).symm⟩

/-- A type is bound with the part that it calls for. -/
private theorem TypeRef.CallsFor.part_eq {params : List String} {b b' : Binding} (h : b.ty.CallsFor params b.source)
    (h' : b'.ty.CallsFor params b'.source) (hty : b.ty = b'.ty) (args : List TypeRef) :
    b.part args = b'.part args := by
  unfold CallsFor at h h'
  rw [← hty] at h'
  unfold Binding.part
  cases hn : b.ty.native? with
  | some kind =>
    simp only [hn] at h h'
    rw [h.2, h'.2]
  | none =>
    cases ht : b.ty with
    | var name =>
      simp only [ht, TypeRef.native?] at h h'
      obtain ⟨i, hi, hs⟩ := h
      obtain ⟨j, hj, hs'⟩ := h'
      rw [hs, hs', Option.some.inj (hi.symm.trans hj)]
    | array | named =>
      rw [ht] at hn
      simp only [ht, hn] at h h'
      split at h
      · next hconcrete =>
        rw [if_pos hconcrete] at h'
        obtain ⟨getter, hs⟩ := h
        obtain ⟨getter', hs'⟩ := h'
        rw [hs, hs', ← hty, ht]
      · next hconcrete =>
        rw [if_neg hconcrete] at h'
        obtain ⟨token, htoken, hs⟩ := h
        obtain ⟨token', htoken', hs'⟩ := h'
        rw [hs, hs', Except.ok.inj (htoken.symm.trans htoken')]

section Codes

variable {bs bs' : List Binding} {params : List String}
  (hbs : ∀ b ∈ bs, b.source.isAttached = false → b.ty.CallsFor params b.source)
  (hbs' : ∀ b ∈ bs', b.source.isAttached = false → b.ty.CallsFor params b.source)

include hbs hbs'

/-- Two codecs of one type that are the same but for the indices. -/
private theorem Codes.renumbered {runtime : Bool} {c c' : Codec} (h : c.Renumbered (fun _ _ => True) c') :
    ∀ ty, Codes bs runtime ty c → Codes bs' runtime ty c' → c.Renumbered (SamePart bs bs') c' := by
  induction h with
  | native kind => exact fun _ _ _ => .native kind
  | dynamic => exact fun _ _ _ => .dynamic
  | binding =>
    intro ty hc hc'
    cases hc with
    | binding hb hty hs =>
      cases hc' with
      | binding hb' hty' hs' =>
        have hcalls := hbs _ (List.mem_of_getElem? hb) hs
        have hcalls' := hbs' _ (List.mem_of_getElem? hb') hs'
        exact .binding ⟨_, _, hb, hb', hcalls.part_eq hcalls' (hty.trans hty'.symm)⟩
  | sequence i _ ih =>
    intro ty hc hc'
    cases hc with
    | list hshape hc =>
      cases hc' with
      | list hshape' hc' =>
        obtain ⟨rfl, -⟩ := Shape.list.inj (hshape.symm.trans hshape')
        exact .sequence i (ih _ hc hc')
  | objectMap kind i _ ih =>
    intro ty hc hc'
    cases hc with
    | objectMap hshape _ hc =>
      cases hc' with
      | objectMap hshape' _ hc' =>
        obtain ⟨-, rfl, -⟩ := Shape.map.inj (hshape.symm.trans hshape')
        exact .objectMap kind i (ih _ hc hc')
  | pairMap i _ _ ihk ihv =>
    intro ty hc hc'
    cases hc with
    | pairMap hshape _ hk hv =>
      cases hc' with
      | pairMap hshape' _ hk' hv' =>
        obtain ⟨rfl, rfl, -⟩ := Shape.map.inj (hshape.symm.trans hshape')
        exact .pairMap i (ihk _ hk hk') (ihv _ hv hv')
  | runtimeType | attached | split => exact fun _ hc _ => by cases hc

private theorem Plans.renumbered {f f' : Field} {c c' : Codec} (h : c.Renumbered (fun _ _ => True) c')
    (hc : Plans bs f c) (hc' : Plans bs' f' c') (hty : f'.ty = f.ty)
    (hruntime : f'.writesRuntimeType = f.writesRuntimeType) : c.Renumbered (SamePart bs bs') c' := by
  cases hc with
  | declared hf hc =>
    cases hc' with
    | declared _ hc' => exact Codes.renumbered hbs hbs' h f.ty hc (hty ▸ hc')
    | runtime hf' => exact absurd (hf.symm.trans (hruntime.symm.trans hf')) Bool.false_ne_true
  | runtime hf hc =>
    cases hc' with
    | declared hf' => exact absurd (hf'.symm.trans (hruntime.trans hf)) Bool.false_ne_true
    | runtime _ hc' =>
      cases h with
      | runtimeType h => exact .runtimeType (Codes.renumbered hbs hbs' h f.ty hc (hty ▸ hc'))

end Codes

/-! ### The direction that is left -/

section Directions

variable {bs bs' : List Binding} {f f' : Field} {c c' : Codec}

private theorem Plans.reading_eq (h : Plans bs f c) : c.reading = c := by
  cases h with
  | runtime => rfl
  | declared _ hc => cases hc <;> rfl

private theorem Plans.writing_eq (h : Plans bs f c) : c.writing = c := by
  cases h with
  | runtime => rfl
  | declared _ hc => cases hc <;> rfl

/-- A field is read as planned, or with the converter that is attached to it, unless that one is for writing only. -/
private theorem FieldCodes.reading (h : FieldCodes bs f c) :
    (Plans bs f c.reading ∧ ∀ x, f.converter = some x → x.usage = .write) ∨
      ∃ x i, f.converter = some x ∧ x.usage ≠ .write ∧ Attaches bs x i ∧ c.reading = .attached i x.nullSafe := by
  cases h with
  | planned hf hc => exact .inl ⟨hc.reading_eq.symm ▸ hc, fun x hx => absurd (hf.symm.trans hx) nofun⟩
  | attached hf hu hb => exact .inr ⟨_, _, hf, hu ▸ nofun, hb, rfl⟩
  | write hf hu _ hc =>
    have hreading : Plans bs f _ := hc.reading_eq.symm ▸ hc
    exact .inl ⟨hreading, fun x hx => Option.some.inj (hf.symm.trans hx) ▸ hu⟩
  | read hf hu hb _ => exact .inr ⟨_, _, hf, hu ▸ nofun, hb, rfl⟩

/-- A field is written as planned, or with the converter that is attached to it, unless that one is for reading
only. -/
private theorem FieldCodes.writing (h : FieldCodes bs f c) :
    (Plans bs f c.writing ∧ ∀ x, f.converter = some x → x.usage = .read) ∨
      ∃ x i, f.converter = some x ∧ x.usage ≠ .read ∧ Attaches bs x i ∧ c.writing = .attached i x.nullSafe := by
  cases h with
  | planned hf hc => exact .inl ⟨hc.writing_eq.symm ▸ hc, fun x hx => absurd (hf.symm.trans hx) nofun⟩
  | attached hf hu hb => exact .inr ⟨_, _, hf, hu ▸ nofun, hb, rfl⟩
  | write hf hu hb _ => exact .inr ⟨_, _, hf, hu ▸ nofun, hb, rfl⟩
  | read hf hu _ hc =>
    have hwriting : Plans bs f _ := hc.writing_eq.symm ▸ hc
    exact .inl ⟨hwriting, fun x hx => Option.some.inj (hf.symm.trans hx) ▸ hu⟩

private theorem Attaches.samePart {x : FieldConverter} {i j : Nat} (h : Attaches bs x i) (h' : Attaches bs' x j) :
    SamePart bs bs' i j := by
  obtain ⟨b, hb, hsource⟩ := h
  obtain ⟨b', hb', hsource'⟩ := h'
  exact ⟨b, b', hb, hb', fun args => by rw [Binding.part, Binding.part, hsource, hsource']⟩

variable {params : List String} {known : String → Bool} {usage : ConverterUse}
  (hbs : ∀ b ∈ bs, b.source.isAttached = false → b.ty.CallsFor params b.source)
  (hbs' : ∀ b ∈ bs', b.source.isAttached = false → b.ty.CallsFor params b.source)

include hbs hbs'

/-- The codecs of a field and of the one without its converter are the same on a side that the converter does not take
over: there both are as planned, or both are the converter that is attached still. -/
private theorem renumbered_side (side : Codec → Codec) (hf : f.Freed known usage f')
    (hside : (side c).Renumbered (fun _ _ => True) (side c'))
    (hc : (Plans bs f (side c) ∧ ∀ x, f.converter = some x → x.usage = usage) ∨
      ∃ x i, f.converter = some x ∧ x.usage ≠ usage ∧ Attaches bs x i ∧ side c = .attached i x.nullSafe)
    (hc' : (Plans bs' f' (side c') ∧ ∀ x, f'.converter = some x → x.usage = usage) ∨
      ∃ x i, f'.converter = some x ∧ x.usage ≠ usage ∧ Attaches bs' x i ∧ side c' = .attached i x.nullSafe) :
    (side c).Renumbered (SamePart bs bs') (side c') := by
  cases hf with
  | same =>
    rcases hc with ⟨hplans, huse⟩ | ⟨x, i, hx, hne, hb, heq⟩
    · rcases hc' with ⟨hplans', -⟩ | ⟨x, j, hx, hne, -⟩
      · exact Plans.renumbered hbs hbs' hside hplans hplans' rfl rfl
      · exact absurd (huse x hx) hne
    · rcases hc' with ⟨-, huse⟩ | ⟨x', j, hx', -, hb', heq'⟩
      · exact absurd (huse x hx) hne
      · obtain rfl := Option.some.inj (hx.symm.trans hx')
        rw [heq, heq']
        exact .attached x.nullSafe (hb.samePart hb')
  | freed hx husage _ =>
    rcases hc with ⟨hplans, -⟩ | ⟨x', i, hx', hne, -⟩
    · rcases hc' with ⟨hplans', -⟩ | ⟨x', j, hx', -⟩
      · exact Plans.renumbered hbs hbs' hside hplans hplans' rfl rfl
      · cases hx'
    · obtain rfl := Option.some.inj (hx.symm.trans hx')
      exact absurd husage hne

theorem FieldCodes.renumbered_reading (hc : FieldCodes bs f c) (hc' : FieldCodes bs' f' c')
    (hf : f.Freed known .write f') (h : c.Freed (fun _ _ => True) .write c') :
    c.reading.Renumbered (SamePart bs bs') c'.reading :=
  renumbered_side hbs hbs' Codec.reading hf (h.reading rfl) hc.reading hc'.reading

theorem FieldCodes.renumbered_writing (hc : FieldCodes bs f c) (hc' : FieldCodes bs' f' c')
    (hf : f.Freed known .read f') (h : c.Freed (fun _ _ => True) .read c') :
    c.writing.Renumbered (SamePart bs bs') c'.writing :=
  renumbered_side hbs hbs' Codec.writing hf (h.writing rfl) hc.writing hc'.writing

end Directions

end Marshal
