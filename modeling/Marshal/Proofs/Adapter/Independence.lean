import Mathlib.Data.List.Find
import Marshal.Proofs.Adapter.Decoding
import Marshal.Proofs.Registry.Holdings
import Marshal.Proofs.Stream.Compact

/-!
# Independent fields

The fields of a structure are read independently.  Each is decided by the entries with its own name alone: the last of
them that is not ignored counts, and a null clears the field (`ReadProcedure.get?_fields?`).  So it does not matter
how the entries are ordered as long as those with one name keep their order (`Converter.fromJson_reordered`).
-/

namespace Marshal

open Effect Reader

/-! ### Orders of entries -/

namespace Document

/-- The values of the entries with a name. -/
def valuesOf (name : String) (es : List (String × Document)) : List Document := (es.filter (·.1 == name)).map (·.2)

/-- The same entries, in an order that keeps that of the entries with one name. -/
structure Reordered (es es' : List (String × Document)) : Prop where
  perm : es.Perm es'
  named (name : String) : es.filter (·.1 == name) = es'.filter (·.1 == name)

namespace Reordered

variable {es es' : List (String × Document)} (h : Reordered es es')

include h

private theorem symm : Reordered es' es := ⟨h.perm.symm, fun name => (h.named name).symm⟩

private theorem valuesOf_eq (name : String) : valuesOf name es = valuesOf name es' := by
  rw [valuesOf, h.named, valuesOf]

private theorem depth_eq : (object es).depth = (object es').depth := by
  have hle {es es' : List (String × Document)} (h : Reordered es es') : entriesDepth es ≤ entriesDepth es' :=
    entriesDepth_le_iff.2 fun e he => entriesDepth_le_iff.1 le_rfl e (h.perm.mem_iff.1 he)
  rw [depth, depth, (hle h).antisymm (hle h.symm)]

end Reordered

private theorem valuesOf_concat (name : String) (es : List (String × Document)) (e : String × Document) :
    valuesOf name (es ++ [e]) = valuesOf name es ++ if e.1 = name then [e.2] else [] := by
  rw [valuesOf, valuesOf, List.filter_append, List.map_append]
  by_cases h : e.1 = name <;> simp [h]

end Document

/-! ### Null -/

namespace Codec

variable {call : Nat → Document → Option (Option Value)} (hcall : ∀ i v, call i .null = some v → v = none)

include hcall

/-- A codec reads null as absent if the bindings do. -/
private theorem ofDocument?_null (c : Codec) {v : Option Value} (h : c.ofDocument? call .null = some v) :
    v = none := by
  induction c with
  | native kind => exact (Option.some.inj (kind.ofDocument?_null.symm.trans h)).symm
  | binding i => exact hcall i v h
  | dynamic | sequence | objectMap | pairMap => exact (Option.some.inj h).symm
  | runtimeType _ ih => exact ih h
  | split _ _ _ ih => exact ih h
  | attached i nullSafe =>
    cases nullSafe with
    | false => exact hcall i v h
    | true => exact (Option.some.inj h).symm

/-- No value comes of null. -/
private theorem present?_null (c : Codec) : (c.ofDocument? call .null).bind Value.present? = none := by
  cases hv : c.ofDocument? call .null with
  | none => rfl
  | some v =>
    obtain rfl := c.ofDocument?_null hcall hv
    rfl

omit hcall in
/-- What is handed a null accepts all tokens. -/
private theorem acceptedTokens_of_readsNull {c : Codec} (h : c.readsNull = true) : c.acceptedTokens = [] := by
  induction c with
  | attached => rfl
  | split _ _ _ ih => exact ih h
  | _ => cases h

end Codec

/-- Bindings read null as absent if converters do. -/
private theorem callOf_null {read : Converter → Document → Option (Option Value)}
    (h : ∀ c {v}, read c .null = some v → v = none) (bindings : List Converter) (i : Nat) {v : Option Value}
    (hv : Converter.callOf read bindings i .null = some v) : v = none := by
  unfold Converter.callOf at hv
  cases hb : bindings[i]? with
  | none => simp [hb] at hv
  | some b => exact h b (by simpa [hb] using hv)

/-- Converters read null as absent. -/
private theorem Converter.ofDocument?_null (delegates : Delegates) :
    ∀ (fuel : Nat) (c : Converter) {v : Option Value}, c.ofDocument? delegates fuel .null = some v → v = none := by
  intro fuel
  induction fuel with
  | zero => exact fun c v h => nomatch h
  | succ fuel ih =>
    intro c v h
    cases c with
    | native id kind => exact (Option.some.inj (kind.ofDocument?_null.symm.trans h)).symm
    | dynamic | enum | struct => exact (Option.some.inj h).symm
    | codec id k bindings => exact k.ofDocument?_null (fun i v => callOf_null ih bindings i) h
    | placeholder id ty =>
      unfold ofDocument? at h
      cases hd : delegates.find? id with
      | none => simp [hd] at h
      | some d => exact ih d (by simpa [hd] using h)
    | custom => cases h

/-! ### One field -/

/-- Whether a value that begins with the token makes no difference: it is not null, and of a kind that is not
accepted. -/
def FieldRead.ignores (f : FieldRead) (k : TokenKind) : Bool :=
  k ≠ .null && !f.accepts.isEmpty && !f.accepts.contains k

/-- What the values of its own entries make of a field: the last one that is not ignored counts. -/
def FieldRead.valueOf? (call : Nat → Document → Option (Option Value)) (f : FieldRead) (js : List Document) :
    Option Value :=
  (js.filter fun j => !f.ignores j.kind).getLast?.bind fun j => (f.codec.ofDocument? call j).bind Value.present?

/-- What is neither null nor ignored is read. -/
private theorem FieldRead.change?_of_heeded {call : Nat → Document → Option (Option Value)} {f : FieldRead}
    {j : Document} (hj : j ≠ .null) (hj' : f.ignores j.kind = false) :
    f.change? call j = (f.codec.ofDocument? call j).map fun v => v.elim .clear .set := by
  have hkind : j.kind ≠ .null := by cases j <;> simp [Document.kind] at hj ⊢
  have haccepts : ¬(!f.accepts.isEmpty && !f.accepts.contains j.kind) = true := by simpa [ignores, hkind] using hj'
  rw [change?, if_neg (by simp [hkind]), if_neg haccepts]

namespace FieldChange

variable {fields : Fields}

/-- What is found under the name of a field after the change. -/
def on (v : Option Value) : FieldChange → Option Value
  | keep => v
  | clear => none
  | set w => w.nonNull?

private theorem get?_apply (hnodup : (fields.map (·.1)).Nodup) (name : String) (change : FieldChange) :
    (change.apply name fields).get? name = change.on (fields.get? name) := by
  cases change with
  | keep => rfl
  | clear => exact Fields.get?_remove_self hnodup name
  | set v => exact Fields.get?_set_self fields name v

private theorem get?_apply_of_ne {name name' : String} (h : name' ≠ name) (change : FieldChange) :
    (change.apply name fields).get? name' = fields.get? name' := by
  cases change with
  | keep => rfl
  | clear => exact Fields.get?_remove_of_ne h fields
  | set v => exact Fields.get?_set_of_ne h fields v

private theorem nodup_apply (hnodup : (fields.map (·.1)).Nodup) (name : String) (change : FieldChange) :
    ((change.apply name fields).map (·.1)).Nodup := by
  cases change with
  | keep => exact hnodup
  | clear => exact Fields.nodup_remove hnodup name
  | set v => exact Fields.nodup_set hnodup name v

end FieldChange

/-- What is made of a field by the values of the entries with its name: the last one that is not ignored counts, and a
null clears the field. -/
inductive FieldRead.Holds (reads : Document → Option Value → Prop) (f : FieldRead) :
    List Document → Option Value → Prop
  | unset {js : List Document} (h : ∀ j ∈ js, f.ignores j.kind = true) : Holds reads f js none
  | cleared (before : List Document) {after : List Document} (h : ∀ j ∈ after, f.ignores j.kind = true) :
    Holds reads f (before ++ .null :: after) none
  | set (before : List Document) {j : Document} {after : List Document} {v : Option Value} (hj : j ≠ .null)
    (hj' : f.ignores j.kind = false) (hv : reads j v) (h : ∀ j ∈ after, f.ignores j.kind = true) :
    Holds reads f (before ++ j :: after) (Value.present? v)

section Fields

variable {call : Nat → Document → Option (Option Value)} (hcall : ∀ i v, call i .null = some v → v = none)

include hcall

/-- One more entry changes the value of a field as it changes the field. -/
private theorem FieldRead.valueOf?_concat {f : FieldRead} (hf : f.accepts = f.codec.acceptedTokens) {j : Document}
    {change : FieldChange} (h : f.change? call j = some change) (js : List Document) :
    f.valueOf? call (js ++ [j]) = change.on (f.valueOf? call js) := by
  unfold change? at h
  unfold valueOf?
  rw [List.filter_append]
  by_cases hignores : f.ignores j.kind = true
  · obtain ⟨⟨hnull, hsome⟩, hnot⟩ : (j.kind ≠ .null ∧ f.accepts ≠ []) ∧ j.kind ∉ f.accepts := by
      simpa [ignores] using hignores
    rw [if_neg (by simp [hnull]), if_pos (by simp [hsome, hnot])] at h
    cases h
    simp [hignores, FieldChange.on]
  have hlast : (js.filter (fun j => !f.ignores j.kind) ++ [j].filter fun j => !f.ignores j.kind).getLast? =
      some j := by
    simp [hignores]
  rw [hlast, Option.bind_some]
  by_cases hclears : (decide (j.kind = .null) && !f.codec.readsNull) = true
  · rw [if_pos hclears] at h
    cases h
    obtain rfl : j = .null := by cases j <;> simp [Document.kind] at hclears ⊢
    exact f.codec.present?_null hcall
  · -- the value is read: a codec that is handed null accepts all tokens
    have haccepts : ¬(!f.accepts.isEmpty && !f.accepts.contains j.kind) = true := by
      by_cases hnull : j.kind = .null
      · have hreads : f.codec.readsNull = true := by simpa [hnull] using hclears
        rw [hf, Codec.acceptedTokens_of_readsNull hreads]
        simp
      · simpa [ignores, hnull] using hignores
    rw [if_neg hclears, if_neg haccepts] at h
    obtain ⟨v, hv, rfl⟩ := Option.map_eq_some_iff.1 h
    cases v <;> simp [hv, FieldChange.on, Value.present?]

/-- The last value that is not ignored makes the value of a field, if it is read at all. -/
private theorem FieldRead.holds_valueOf? {reads : Document → Option Value → Prop} {f : FieldRead} {js : List Document}
    (hreads : ∀ j ∈ js, j ≠ .null → f.ignores j.kind = false → ∃ v, f.codec.ofDocument? call j = some v ∧ reads j v) :
    f.Holds reads js (f.valueOf? call js) := by
  unfold valueOf?
  cases hlast : (js.filter fun j => !f.ignores j.kind).getLast? with
  | none =>
    rw [List.getLast?_eq_none_iff, List.filter_eq_nil_iff] at hlast
    exact .unset fun j hj => by simpa using hlast j hj
  | some j =>
    obtain ⟨ys, hys⟩ := List.getLast?_eq_some_iff.1 hlast
    obtain ⟨before, rest, rfl, -, hrest⟩ := List.filter_eq_append_iff.1 hys
    obtain ⟨between, after, rfl, -, hj, hafter⟩ := List.filter_eq_cons_iff.1 hrest
    have hj : f.ignores j.kind = false := by simpa using hj
    have hafter : ∀ j ∈ after, f.ignores j.kind = true := by simpa using List.filter_eq_nil_iff.1 hafter
    rw [← List.append_assoc, Option.bind_some]
    by_cases hnull : j = .null
    · subst hnull
      rw [f.codec.present?_null hcall]
      exact .cleared _ hafter
    · obtain ⟨v, hv, hread⟩ := hreads j (by simp) hnull hj
      rw [hv]
      exact .set _ hnull hj hread hafter

/-! ### All fields -/

namespace ReadProcedure

omit hcall

/-- No two fields share a name, and none is recognized as another; what a field accepts is what its codec accepts; and
the fields that must be present are there to be read. -/
structure Regular (p : ReadProcedure) : Prop where
  names : (p.fields.map FieldRead.name).Nodup
  serializedNames : (p.fields.map FieldRead.serializedName).Nodup
  accepts : ∀ f ∈ p.fields, f.accepts = f.codec.acceptedTokens
  nonNull : ∀ name ∈ p.nonNull, ∃ f ∈ p.fields, f.name = name

variable {p : ReadProcedure} {es es' : List (String × Document)} {fields fields' : Fields}

private theorem Regular.field?_eq_some (hp : p.Regular) {f : FieldRead} (hf : f ∈ p.fields) :
    p.field? f.serializedName = some f :=
  find?_of_nodup FieldRead.serializedName hp.serializedNames hf

/-- An entry changes the field that it is for, and no other. -/
private theorem get?_entry? (hp : p.Regular) (hnodup : (fields.map (·.1)).Nodup) {name : String} {j : Document}
    (h : p.entry? call fields name j = some fields') : (fields'.map (·.1)).Nodup ∧ ∀ f ∈ p.fields,
      if name = f.serializedName then ∃ change, f.change? call j = some change ∧
        fields'.get? f.name = change.on (fields.get? f.name)
      else fields'.get? f.name = fields.get? f.name := by
  unfold entry? at h
  cases hg : p.field? name with
  | none =>
    simp only [hg, Option.some.injEq] at h
    subst h
    refine ⟨hnodup, fun f hf => ?_⟩
    rw [if_neg]
    rintro rfl
    rw [hp.field?_eq_some hf] at hg
    cases hg
  | some g =>
    simp only [hg] at h
    obtain ⟨change, hchange, rfl⟩ := Option.map_eq_some_iff.1 h
    refine ⟨change.nodup_apply hnodup g.name, fun f hf => ?_⟩
    split
    · next hname =>
      obtain rfl : f = g := Option.some.inj ((hp.field?_eq_some hf).symm.trans (hname ▸ hg))
      exact ⟨change, hchange, change.get?_apply hnodup f.name⟩
    · next hname =>
      have hmem : g ∈ p.fields := List.mem_of_find?_eq_some hg
      have hne : f.name ≠ g.name := by
        intro heq
        obtain rfl := List.inj_on_of_nodup_map hp.names hf hmem heq
        have hfound := List.find?_some (p := fun f : FieldRead => f.serializedName == name) hg
        exact hname (beq_iff_eq.1 hfound).symm
      exact change.get?_apply_of_ne hne

include hcall in
/-- Each field is decided by its own entries. -/
theorem get?_fields? (hp : p.Regular) (h : p.fields? call es = some fields) : (fields.map (·.1)).Nodup ∧
    ∀ f ∈ p.fields, fields.get? f.name = f.valueOf? call (Document.valuesOf f.serializedName es) := by
  -- by induction on the last entry, which comes when those in front of it have made the fields what they are
  induction es using List.reverseRecOn generalizing fields with
  | nil =>
    obtain rfl : [] = fields := Option.some.inj h
    exact ⟨List.nodup_nil, fun f _ => rfl⟩
  | append_singleton es e ih =>
    rw [fields?, List.foldlM_append] at h
    obtain ⟨before, hbefore, h⟩ := Option.bind_eq_some_iff.1 h
    obtain ⟨hnodup, hdecided⟩ := ih hbefore
    have hlast : p.entry? call before e.1 e.2 = some fields := by simpa using h
    obtain ⟨hnodup', hentry⟩ := get?_entry? hp hnodup hlast
    refine ⟨hnodup', fun f hf => ?_⟩
    have hf' := hentry f hf
    rw [Document.valuesOf_concat]
    split at hf'
    · next hname =>
      obtain ⟨change, hchange, hget⟩ := hf'
      rw [if_pos hname, f.valueOf?_concat hcall (hp.accepts f hf) hchange, hget, hdecided f hf]
    · next hname => rw [if_neg hname, List.append_nil, hf', hdecided f hf]

/-- All entries are read if each of them is, whatever the fields are by then. -/
private theorem isSome_fields? (p : ReadProcedure) (es : List (String × Document)) : (p.fields? call es).isSome ↔
    ∀ e ∈ es, ∀ f, p.field? e.1 = some f → (f.change? call e.2).isSome := by
  have hentry (fields : Fields) (e : String × Document) : (p.entry? call fields e.1 e.2).isSome ↔
      ∀ f, p.field? e.1 = some f → (f.change? call e.2).isSome := by
    unfold entry?
    cases p.field? e.1 <;> simp
  suffices h : ∀ fields : Fields, (es.foldlM (fun fields e => p.entry? call fields e.1 e.2) fields).isSome ↔
      ∀ e ∈ es, ∀ f, p.field? e.1 = some f → (f.change? call e.2).isSome from h []
  induction es with
  | nil => simp
  | cons e es ih =>
    intro fields
    rw [List.foldlM_cons, List.forall_mem_cons, ← hentry fields e]
    cases p.entry? call fields e.1 e.2 with
    | none => simp
    | some fields' => simpa using ih fields'

/-- Whether a field is missing is a matter of the fields that must be present. -/
private theorem missing?_congr (h : ∀ name ∈ p.nonNull, fields.get? name = fields'.get? name) :
    p.missing? fields = p.missing? fields' :=
  List.find?_congr fun name hname => by rw [h name hname]

theorem ofDocument?_object {target : TypeRef} {v : Option Value} : p.ofDocument? target call (.object es) = some v ↔
    ∃ fields, p.fields? call es = some fields ∧ p.missing? fields = none ∧ v = some (.object target fields) := by
  rw [ofDocument?, Option.bind_eq_some_iff]
  refine exists_congr fun fields => and_congr_right fun _ => ?_
  rw [Option.ite_none_right_eq_some, Option.isNone_iff_eq_none, Option.some.injEq, @eq_comm _ v]

include hcall in
/-- Reordered entries are read alike. -/
private theorem ofDocument?_reordered (hp : p.Regular) (h : Document.Reordered es es') {target : TypeRef}
    {v : Option Value} (hv : p.ofDocument? target call (.object es) = some v) :
    ∃ v', p.ofDocument? target call (.object es') = some v' := by
  obtain ⟨fields, hfields, hmissing, -⟩ := ofDocument?_object.1 hv
  have hsome : (p.fields? call es').isSome := (isSome_fields? p es').2 fun e he =>
    (isSome_fields? p es).1 (Option.isSome_of_eq_some hfields) e (h.perm.mem_iff.2 he)
  obtain ⟨fields', hfields'⟩ := Option.isSome_iff_exists.1 hsome
  refine ⟨_, ofDocument?_object.2 ⟨fields', hfields', ?_, rfl⟩⟩
  rw [← hmissing]
  refine missing?_congr fun name hname => ?_
  obtain ⟨f, hf, rfl⟩ := hp.nonNull name hname
  rw [(get?_fields? hcall hp hfields).2 f hf, (get?_fields? hcall hp hfields').2 f hf, h.valuesOf_eq]

end ReadProcedure

end Fields

/-! ### Converters of a registry -/

namespace Registry

variable {ms : List AdapterModule} {att : List (String × Converter)}

private theorem hereditary_plain (hatt : ∀ p ∈ att, p.2.Plain) : Hereditary ms att Converter.Plain where
  placeholder := .placeholder
  native := .native
  attached := hatt
  built {_ p} id cs _ hcs := by
    cases p with
    | struct _ a target _ => exact .struct id a target _ hcs
    | enum _ _ a => exact .enum id a
    | dynamic => exact .dynamic id true
    | native kind => exact .native id kind
    | list | objectMap | pairMap => exact .codec id _ hcs

/-- If the converters that fields attach involve no code of the caller's own, nor does any that a registry of
generated modules holds or has given out. -/
theorem plain_of_run (hatt : ∀ p ∈ att, p.2.Plain) {s : Store} {cs : List Converter}
    (h : Run (ofModules ms att) s cs) : (∀ p ∈ s.delegates, p.2.Plain) ∧ ∀ c ∈ cs, c.Plain := by
  have hbinding : ∀ c, Converter.Plain c → ∀ b ∈ c.bindings, b.Plain := by
    intro c hc b hb
    cases hc with
    | codec _ _ h | struct _ _ _ _ h => exact h b hb
    | _ => cases hb
  obtain ⟨hs, hcs⟩ := (hereditary_plain hatt).of_run hbinding h
  exact ⟨hs.delegates, hcs⟩

end Registry

/-! ### Generated structures -/

/-- The fields of a generated structure whose names in memory are distinct are told apart. -/
private theorem StructAdapter.Serves.regular {accessor : Accessor} {d : Declaration} {codecs : List Codec}
    {a : StructAdapter} (h : a.Serves accessor d codecs) (hnames : (d.fields.map Field.name).Nodup) :
    a.read.Regular := by
  rw [h.read]
  constructor
  case names =>
    rw [Declaration.readProcedure, List.map_map]
    rw [← h.map_zip Field.name] at hnames
    exact hnames
  case serializedNames =>
    rw [Declaration.readProcedure, List.map_map]
    exact h.serializedNames_nodup
  case accepts =>
    intro f hf
    obtain ⟨p, -, rfl⟩ := List.mem_map.1 hf
    rfl
  case nonNull =>
    intro name hname
    obtain ⟨p, hp, rfl⟩ := List.mem_map.1 hname
    exact ⟨_, List.mem_map_of_mem (List.mem_filter.1 hp).1, rfl⟩

/-- Every declared field is read. -/
private theorem StructAdapter.Serves.exists_read {accessor : Accessor} {d : Declaration} {codecs : List Codec}
    {a : StructAdapter} (h : a.Serves accessor d codecs) {f : Field} (hf : f ∈ d.fields) :
    ∃ r ∈ a.read.fields, a.read.field? f.serializedName = some r ∧ r.name = f.name ∧
      r.serializedName = f.serializedName := by
  obtain ⟨k, hk⟩ := h.exists_codec hf
  have hfound := Declaration.field?_readProcedure accessor h.serializedNames_nodup hk
  rw [← h.read] at hfound
  exact ⟨_, List.mem_of_find?_eq_some hfound, hfound, rfl, rfl⟩

namespace Converter

/-- Every text that spells the value is read as `v`. -/
def ReadsAs (delegates : Delegates) (fuel : Nat) (c : Converter) (j : Document) (v : Option Value) : Prop :=
  ∀ (d : Dialect) (text : String), d.SpellsDocument j text.toList → c.fromJson delegates fuel text = .ok v

variable {delegates : Delegates} {bindings : List Converter} {a : StructAdapter} {es es' : List (String × Document)}

/-- The fields of an object that was read. -/
private theorem holds_of_ofDocument? (hd : ∀ p ∈ delegates, p.2.Plain) (hb : ∀ b ∈ bindings, b.Plain)
    (hp : a.read.Regular) {fuel : Nat} {fields : Fields} (hdepth : (Document.object es).depth ≤ maxDepth)
    (h : a.read.fields? (callOf (ofDocument? delegates fuel) bindings) es = some fields) {r : FieldRead}
    (hr : r ∈ a.read.fields) :
    r.Holds (ReadsAs delegates (fuel + 1) (.codec 0 r.codec bindings)) (Document.valuesOf r.serializedName es)
      (fields.get? r.name) := by
  have hcall (i : Nat) (v : Option Value) := @callOf_null _ (ofDocument?_null delegates fuel) bindings i v
  rw [(ReadProcedure.get?_fields? hcall hp h).2 r hr]
  refine FieldRead.holds_valueOf? hcall fun j hj hnull hignores => ?_
  obtain ⟨e, he, rfl⟩ := List.mem_map.1 hj
  obtain ⟨he, hname⟩ := List.mem_filter.1 he
  have hchange := (ReadProcedure.isSome_fields? a.read es).1 (Option.isSome_of_eq_some h) e he r
    (beq_iff_eq.1 hname ▸ hp.field?_eq_some hr)
  rw [FieldRead.change?_of_heeded hnull hignores, Option.isSome_map] at hchange
  obtain ⟨v, hv⟩ := Option.isSome_iff_exists.1 hchange
  have hle : e.2.depth ≤ maxDepth := by
    rw [Document.depth] at hdepth
    exact Document.entriesDepth_le_iff.1 (Nat.le_of_succ_le hdepth) e he
  exact ⟨v, hv, fun _ _ htext => (fromJson_eq_ok hd (.codec 0 r.codec hb) htext).2 ⟨hle, hv⟩⟩

/-- Fields are read independently.  If the entries of an object are reordered, but not those with one name among each
other, a structure's converter that involves no code of the caller's own reads both objects or neither, and the same
into every declared field: what the codec of the field by itself makes of the last value with the field's own name
that is not ignored, and nothing after a null. -/
theorem fromJson_reordered {model : Model} {accessor : Accessor} {namePrefix : String} {d : Declaration}
    {catalog catalog' : Catalog} (ha : d.structAdapter model accessor namePrefix catalog = (.ok a, catalog'))
    (hnames : (d.fields.map Field.name).Nodup) (hd : ∀ p ∈ delegates, p.2.Plain) (hb : ∀ b ∈ bindings, b.Plain)
    (hes : Document.Reordered es es') {dialect dialect' : Dialect} {text text' : String}
    (htext : dialect.SpellsDocument (.object es) text.toList)
    (htext' : dialect'.SpellsDocument (.object es') text'.toList) (id fuel : Nat) (target : TypeRef) (linked : Bool) :
    let c := struct id a target bindings linked
    ((∃ v, c.fromJson delegates fuel text = .ok v) ↔ ∃ v, c.fromJson delegates fuel text' = .ok v) ∧
      ∀ v v', c.fromJson delegates fuel text = .ok v → c.fromJson delegates fuel text' = .ok v' →
        ∃ fields fields' : Fields, v = some (.object target fields) ∧ v' = some (.object target fields') ∧
          ∀ f ∈ d.fields, fields.get? f.name = fields'.get? f.name ∧
            ∃ r, a.read.field? f.serializedName = some r ∧ r.name = f.name ∧
              r.Holds (ReadsAs delegates fuel (.codec 0 r.codec bindings)) (Document.valuesOf f.serializedName es)
                (fields.get? f.name) := by
  intro c
  have hc : c.Plain := .struct id a target linked hb
  simp only [fromJson_eq_ok hd hc htext, fromJson_eq_ok hd hc htext', ← hes.depth_eq]
  obtain ⟨codecs, hserves⟩ := Declaration.structAdapter_ok ha
  have hp := hserves.regular hnames
  cases fuel with
  | zero => simp [ofDocument?]
  | succ fuel =>
    -- the bindings, which have less fuel, read null as absent
    have hcall (i : Nat) (v : Option Value) := @callOf_null _ (ofDocument?_null delegates fuel) bindings i v
    constructor
    · rw [exists_and_left, exists_and_left]
      refine and_congr_right fun _ => ⟨?_, ?_⟩
      · rintro ⟨v, hv⟩
        exact ReadProcedure.ofDocument?_reordered hcall hp hes hv
      · rintro ⟨v, hv⟩
        exact ReadProcedure.ofDocument?_reordered hcall hp hes.symm hv
    · rintro v v' ⟨hdepth, hv⟩ ⟨-, hv'⟩
      obtain ⟨fields, hfields, -, rfl⟩ := ReadProcedure.ofDocument?_object.1 hv
      obtain ⟨fields', hfields', -, rfl⟩ := ReadProcedure.ofDocument?_object.1 hv'
      refine ⟨fields, fields', rfl, rfl, fun f hf => ?_⟩
      obtain ⟨r, hr, hfound, hname, hserialized⟩ := hserves.exists_read hf
      rw [← hname]
      refine ⟨?_, r, hfound, rfl, ?_⟩
      · rw [(ReadProcedure.get?_fields? hcall hp hfields).2 r hr,
          (ReadProcedure.get?_fields? hcall hp hfields').2 r hr, hes.valuesOf_eq]
      · rw [← hserialized]
        exact holds_of_ofDocument? hd hb hp hdepth hfields hr

/-! Items with a count that may be absent, a label that must be present, and the next item. -/

def item : Declaration := .plain "demo::Item" (.structure [⟨"count", some "n", .named "i64" [], .none, none⟩,
  ⟨"label", none, .named "String" [], .nonNull, none⟩, ⟨"next", none, .named "demo::Item" [], .none, none⟩])

def itemModel : Model := ⟨[item], [], List.nodup_singleton _⟩

def itemModule : AdapterModule := (itemModel.generate .standard).toOption.getD default

def itemAdapter : StructAdapter :=
  (item.structAdapter itemModel AccessStrategy.direct.accessor "type_adapter" .empty).1.toOption.getD default

/-- A truth value is no count, and the first label is cleared. -/
def itemJson : Json := .object [("n", .string ['7']), ("label", .null), ("n", .bool true),
  ("next", .object [("label", .string ['b'])]), ("label", .string ['a'])]

def itemJson' : Json :=
  .object [("label", .null), ("next", .object [("label", .string ['b'])]), ("label", .string ['a']),
    ("n", .string ['7']), ("n", .bool true)]

private theorem itemEntries_reordered : Document.Reordered
    [("n", .string "7"), ("label", .null), ("n", .bool true), ("next", .object [("label", .string "b")]),
      ("label", .string "a")]
    [("label", .null), ("next", .object [("label", .string "b")]), ("label", .string "a"), ("n", .string "7"),
      ("n", .bool true)] := by
  refine ⟨(List.Perm.swap _ _ _).trans (.cons _ (@List.perm_append_comm _ [_, _] [_, _])), fun name => ?_⟩
  by_cases hn : "n" = name
  · subst hn
    rfl
  · by_cases hlabel : "label" = name <;> by_cases hnext : "next" = name <;> simp [hn, hlabel, hnext]

/-- The converter that a registry gives out for items, whose binding is the placeholder of its own type. -/
theorem fromJson_reordered_item :
    let next := Value.object item.selfType [("label", .str "b")]
    let c := struct 1 itemAdapter item.selfType [.placeholder 0 item.selfType] true
    ∃ s, (Registry.ofModules [itemModule] []).resolve 2 item.selfType .empty = .ok c s ∧
      ∃ fields fields' : Fields,
        c.fromJson s.delegates 3 (String.ofList itemJson.text) = .ok (some (.object item.selfType fields)) ∧
        c.fromJson s.delegates 3 (String.ofList itemJson'.text) = .ok (some (.object item.selfType fields')) ∧
        fields = [("count", .int 7), ("next", next), ("label", .str "a")] ∧
        fields'.map (·.1) = ["next", "label", "count"] ∧
          ∀ f ∈ item.fields, fields.get? f.name = fields'.get? f.name := by
  intro next c
  obtain ⟨s, hresolve, hdelegates⟩ :
      ∃ s, (Registry.ofModules [itemModule] []).resolve 2 item.selfType .empty = .ok c s ∧
      s.delegates = [(0, c)] := ⟨_, rfl, rfl⟩
  obtain ⟨hd, hcs⟩ := Registry.plain_of_run (List.forall_mem_nil _) (.resolved .start hresolve)
  have hc : c.Plain := hcs c (List.mem_singleton_self c)
  have hb : ∀ b ∈ [placeholder 0 item.selfType], b.Plain := List.forall_mem_singleton.2 (.placeholder 0 _)
  have hread : c.fromJson s.delegates 3 (String.ofList itemJson.text) =
      .ok (some (.object item.selfType [("count", .int 7), ("next", next), ("label", .str "a")])) :=
    (fromJson_eq_ok hd hc itemJson.spellsDocument_text).2 ⟨by decide, by rw [hdelegates]; rfl⟩
  have hread' : c.fromJson s.delegates 3 (String.ofList itemJson'.text) =
      .ok (some (.object item.selfType [("next", next), ("label", .str "a"), ("count", .int 7)])) :=
    (fromJson_eq_ok hd hc itemJson'.spellsDocument_text).2 ⟨by decide, by rw [hdelegates]; rfl⟩
  obtain ⟨catalog, hadapter⟩ : ∃ catalog,
      item.structAdapter itemModel AccessStrategy.direct.accessor "type_adapter" .empty =
      (.ok itemAdapter, catalog) := ⟨_, rfl⟩
  have hsame := (fromJson_reordered hadapter (by decide) hd hb itemEntries_reordered itemJson.spellsDocument_text
    itemJson'.spellsDocument_text 1 3 item.selfType true).2 _ _ hread hread'
  obtain ⟨fields, fields', hfields, hfields', hget⟩ := hsame
  cases hfields
  cases hfields'
  exact ⟨s, hresolve, _, _, hread, hread', rfl, rfl, fun f hf => (hget f hf).1⟩

end Converter

end Marshal
