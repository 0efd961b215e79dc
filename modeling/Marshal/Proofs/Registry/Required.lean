import Marshal.Proofs.Adapter.Independence
import Marshal.Proofs.Converter.Parts
import Marshal.Proofs.Registry.Planned
import Marshal.Proofs.Registry.Supplied

/-!
# Fields that must be present

Every object inside a value that a registry of generated modules has read, at whatever depth, has the fields that must
be present (`read_complete`).  If the fields of each structure have names of their own in memory, such a value is not
refused for want of a field when it is written again: each part of it goes to a converter of the type that it was read
for, or to the one of its own type.  Where two fields share a name, one of them may be written with the codec of the
other (`not_forall_read_complete`).

Reading is by induction on the fuel, for all converters of all types; writing, with converters that may stand in
another store, by induction on its own fuel.
-/

namespace Marshal

open Effect WriteM

/-- Whether a fault means that a field which must be present is absent. -/
def Error.isOmission : Error → Bool
  | .nonNull .. => true
  | _ => false

/-! ### Fields that were read -/

private theorem FieldChange.mem_of_mem_apply {name : String} {fields : Fields} {change : FieldChange}
    {e : String × Value} (h : e ∈ change.apply name fields) : e ∈ fields ∨ change = .set e.2 ∧ e.1 = name := by
  cases change with
  | keep => exact .inl h
  | clear => exact .inl (List.mem_of_mem_eraseP h)
  | set v =>
    rcases Fields.mem_of_mem_set h with rfl | h
    · exact .inr ⟨rfl, rfl⟩
    · exact .inl h

private theorem FieldRead.exists_of_change? {call : Nat → Document → Option (Option Value)} {f : FieldRead}
    {j : Document} {v : Value} (h : f.change? call j = some (.set v)) :
    f.codec.ofDocument? call j = some (some v) := by
  unfold change? at h
  split at h
  · cases h
  · split at h
    · cases h
    · obtain ⟨w, hw, heq⟩ := Option.map_eq_some_iff.1 h
      cases w with
      | none => cases heq
      | some w =>
        cases heq
        exact hw

/-- The fields of an object that was read were read with the codecs of fields of their names. -/
private theorem ReadProcedure.exists_of_fields? {p : ReadProcedure} {call : Nat → Document → Option (Option Value)}
    {es : List (String × Document)} {fields : Fields} (h : p.fields? call es = some fields) :
    ∀ e ∈ fields, ∃ f ∈ p.fields, f.name = e.1 ∧ ∃ j, f.codec.ofDocument? call j = some (some e.2) := by
  induction es using List.reverseRecOn generalizing fields with
  | nil =>
    obtain rfl : [] = fields := Option.some.inj h
    exact nofun
  | append_singleton es e ih =>
    rw [fields?, List.foldlM_append] at h
    obtain ⟨before, hbefore, h⟩ := Option.bind_eq_some_iff.1 h
    have hlast : p.entry? call before e.1 e.2 = some fields := by simpa using h
    intro e' he'
    unfold entry? at hlast
    cases hf : p.field? e.1 with
    | none =>
      rw [hf] at hlast
      obtain rfl := Option.some.inj hlast
      exact ih hbefore e' he'
    | some f =>
      rw [hf] at hlast
      obtain ⟨change, hchange, rfl⟩ := Option.map_eq_some_iff.1 hlast
      rcases FieldChange.mem_of_mem_apply he' with hold | ⟨rfl, hname⟩
      · exact ih hbefore e' hold
      · exact ⟨f, List.mem_of_find?_eq_some hf, hname.symm, e.2, FieldRead.exists_of_change? hchange⟩

namespace Registry

variable {ms : List AdapterModule}

/-! ### Recipes of structures -/

private theorem eq_named_of_path? {ty : TypeRef} {path : String} (h : ty.path? = some path) :
    ty = .named path ty.args := by
  cases ty <;> cases h
  rfl

private theorem dispatch?_eq_some {m : AdapterModule} {ty : TypeRef} {entry : DispatchEntry} {hit : DispatchMatch} :
    Source.dispatch? m ty = some (entry, hit) ↔
      ty.path? = some entry.path ∧ m.dispatch.reverse.find? (·.path == entry.path) = some entry ∧
      entry.match? ty = some hit := by
  simp only [Source.dispatch?, bind, Option.bind_eq_some_iff, Option.some.injEq, Prod.mk.injEq]
  constructor
  · rintro ⟨path, hpath, entry, hentry, hit, hhit, rfl, rfl⟩
    obtain rfl : entry.path = path := by simpa using List.find?_some hentry
    exact ⟨hpath, hentry, hhit⟩
  · rintro ⟨hpath, hentry, hhit⟩
    exact ⟨entry.path, hpath, entry, hentry, hit, hhit, rfl, rfl⟩

private theorem match?_named (entry : DispatchEntry) {args : List TypeRef}
    (h : args = [] ∨ args.length = entry.arity) :
    ∃ args', entry.match? (.named entry.path args) = some ⟨entry.adapter, args'⟩ ∧
      (args.length = entry.arity → args' = args) := by
  unfold DispatchEntry.match?
  rw [if_neg (by simp [TypeRef.path?])]
  by_cases hlen : args.length = entry.arity
  · exact ⟨args, if_pos hlen, fun _ => rfl⟩
  · have hargs : (TypeRef.named entry.path args).args.isEmpty = true := List.isEmpty_iff.2 (h.resolve_right hlen)
    exact ⟨_, (if_neg hlen).trans (if_pos hargs), fun heq => absurd heq hlen⟩

/-- A module with an adapter for a type handles the type without arguments. -/
private theorem exists_moduleRecipe?_nil {slot : Nat} {m : AdapterModule} {path : String} {args : List TypeRef}
    {p : Recipe} (h : Source.moduleRecipe? slot m (.named path args) = some p) :
    ∃ p', Source.moduleRecipe? slot m (.named path []) = some p' := by
  unfold Source.moduleRecipe? at h ⊢
  split at h
  · cases h
  · next entry hit hdispatch =>
    obtain ⟨hpath, hentry, hhit⟩ := dispatch?_eq_some.1 hdispatch
    obtain rfl : path = entry.path := Option.some.inj hpath
    obtain ⟨args', hmatch, -⟩ := match?_named entry (.inl rfl)
    rw [dispatch?_eq_some.2 ⟨rfl, hentry, hmatch⟩]
    obtain ⟨hadapter, -⟩ := DispatchEntry.match?_eq_some hhit
    rw [hadapter] at h
    dsimp only
    split at h
    · cases h
    all_goals exact ⟨_, rfl⟩

private theorem standardRecipe?_ne_struct {ty target : TypeRef} {slot : Nat} {a : StructAdapter}
    {args : List TypeRef} : Source.standardRecipe? ty ≠ some (.struct slot a target args) := by
  intro hp
  rcases Source.standardRecipe?_eq_some hp with h | ⟨_, h⟩ | ⟨_, _, _, h⟩ | ⟨_, _, _, _, h | ⟨_, h⟩⟩ <;> cases h

/-- The recipe of a structure that a generated module has is that of a declared one. -/
private theorem declared_of_struct {model : Model} {m : AdapterModule} (hgen : model.Generates m)
    {ty target : TypeRef} {slot slot' : Nat} {a : StructAdapter} {args : List TypeRef}
    (h : Source.moduleRecipe? slot m ty = some (.struct slot' a target args)) :
    ∃ d ∈ model.types, ∃ fields accessor codecs, ty.path? = some d.path ∧ d.kind = .structure fields ∧
      a.Serves accessor d codecs := by
  obtain ⟨d, hd, accessor, a', args', hpath, hserves, -, ⟨x, rfl, heq⟩ | ⟨x, i, -, heq⟩⟩ :=
    hgen.declared_of_moduleRecipe? h
  · cases heq
    cases hserves with
    | @struct fields codecs _ hkind hx => exact ⟨d, hd, fields, accessor, codecs, hpath, hkind, hx⟩
  · cases heq

/-- The type that the instances of a structure bear has the recipe of the type that the converter is for. -/
private theorem recipe?_of_struct {ty target : TypeRef} {slot : Nat} {a : StructAdapter} {args : List TypeRef}
    (h : recipe? ms ty = some (.struct slot a target args)) :
    recipe? ms target = some (.struct slot a target args) := by
  unfold recipe? at h
  rcases Option.or_eq_some_iff.1 h with hm | ⟨-, hstandard⟩
  · obtain ⟨before, ⟨m, slot'⟩, after, hms, hrecipe, hbefore⟩ := List.findSome?_eq_some_iff.1 hm
    have hfound := hrecipe
    unfold Source.moduleRecipe? at hfound
    split at hfound
    · cases hfound
    next entry hit hdispatch =>
    obtain ⟨hpath, hentry, hhit⟩ := dispatch?_eq_some.1 hdispatch
    obtain ⟨hadapter, hlen, hargs⟩ := DispatchEntry.match?_eq_some hhit
    obtain ⟨args', hmatch, heq⟩ := match?_named entry (.inr hlen)
    rw [heq hlen, ← hadapter] at hmatch
    have hfound' : Source.moduleRecipe? slot' m (.named entry.path hit.args) = some (.struct slot a target args) := by
      unfold Source.moduleRecipe?
      rw [dispatch?_eq_some.2 ⟨rfl, hentry, hmatch⟩]
      exact hfound
    obtain rfl : target = .named entry.path hit.args := by
      dsimp only at hfound
      split at hfound
      · cases hfound
      · exact (Recipe.struct.inj (Option.some.inj hfound)).2.2.1.symm
      · cases hfound
    refine Option.or_eq_some_iff.2 (.inl (List.findSome?_eq_some_iff.2 ⟨before, (m, slot'), after, hms, hfound', ?_⟩))
    intro x hx
    by_contra hsome
    obtain ⟨p, hp⟩ := Option.ne_none_iff_exists'.1 hsome
    have hnone := hbefore x hx
    rcases hargs with hargs | ⟨hargs, -⟩
    · rw [eq_named_of_path? hpath, ← hargs, hp] at hnone
      cases hnone
    · obtain ⟨p', hp'⟩ := exists_moduleRecipe?_nil hp
      rw [eq_named_of_path? hpath, hargs, hp'] at hnone
      cases hnone
  · exact absurd hstandard standardRecipe?_ne_struct

/-- The adapter of a structure serves a declaration; here all declarations may be known to have some property. -/
private theorem serves_of_recipe? {Q : Declaration → Prop}
    (hms : ∀ m ∈ ms, ∃ model : Model, model.Generates m ∧ ∀ d ∈ model.types, Q d) {ty target : TypeRef} {slot : Nat}
    {a : StructAdapter} {args : List TypeRef} (h : recipe? ms ty = some (.struct slot a target args)) :
    ∃ accessor d codecs, Q d ∧ a.Serves accessor d codecs := by
  rcases recipe?_eq_some h with ⟨slot', m, hm, hp⟩ | hp
  · obtain ⟨model, hgen, hQ⟩ := hms m hm
    obtain ⟨d, hd, -, accessor, codecs, -, -, hserves⟩ := declared_of_struct hgen hp
    exact ⟨accessor, d, codecs, hQ d hd, hserves⟩
  · exact absurd hp standardRecipe?_ne_struct

/-! ### Writing without omissions -/

/-- The registry is at a store that it can come to, and what was bound is bound still. -/
def Continues (ms : List AdapterModule) (ds : Delegates) (s : Store) : Prop :=
  Healthy ms [] s ∧ ds.Extended s.delegates

/-- Whatever converter a part has become writes the value without finding a field missing. -/
def Writes (ms : List AdapterModule) (fuel : Nat) (part : Part) (v : Option Value) : Prop :=
  ∀ ds c, DenotesPart ms [] ds part c →
    Respects (Continues ms ds) (fun e => e.isOmission = false) (c.write (ofModules ms []) fuel v)

private theorem spares_unwritable (e : Error) (h : e.isUnwritable = true) : e.isOmission = false := by
  cases e <;> first | rfl | cases h

variable {fuel : Nat} {part : Part} {v : Value} {v? : Option Value} {ds : Delegates}

/-- It is enough to look at converters that are built by the recipe of the type. -/
private theorem writes_of_recipe {ty : TypeRef} (h : ∀ p, recipe? ms ty = some p → ∀ n < fuel, ∀ ds id cs,
    List.Forall₂ (DenotesPart ms [] ds) p.parts cs →
      Respects (Continues ms ds) (fun e => e.isOmission = false)
        ((p.assemble id cs).write (ofModules ms []) (n + 1) v?)) :
    Writes ms fuel (.resolved ty) v? := by
  intro ds c hc
  cases fuel with
  | zero => exact respects_throw rfl
  | succ n =>
    have hdenotes : Denotes ms [] ds ty c := hc
    rcases hdenotes.shape with ⟨id, d, p, n', cs, rfl, hd, -, hp, rfl, hcs⟩ | ⟨p, n', cs, hp, rfl, hcs⟩
    · intro w hw
      rw [write_placeholder (hw.2 id _ hd)]
      cases n with
      | zero => exact ⟨hw, rfl⟩
      | succ n => exact h p hp n (by omega) ds n' cs hcs w hw
    · exact h p hp n (Nat.lt_succ_self n) ds n' cs hcs

/-- A value is written with the converter of its type, which stands in a later store. -/
private theorem respects_writeResolved {ty : TypeRef} (h : Writes ms fuel (.resolved ty) (some v)) (ds : Delegates) :
    Respects (Continues ms ds) (fun e => e.isOmission = false)
      (Converter.writeResolved (ofModules ms []) fuel (Converter.write (ofModules ms []) fuel) ty v) := by
  rintro w ⟨hhealthy, hext⟩
  by_cases ha : w.store.alive = true
  · cases hr : (ofModules ms []).resolve fuel ty w.store with
    | ok c s =>
      have hlater := (later_of_resolve hr).extended hhealthy
      have hrun := h s.delegates c (hhealthy.denotes hr) { w with store := s } ⟨hhealthy.resolve hr, fun _ _ => id⟩
      have hback {s' : Store} (hs' : Continues ms s.delegates s') : Continues ms ds s' :=
        ⟨hs'.1, fun id c hc => hs'.2 id c (hlater id c (hext id c hc))⟩
      rw [writeResolved_of_ok ha hr]
      cases hw : c.write (ofModules ms []) fuel (some v) { w with store := s } with
      | ok a w' =>
        rw [hw] at hrun
        exact hback hrun
      | error e w' =>
        rw [hw] at hrun
        exact ⟨hback hrun.1, hrun.2⟩
    | error e s =>
      have hlater := (later_of_resolve_error hr).extended hhealthy
      have hfault := isOfResolution_of_resolve hr
      rw [writeResolved_of_error ha hr]
      exact ⟨⟨hhealthy.resolve_error hr, fun id c hc => hlater id c (hext id c hc)⟩,
        by cases e <;> first | rfl | cases hfault⟩
  · rw [writeResolved_of_dropped ha]
    exact ⟨⟨hhealthy, hext⟩, rfl⟩

/-- A binding is a part that a converter was built from. -/
private theorem respects_writeBinding {ps : List Part} {cs : List Converter}
    (hcs : List.Forall₂ (DenotesPart ms [] ds) ps cs) (i : Nat)
    (h : ∀ part, ps[i]? = some part → Writes ms fuel part v?) :
    Respects (Continues ms ds) (fun e => e.isOmission = false)
      (Converter.writeBinding (Converter.write (ofModules ms []) fuel) cs i v?) := by
  unfold Converter.writeBinding
  cases hb : cs[i]? with
  | none => exact respects_throw rfl
  | some c =>
    obtain ⟨hi, rfl⟩ := List.getElem?_eq_some_iff.1 hb
    have hi' : i < ps.length := hcs.length_eq ▸ hi
    exact h _ (List.getElem?_eq_getElem hi') ds _ (hcs.get hi' hi)

/-- How values with a type of their own are written, with a registry or without. -/
private theorem respectsTyped_linked (linked : Bool) (h : ∀ u, u.Inside v → u.runtimeType.isAny = false →
    Writes ms fuel (.resolved u.runtimeType) (some u)) (ds : Delegates) :
    RespectsTyped (Continues ms ds) (fun e => e.isOmission = false)
      (if linked then some
        (Converter.writeResolved (ofModules ms []) fuel (Converter.write (ofModules ms []) fuel)) else none) v := by
  cases linked with
  | false => exact respectsTyped_none v
  | true =>
    rintro _ ⟨⟩ u hu hany
    exact respects_writeResolved (h u hu hany) ds

/-- What a converter over such parts writes with a codec. -/
private theorem respects_over (v? : Option Value) {ps : List Part} {cs : List Converter}
    (hcs : List.Forall₂ (DenotesPart ms [] ds) ps cs) (linked : Bool) (k : Codec)
    (hnone : ∀ part ∈ ps, Writes ms fuel part none)
    (hparts : ∀ v, v? = some v → ∀ i u, k.Hands v i u → ∀ part, ps[i]? = some part → Writes ms fuel part (some u))
    (htyped : ∀ v, v? = some v → ∀ u, u.Inside v → u.runtimeType.isAny = false →
      Writes ms fuel (.resolved u.runtimeType) (some u)) :
    Respects (Continues ms ds) (fun e => e.isOmission = false)
      (k.writeWith (Converter.writeBinding (Converter.write (ofModules ms []) fuel) cs)
        (if linked then some
          (Converter.writeResolved (ofModules ms []) fuel (Converter.write (ofModules ms []) fuel)) else none)
        v?) := by
  have habsent (i : Nat) (_ : i ∈ k.indices) : Respects (Continues ms ds) (fun e => e.isOmission = false)
      (Converter.writeBinding (Converter.write (ofModules ms []) fuel) cs i none) :=
    respects_writeBinding hcs i fun part hpart => hnone part (List.mem_of_getElem? hpart)
  cases v? with
  | none => exact respects_codec_none spares_unwritable k habsent
  | some v =>
    exact respects_codec spares_unwritable k habsent
      (fun i u hu => respects_writeBinding hcs i (hparts v rfl i u hu))
        (respectsTyped_linked linked (htyped v rfl) ds)

/-- Any converter writes a value without objects so. -/
private theorem writes_flat : ∀ (fuel : Nat) (part : Part) (v? : Option Value), (∀ v, v? = some v → v.Flat) →
    Writes ms fuel part v? := by
  intro fuel
  induction fuel using Nat.strong_induction_on with
  | _ fuel ih =>
    intro part v? hv
    cases part with
    | attached path =>
      intro ds c hc
      obtain ⟨p, hp, -⟩ := mem_of_attached? hc
      cases hp
    | native kind =>
      rintro ds c ⟨n, rfl⟩
      cases fuel with
      | zero => exact respects_throw rfl
      | succ fuel => exact respects_native spares_unwritable kind v?
    | resolved ty =>
      refine writes_of_recipe fun p _ n hn ds id cs hcs => ?_
      have hpart (v : Value) (hv? : v? = some v) (u : Value) (hu : u.Inside v) (part : Part) :
          Writes ms n part (some u) := by
        refine ih n hn part (some u) ?_
        rintro _ ⟨⟩
        exact (hv v hv?).of_inside hu
      have hover (k : Codec) := respects_over v? hcs false k (fun part _ => ih n hn part none nofun)
        (fun v hv? i u hu part _ => hpart v hv? u hu.inside part) fun v hv? u hu _ => hpart v hv? u hu _
      cases p with
      | struct slot a target args =>
        exact respects_struct spares_unwritable a fun ty fields heq => absurd .self (hv _ heq ty fields)
      | enum slot index a => exact respects_enum spares_unwritable a v?
      | dynamic =>
        rw [Recipe.assemble, Converter.write]
        cases hw : Value.present? v? with
        | none => exact respects_token (Writer.raises_null spares_unwritable)
        | some v =>
          have htyped (u : Value) (hu : u.Inside v) (_ : u.runtimeType.isAny = false) :=
            hpart v (Value.present?_eq_some hw) u hu (.resolved u.runtimeType)
          exact respects_writeAny spares_unwritable v (respectsTyped_linked true htyped ds)
      | native kind => exact respects_native spares_unwritable kind v?
      | list element i => exact hover (.sequence (.binding 0) i)
      | objectMap key value i => exact hover (.objectMap key (.binding 0) i)
      | pairMap key value i => exact hover (.pairMap (.binding 1) (.binding 0) i)

/-! ### What was read -/

/-- The object has the fields that must be present by the recipe of its type. -/
def Present (ms : List AdapterModule) (ty : TypeRef) (fields : Fields) : Prop :=
  ∃ slot a args, recipe? ms ty = some (.struct slot a ty args) ∧ ∀ name ∈ a.read.nonNull, (fields.get? name).isSome

/-- Every object inside the value is complete and, under the assumption `D`, is written by the converters of its
type. -/
structure Complete (ms : List AdapterModule) (D : Prop) (v : Value) : Prop where
  present : ∀ ty fields, (Value.object ty fields).Inside v → Present ms ty fields
  writes : D → ∀ ty fields, (Value.object ty fields).Inside v → ∀ fuel,
    Writes ms fuel (.resolved ty) (some (.object ty fields))

private theorem Complete.of_flat {D : Prop} (h : v.Flat) : Complete ms D v where
  present ty fields hin := absurd hin (h ty fields)
  writes _ ty fields hin := absurd hin (h ty fields)

/-- Every part with a type of its own is written by the converters of that type. -/
private theorem Complete.typed {D : Prop} (h : Complete ms D v) (hD : D) {u : Value} (hu : u.Inside v)
    (hany : u.runtimeType.isAny = false) (fuel : Nat) : Writes ms fuel (.resolved u.runtimeType) (some u) := by
  cases u with
  | object ty fields => exact h.writes hD ty fields hu fuel
  | null | list _ | map _ => cases hany
  | _ =>
    refine writes_flat fuel _ _ ?_
    rintro _ ⟨⟩
    exact Value.flat_of_isLeaf rfl

/-- What is made of a value that a part has read. -/
structure Restored (ms : List AdapterModule) (D : Prop) (part : Part) (v : Value) : Prop where
  complete : Complete ms D v
  writes : D → ∀ fuel, Writes ms fuel part (some v)

private theorem Restored.of_flat {D : Prop} (h : v.Flat) : Restored ms D part v where
  complete := .of_flat h
  writes _ fuel := by
    refine writes_flat fuel part _ ?_
    rintro _ ⟨⟩
    exact h

/-- What is made of a value that a codec over the parts has read. -/
structure RestoredBy (ms : List AdapterModule) (D : Prop) (ps : List Part) (k : Codec) (v : Value) : Prop where
  complete : Complete ms D v
  parts : D → ∀ i u, k.Hands v i u → ∀ part, ps[i]? = some part → ∀ fuel, Writes ms fuel part (some u)

section Reading

variable {D : Prop} {n : Nat}

/-- Converters that read with some fuel read values that are complete. -/
def Reads (ms : List AdapterModule) (D : Prop) (ds : Delegates) (n : Nat) : Prop :=
  ∀ part c, DenotesPart ms [] ds part c → ∀ j v, c.ofDocument? ds n j = some (some v) → Restored ms D part v

private theorem Reads.restoredBy (h : Reads ms D ds n) {ps : List Part} {cs : List Converter}
    (hcs : List.Forall₂ (DenotesPart ms [] ds) ps cs) {k : Codec} (hk : k.any Codec.isTakenOver = false)
    {j : Document} (hread : k.ofDocument? (Converter.callOf (Converter.ofDocument? ds n) cs) j = some (some v)) :
    RestoredBy ms D ps k v := by
  -- whatever is handed to a binding was read by it
  have hpart {i : Nat} {u : Value} (hu : k.Hands v i u) : ∃ part, ps[i]? = some part ∧ Restored ms D part u := by
    obtain ⟨j', hj'⟩ := Codec.exists_read hu hk hread
    unfold Converter.callOf at hj'
    cases hb : cs[i]? with
    | none =>
      rw [hb] at hj'
      cases hj'
    | some c =>
      rw [hb] at hj'
      obtain ⟨hi, rfl⟩ := List.getElem?_eq_some_iff.1 hb
      have hi' : i < ps.length := hcs.length_eq ▸ hi
      exact ⟨_, List.getElem?_eq_getElem hi', h _ _ (hcs.get hi' hi) j' u hj'⟩
  have hinside {ty : TypeRef} {fields : Fields} (hin : (Value.object ty fields).Inside v) :
      ∃ u, (Value.object ty fields).Inside u ∧ Complete ms D u := by
    obtain ⟨i, u, hu, hin⟩ := Codec.exists_hands hk hread hin
    obtain ⟨part, -, hrestored⟩ := hpart hu
    exact ⟨u, hin, hrestored.complete⟩
  refine ⟨⟨fun ty fields hin => ?_, fun hD ty fields hin => ?_⟩, fun hD i u hu part hpart' => ?_⟩
  · obtain ⟨u, hu, hcomplete⟩ := hinside hin
    exact hcomplete.present ty fields hu
  · obtain ⟨u, hu, hcomplete⟩ := hinside hin
    exact hcomplete.writes hD ty fields hu
  · obtain ⟨part', hpart'', hrestored⟩ := hpart hu
    obtain rfl := Option.some.inj (hpart'.symm.trans hpart'')
    exact hrestored.writes hD

/-- What was read by a codec is written by it, over converters in any store. -/
private theorem RestoredBy.respects {ps : List Part} {k : Codec} (h : RestoredBy ms D ps k v) (hD : D)
    {cs : List Converter} (hcs : List.Forall₂ (DenotesPart ms [] ds) ps cs) (linked : Bool) (fuel : Nat) :
    Respects (Continues ms ds) (fun e => e.isOmission = false)
      (k.writeWith (Converter.writeBinding (Converter.write (ofModules ms []) fuel) cs)
        (if linked then some
          (Converter.writeResolved (ofModules ms []) fuel (Converter.write (ofModules ms []) fuel)) else none)
        (some v)) := by
  refine respects_over _ hcs linked k (fun part _ => writes_flat fuel part none nofun) ?_ ?_
  · rintro _ ⟨⟩ i u hu part hpart
    exact h.parts hD i u hu part hpart fuel
  · rintro _ ⟨⟩ u hu hany
    exact h.complete.typed hD hu hany fuel

/-- What was read by the codec of a recipe is written by the converters of the type. -/
private theorem RestoredBy.restored {ty : TypeRef} {p : Recipe} (hp : recipe? ms ty = some p) {k : Codec}
    (hassemble : ∀ id cs, p.assemble id cs = .codec id k cs) (h : RestoredBy ms D p.parts k v) :
    Restored ms D (.resolved ty) v where
  complete := h.complete
  writes hD fuel := by
    refine writes_of_recipe fun p' hp' n _ ds id cs hcs => ?_
    obtain rfl := Option.some.inj (hp.symm.trans hp')
    rw [hassemble]
    exact h.respects hD hcs false n

/-! ### Structures -/

/-- The names in memory of the fields of each structure are distinct. -/
def Distinct (ms : List AdapterModule) : Prop :=
  ∀ m ∈ ms, ∃ model : Model, model.Generates m ∧ ∀ d ∈ model.types, (d.fields.map Field.name).Nodup

private theorem mem_write {accessor : Accessor} {d : Declaration} {codecs : List Codec} {a : StructAdapter}
    (ha : a.Serves accessor d codecs) {f : FieldWrite} (hf : .field f ∈ a.write) :
    ∃ p ∈ d.fields.zip codecs, f = ⟨p.1.name, p.1.serializedName, accessor p.1, p.2, p.1.isNonNull⟩ := by
  rw [ha.write, Declaration.writeProcedure] at hf
  simp only [List.mem_append, List.mem_cons, List.mem_map, reduceCtorEq, List.not_mem_nil, or_false, false_or] at hf
  obtain ⟨p, hp, heq⟩ := hf
  exact ⟨p, hp, (WriteOp.field.inj heq).symm⟩

private theorem mem_read {accessor : Accessor} {d : Declaration} {codecs : List Codec} {a : StructAdapter}
    (ha : a.Serves accessor d codecs) {f : FieldRead} (hf : f ∈ a.read.fields) :
    ∃ p ∈ d.fields.zip codecs, f = ⟨p.1.name, p.1.serializedName, accessor p.1, p.2.acceptedTokens, p.2⟩ := by
  rw [ha.read, Declaration.readProcedure] at hf
  obtain ⟨p, hp, rfl⟩ := List.mem_map.1 hf
  exact ⟨p, hp, rfl⟩

/-- A field that must not be absent is one that must be present. -/
private theorem mem_nonNull {accessor : Accessor} {d : Declaration} {codecs : List Codec} {a : StructAdapter}
    (ha : a.Serves accessor d codecs) {f : Field} (hf : f ∈ d.fields) (hnonNull : f.isNonNull = true) :
    f.name ∈ a.read.nonNull := by
  obtain ⟨k, hfk⟩ := ha.exists_codec hf
  rw [ha.read, Declaration.readProcedure]
  exact List.mem_map.2 ⟨(f, k), List.mem_filter.2 ⟨hfk, hnonNull⟩, rfl⟩

/-- Where the names are distinct, a field is written with the codec that has read it. -/
private theorem codec_eq {accessor : Accessor} {d : Declaration} {codecs : List Codec} {a : StructAdapter}
    (ha : a.Serves accessor d codecs) (hnodup : (d.fields.map Field.name).Nodup) {f : FieldWrite}
    (hf : .field f ∈ a.write) {f' : FieldRead} (hf' : f' ∈ a.read.fields) (hname : f'.name = f.name) :
    f'.codec = f.codec := by
  obtain ⟨p, hp, rfl⟩ := mem_write ha hf
  obtain ⟨p', hp', rfl⟩ := mem_read ha hf'
  rw [← ha.map_zip Field.name] at hnodup
  obtain rfl : p' = p := List.inj_on_of_nodup_map hnodup hp' hp hname
  rfl

/-- The fields of an instance were read with codecs of fields of their names. -/
def RestoredFields (ms : List AdapterModule) (D : Prop) (a : StructAdapter) (args : List TypeRef) (fields : Fields) :
    Prop :=
  ∀ e ∈ fields, ∃ f ∈ a.read.fields, f.name = e.1 ∧ RestoredBy ms D (a.bindings.map (·.part args)) f.codec e.2

variable {ty target : TypeRef} {slot : Nat} {a : StructAdapter} {args : List TypeRef} {fields : Fields}

/-- An instance that is complete is written without an omission. -/
private theorem writes_object (hms : Distinct ms) (hD : D) (hp : recipe? ms ty = some (.struct slot a target args))
    (hpresent : ∀ name ∈ a.read.nonNull, (fields.get? name).isSome) (hfields : RestoredFields ms D a args fields)
    (fuel : Nat) (t : TypeRef) : Writes ms fuel (.resolved ty) (some (.object t fields)) := by
  refine writes_of_recipe fun p' hp' n _ ds id cs hcs => ?_
  obtain rfl := Option.some.inj (hp.symm.trans hp')
  obtain ⟨accessor, d, codecs, hnodup, ha⟩ := serves_of_recipe? hms hp
  rw [Recipe.assemble, Converter.write]
  refine respects_struct spares_unwritable a ?_
  rintro _ _ ⟨⟩ f hf
  refine respects_writeField (respects_token (Writer.raises_name spares_unwritable _)) (fun v hv => ?_)
    (fun hnone hf' => ?_) fun _ => ?_
  · obtain ⟨f', hf', hname, hrestored⟩ := hfields _ (Fields.mem_of_get? hv)
    rw [codec_eq ha hnodup hf hf' hname] at hrestored
    exact hrestored.respects hD hcs _ n
  · obtain ⟨p, hp, rfl⟩ := mem_write ha hf
    have hsome := hpresent _ (mem_nonNull ha (List.of_mem_zip hp).1 hf')
    rw [hnone] at hsome
    cases hsome
  · have habsent (v : Value) : (none : Option Value) ≠ some v := (Option.some_ne_none v).symm
    exact respects_over _ hcs _ f.codec (fun part _ => writes_flat n part none fun v hv => absurd hv (habsent v))
      (fun v hv => absurd hv (habsent v)) fun v hv => absurd hv (habsent v)

/-- An instance that was read. -/
private theorem restored_object (hms : D → Distinct ms) (hp : recipe? ms ty = some (.struct slot a target args))
    (hpresent : ∀ name ∈ a.read.nonNull, (fields.get? name).isSome) (hfields : RestoredFields ms D a args fields) :
    Restored ms D (.resolved ty) (.object target fields) := by
  refine ⟨⟨fun t fs hin => ?_, fun hD t fs hin fuel => ?_⟩, fun hD fuel =>
    writes_object (hms hD) hD hp hpresent hfields fuel _⟩
  · cases hin with
    | self => exact ⟨slot, a, args, recipe?_of_struct hp, hpresent⟩
    | field he hin =>
      obtain ⟨f, -, -, hrestored⟩ := hfields _ he
      exact hrestored.complete.present t fs hin
  · cases hin with
    | self => exact writes_object (hms hD) hD (recipe?_of_struct hp) hpresent hfields fuel _
    | field he hin =>
      obtain ⟨f, -, -, hrestored⟩ := hfields _ he
      exact hrestored.complete.writes hD t fs hin fuel

/-! ### All converters -/

/-- Nothing that a structure was built from is attached, so its codecs are the planned ones. -/
private theorem any_isTakenOver_of_parts (hms : ∀ m ∈ ms, ∃ model : Model, model.Generates m)
    (hp : recipe? ms ty = some (.struct slot a target args)) {cs : List Converter}
    (hcs : List.Forall₂ (DenotesPart ms [] ds) (a.bindings.map (·.part args)) cs) {f : FieldRead}
    (hf : f ∈ a.read.fields) : f.codec.any Codec.isTakenOver = false := by
  have hms' : ∀ m ∈ ms, ∃ model : Model, model.Generates m ∧ ∀ d ∈ model.types, True := fun m hm => by
    obtain ⟨model, hgen⟩ := hms m hm
    exact ⟨model, hgen, fun _ _ => trivial⟩
  obtain ⟨accessor, d, codecs, -, ha⟩ := serves_of_recipe? hms' hp
  obtain ⟨p, hfk, rfl⟩ := mem_read ha hf
  have hunattached : ∀ b ∈ a.bindings, b.source.isAttached = false := by
    intro b hb
    obtain ⟨c, -, hc⟩ := forall₂_of_mem_left hcs (List.mem_map_of_mem hb)
    cases hs : b.source with
    | attached path =>
      rw [Binding.part, hs] at hc
      obtain ⟨_, hmem, -⟩ := mem_of_attached? hc
      cases hmem
    | _ => rfl
  have hcodes : FieldCodes a.bindings p.1 p.2 := ha.field_codes hfk
  exact (hcodes.plans (hcodes.converter_eq_none hunattached)).any_isTakenOver

private theorem reads (hms : ∀ m ∈ ms, ∃ model : Model, model.Generates m) (hD : D → Distinct ms) (ds : Delegates) :
    ∀ n, Reads ms D ds n := by
  intro n
  induction n with
  | zero => exact fun part c _ j v hv => by cases hv
  | succ n ih =>
    intro part c hc j v hread
    cases part with
    | attached path =>
      obtain ⟨_, hmem, -⟩ := mem_of_attached? hc
      cases hmem
    | native kind =>
      obtain ⟨id, rfl⟩ := hc
      exact .of_flat (NativeKind.flat_of_ofDocument? hread)
    | resolved ty =>
      have hdenotes : Denotes ms [] ds ty c := hc
      rcases hdenotes.shape with ⟨id, d, p, n', cs, rfl, hd, hden, -⟩ | ⟨p, n', cs, hp, rfl, hcs⟩
      · rw [Converter.ofDocument?, hd] at hread
        exact ih (.resolved ty) d hden j v hread
      have hover {k : Codec} (hassemble : ∀ id cs, p.assemble id cs = .codec id k cs)
          (hk : k.any Codec.isTakenOver = false) : Restored ms D (.resolved ty) v := by
        rw [hassemble] at hread
        exact RestoredBy.restored hp hassemble (ih.restoredBy hcs hk hread)
      cases p with
      | struct slot a target args =>
        cases j with
        | object es =>
          obtain ⟨fields, hfields, hmissing, heq⟩ := ReadProcedure.ofDocument?_object.1 hread
          obtain rfl := Option.some.inj heq
          refine restored_object hD hp (fun name hname => ?_) fun e he => ?_
          · have hnone := List.find?_eq_none.1 hmissing name hname
            simpa [Option.isSome_iff_ne_none] using hnone
          · obtain ⟨f, hf, hname, j, hj⟩ := ReadProcedure.exists_of_fields? hfields e he
            exact ⟨f, hf, hname, ih.restoredBy hcs (any_isTakenOver_of_parts hms hp hcs hf) hj⟩
        | _ => cases hread
      | enum slot index a =>
        obtain ⟨name, -, hconstant⟩ := Option.bind_eq_some_iff.1 (Option.some.inj hread)
        obtain ⟨constant, -, rfl⟩ := Option.map_eq_some_iff.1 hconstant
        exact .of_flat (Value.flat_of_isLeaf rfl)
      | dynamic => exact .of_flat (Value.flat_of_ofDocument? j v hread)
      | native kind => exact .of_flat (NativeKind.flat_of_ofDocument? hread)
      | list element i => exact hover (fun _ _ => rfl) rfl
      | objectMap key value i => exact hover (fun _ _ => rfl) rfl
      | pairMap key value i => exact hover (fun _ _ => rfl) rfl

end Reading

/-! ### Registries -/

/-- Every converter that a registry without attached converters has given out is that of a part. -/
private theorem frame_denotes : Frame (ofModules ms [])
    (fun cs s => Healthy ms [] s ∧ ∀ c ∈ cs, ∃ part, DenotesPart ms [] s.delegates part c) fun _ => True where
  mild _ _ := trivial
  drop h := ⟨h.1, fun c hc => h.2 c (List.mem_cons_of_mem _ hc)⟩
  hold hc h := ⟨h.1, List.forall_mem_cons.2 ⟨h.2 _ hc, h.2⟩⟩
  binding {b c cs s} hb h := by
    refine ⟨h.1, List.forall_mem_cons.2 ⟨?_, h.2⟩⟩
    obtain ⟨part, hpart⟩ := h.2 c (List.mem_cons_self ..)
    cases part with
    | attached path =>
      obtain ⟨_, hmem, -⟩ := mem_of_attached? hpart
      cases hmem
    | native kind =>
      obtain ⟨n, rfl⟩ := hpart
      cases hb
    | resolved ty =>
      have hdenotes : Denotes ms [] s.delegates ty c := hpart
      rcases hdenotes.shape with ⟨id, d, p, n, bs, rfl, -⟩ | ⟨p, n, bs, -, rfl, hbs⟩
      · cases hb
      · have hmem : b ∈ bs := by
          cases p <;> first | exact hb | cases hb
        obtain ⟨part, -, hpart⟩ := forall₂_of_mem_right hbs hmem
        exact ⟨part, hpart⟩
  missing _ _ _ := trivial
  delegate {id ty c cs s} h hd := by
    refine ⟨h.1, List.forall_mem_cons.2 ⟨?_, h.2⟩⟩
    obtain ⟨part, hpart⟩ := h.2 _ (List.mem_cons_self ..)
    cases part with
    | attached path =>
      obtain ⟨_, hmem, -⟩ := mem_of_attached? hpart
      cases hmem
    | native kind =>
      obtain ⟨n, heq⟩ := hpart
      cases heq
    | resolved t =>
      have hdenotes : Denotes ms [] s.delegates t (.placeholder id ty) := hpart
      rcases hdenotes.shape with ⟨id', d, p, n, bs, heq, hd', hden, -⟩ | ⟨p, n, bs, -, heq, -⟩
      · obtain ⟨rfl, rfl⟩ := Converter.placeholder.inj heq
        obtain rfl := Option.some.inj (hd.symm.trans hd')
        exact ⟨.resolved ty, hden⟩
      · exact absurd heq.symm (p.assemble_ne_placeholder n bs id ty)
  unset _ _ := trivial
  custom _ _ _ _ _ _ := trivial
  resolved {fuel ty c cs s s'} h hr := by
    have hext := (later_of_resolve hr).extended h.1
    refine ⟨h.1.resolve hr, List.forall_mem_cons.2 ⟨⟨.resolved ty, h.1.denotes hr⟩, fun c hc => ?_⟩⟩
    obtain ⟨part, hpart⟩ := h.2 c hc
    exact ⟨part, hpart.mono hext⟩
  failed {fuel ty e cs s s'} h hr := by
    have hext := (later_of_resolve_error hr).extended h.1
    refine ⟨⟨h.1.resolve_error hr, fun c hc => ?_⟩, trivial⟩
    obtain ⟨part, hpart⟩ := h.2 c hc
    exact ⟨part, hpart.mono hext⟩

/-- The declaration is that of the structure which the type is: the first module that handles the type was generated
from a model with the declaration. -/
inductive Declares (ms : List AdapterModule) (ty : TypeRef) (d : Declaration) : Prop
  | intro {before after : List AdapterModule} {m : AdapterModule} {model : Model} {fields : List Field}
    (hms : ms = before ++ m :: after) (hbefore : ∀ m' ∈ before, Source.dispatch? m' ty = none)
    (hhandles : (Source.dispatch? m ty).isSome) (hgen : model.Generates m) (hd : d ∈ model.types)
    (hkind : d.kind = .structure fields) (hpath : ty.path? = some d.path)

private theorem exists_moduleRecipe?_of_handles {model : Model} {m : AdapterModule} (hgen : model.Generates m)
    {ty : TypeRef} (h : (Source.dispatch? m ty).isSome) (slot : Nat) :
    ∃ p, Source.moduleRecipe? slot m ty = some p := by
  obtain ⟨accessor, options, hm⟩ := hgen
  obtain ⟨⟨entry, hit⟩, hdispatch⟩ := Option.isSome_iff_exists.1 h
  obtain ⟨-, hentry, hhit⟩ := dispatch?_eq_some.1 hdispatch
  have hmem : entry ∈ DispatchEntry.table m.adapters :=
    (Model.generateWith_ok hm).1 ▸ List.mem_reverse.1 (List.mem_of_find?_eq_some hentry)
  obtain ⟨a, ha, -⟩ := DispatchEntry.mem_table hmem
  unfold Source.moduleRecipe?
  rw [hdispatch]
  dsimp only
  rw [(DispatchEntry.match?_eq_some hhit).1, ha]
  cases a <;> exact ⟨_, rfl⟩

variable {ty target : TypeRef} {slot : Nat} {a : StructAdapter} {args : List TypeRef}

/-- The adapter of the recipe serves the declaration of the type. -/
private theorem Declares.serves {d : Declaration} (h : Declares ms ty d)
    (hp : recipe? ms ty = some (.struct slot a target args)) : ∃ accessor codecs, a.Serves accessor d codecs := by
  cases h with
  | @intro before after m model _ hms hbefore hhandles hgen hd _ hpath =>
  subst hms
  obtain ⟨p, hp'⟩ := exists_moduleRecipe?_of_handles hgen hhandles _
  obtain rfl := Option.some.inj (hp.symm.trans (recipe?_of_first hbefore hp'))
  obtain ⟨d', hd', -, accessor, codecs, hpath', -, hserves⟩ := declared_of_struct hgen hp'
  obtain rfl : d' = d := List.inj_on_of_nodup_map model.paths_nodup hd' hd (Option.some.inj (hpath'.symm.trans hpath))
  exact ⟨accessor, codecs, hserves⟩

/-- A structure's type is declared. -/
private theorem exists_declares (hms : ∀ m ∈ ms, ∃ model : Model, model.Generates m)
    (hp : recipe? ms ty = some (.struct slot a target args)) : ∃ d, Declares ms ty d := by
  cases hfirst : ms.find? fun m => (Source.dispatch? m ty).isSome with
  | none =>
    -- no module has a recipe, and the standard source has none of a structure
    rcases recipe?_eq_some hp with ⟨slot', m, hm, hrecipe⟩ | hstandard
    · have hnone : ¬(Source.dispatch? m ty).isSome := by simpa using List.find?_eq_none.1 hfirst m hm
      rw [Option.not_isSome_iff_eq_none] at hnone
      rw [Source.moduleRecipe?, hnone] at hrecipe
      cases hrecipe
    · exact absurd hstandard standardRecipe?_ne_struct
  | some m =>
    obtain ⟨hhandles, before, after, rfl, hbefore⟩ := List.find?_eq_some_iff_append.1 hfirst
    have hnone (m' : AdapterModule) (hm' : m' ∈ before) : Source.dispatch? m' ty = none := by
      simpa using hbefore m' hm'
    obtain ⟨model, hgen⟩ := hms m (by simp)
    obtain ⟨p, hp'⟩ := exists_moduleRecipe?_of_handles hgen hhandles before.length
    obtain rfl := Option.some.inj (hp.symm.trans (recipe?_of_first hnone hp'))
    obtain ⟨d, hd, fields, -, -, hpath, hkind, -⟩ := declared_of_struct hgen hp'
    exact ⟨d, .intro rfl hnone hhandles hgen hd hkind hpath⟩

/-- An object with the fields that must be present by its recipe has those that its declaration marks. -/
private theorem Present.declared {fields : Fields} (h : Present ms ty fields) {d : Declaration}
    (hdeclares : Declares ms ty d) {f : Field} (hf : f ∈ d.fields) (hnonNull : f.isNonNull = true) :
    ∃ v, fields.get? f.name = some v ∧ v ≠ .null := by
  obtain ⟨slot, a, args, hp, hpresent⟩ := h
  obtain ⟨accessor, codecs, ha⟩ := hdeclares.serves hp
  obtain ⟨v, hv⟩ := Option.isSome_iff_exists.1 (hpresent f.name (mem_nonNull ha hf hnonNull))
  exact ⟨v, hv, Fields.ne_null_of_get? hv⟩

/-- A value that a registry of generated modules reads has, in every object inside it, a value other than null for
each field that must not be absent.  If the names in memory of the fields of each structure are distinct, it is never
refused for want of such a field when the converter that has read it writes it, however the registry was used in
between. -/
theorem read_complete (hms : ∀ m ∈ ms, ∃ model : Model, model.Generates m) {s : Store} {cs : List Converter}
    (hrun : Run (ofModules ms []) s cs) {c : Converter} (hc : c ∈ cs) {fuel : Nat} {text : String} {v : Value}
    (hread : c.fromJson s.delegates fuel text = .ok (some v)) :
    (∀ ty (fields : Fields), (Value.object ty fields).Inside v → (∃ d, Declares ms ty d) ∧
      ∀ d, Declares ms ty d → ∀ f ∈ d.fields, f.isNonNull = true → ∃ w, fields.get? f.name = some w ∧ w ≠ .null) ∧
    (Distinct ms → ∀ s' cs', Run (ofModules ms []) s' cs' → Later s s' → ∀ alive fuel owner field s'',
      c.toJson (ofModules ms []) fuel (some v) { s' with alive } ≠ .error (.nonNull owner field) s'') := by
  obtain ⟨hhealthy, hdenotes⟩ := frame_denotes.of_run ⟨.empty, nofun⟩ hrun
  obtain ⟨part, hpart⟩ := hdenotes c hc
  obtain ⟨hdelegates, hplain⟩ := plain_of_run (List.forall_mem_nil _) hrun
  -- what was read is read from the document that the text spells
  obtain ⟨r, r', hrun', hend⟩ := Converter.fromJson_ok hread
  obtain ⟨j, -, hspells⟩ :=
    Reader.spells_of_skipValue (Converter.framed_read hdelegates fuel c (hplain c hc) _ _ _ hrun') hend
  obtain ⟨-, hdocument⟩ := (Converter.fromJson_eq_ok hdelegates (hplain c hc) hspells).1 hread
  have hrestored : Restored ms (Distinct ms) part v := reads hms id s.delegates fuel part c hpart j v hdocument
  refine ⟨fun ty fields hin => ?_, fun hdistinct s' cs' hrun' hlater alive fuel owner field s'' heq => ?_⟩
  · have hpresent := hrestored.complete.present ty fields hin
    obtain ⟨slot, a, args, hp, -⟩ := id hpresent
    exact ⟨exists_declares hms hp, fun d hd f hf => hpresent.declared hd hf⟩
  · obtain ⟨⟨⟨P, hsettled⟩, hclosed⟩, -⟩ := frame_denotes.of_run ⟨.empty, nofun⟩ hrun'
    have hstart : Continues ms s.delegates { s' with alive } :=
      ⟨⟨⟨P, hsettled.bound, hsettled.cached, hsettled.fresh⟩, hclosed⟩, hlater.extended hhealthy⟩
    have hwrite := hrestored.writes hdistinct fuel s.delegates c hpart ⟨.empty, { s' with alive }⟩ hstart
    unfold Converter.toJson at heq
    split at heq
    · split at heq
      · cases heq
      · next hfinish =>
        cases heq
        unfold Writer.finish at hfinish
        split at hfinish
        · cases hfinish
        · split at hfinish <;> cases hfinish
    · next hout =>
      cases heq
      rw [hout] at hwrite
      cases hwrite.2

open Converter (item itemAdapter itemJson itemModel itemModule)

/-- An item holds the next one, each of them with its label, and both can be written once the registry is gone. -/
theorem read_complete_item :
    let c := Converter.struct 1 itemAdapter item.selfType [.placeholder 0 item.selfType] true
    let v := Value.object item.selfType
      [("count", .int 7), ("next", .object item.selfType [("label", .str "b")]), ("label", .str "a")]
    ∃ s, (ofModules [itemModule] []).resolve 2 item.selfType .empty = .ok c s ∧
      c.fromJson s.delegates 3 (String.ofList itemJson.text) = .ok (some v) ∧
      (∀ ty (fields : Fields), (Value.object ty fields).Inside v → (∃ d, Declares [itemModule] ty d) ∧ ∀ d,
        Declares [itemModule] ty d → ∀ f ∈ d.fields, f.isNonNull = true → ∃ w, fields.get? f.name = some w ∧
          w ≠ .null) ∧
      ∀ fuel owner field s'', c.toJson (ofModules [itemModule] []) fuel (some v) { s with alive := false } ≠
        .error (.nonNull owner field) s'' := by
  intro c v
  obtain ⟨s, hresolve, hdelegates⟩ : ∃ s, (ofModules [itemModule] []).resolve 2 item.selfType .empty = .ok c s ∧
      s.delegates = [(0, c)] := ⟨_, rfl, rfl⟩
  have hrun : Run (ofModules [itemModule] []) s [c] := .resolved .start hresolve
  obtain ⟨hd, hc⟩ := plain_of_run (List.forall_mem_nil _) hrun
  have hread : c.fromJson s.delegates 3 (String.ofList itemJson.text) = .ok (some v) :=
    (Converter.fromJson_eq_ok hd (hc c (List.mem_singleton_self c)) itemJson.spellsDocument_text).2
      ⟨by decide, by rw [hdelegates]; rfl⟩
  have hgenerate : itemModel.generate .standard = .ok itemModule := by rfl
  have hms : ∀ m ∈ [itemModule], ∃ model : Model, model.Generates m :=
    List.forall_mem_singleton.2 ⟨itemModel, .of_generate hgenerate⟩
  have hdistinct : Distinct [itemModule] := List.forall_mem_singleton.2 ⟨itemModel, .of_generate hgenerate, by decide⟩
  have hlater : Later s s := ⟨rfl, Nat.le_refl _, fun _ _ => rfl⟩
  obtain ⟨hcomplete, hwrites⟩ := read_complete hms hrun (List.mem_singleton_self c) hread
  exact ⟨s, hresolve, hread, hcomplete, hwrites hdistinct s [c] hrun hlater false⟩

/-! ### Fields that share a name -/

/-- A structure with two fields of one name, which are serialized under different names; the first one is a structure
with a number that must not be absent, and the second one an empty structure. -/
def sharedModel : Model where
  types := [.plain "demo::S" (.structure [⟨"x", some "a", .named "demo::A" [], .none, none⟩,
      ⟨"x", some "b", .named "demo::B" [], .none, none⟩]),
    .plain "demo::A" (.structure [⟨"p", none, .named "i32" [], .nonNull, none⟩]),
    .plain "demo::B" (.structure [])]
  subtypeAdapters := []
  paths_nodup := by decide

def sharedModule : AdapterModule := (sharedModel.generate .standard).toOption.getD default

/-- What was read into one of two fields that share a name is written with the codec of the other one as well, which
may miss a field in it. -/
theorem not_forall_read_complete :
    ¬∀ (ms : List AdapterModule) (s : Store) (cs : List Converter) (c : Converter) (fuel : Nat)
    (text : String) (v : Value), (∀ m ∈ ms, ∃ model : Model, model.Generates m) → Run
    (ofModules ms []) s cs → c ∈ cs →
      c.fromJson s.delegates fuel text = .ok (some v) → ∀ fuel owner field s',
        c.toJson (ofModules ms []) fuel (some v) s ≠ .error (.nonNull owner field) s' := by
  intro hall
  have hgenerate : sharedModel.generate .standard = .ok sharedModule := by rfl
  have hms : ∀ m ∈ [sharedModule], ∃ model : Model, model.Generates m :=
    List.forall_mem_singleton.2 ⟨sharedModel, .of_generate hgenerate⟩
  have hfails : succeeds (fun c s => fails (fun e _ => e.isOmission) (c.toJson (ofModules [sharedModule] []) 5
      (some (.object (.named "demo::S" []) [("x", .object (.named "demo::B" []) [])])) s))
      ((ofModules [sharedModule] []).resolve 5 (.named "demo::S" []) .empty) = true := by decide +kernel
  obtain ⟨c, s, hresolve, hdocument⟩ :
      ∃ c s, (ofModules [sharedModule] []).resolve 5 (.named "demo::S" []) .empty = .ok c s ∧
      c.ofDocument? s.delegates 5 (.object [("b", .object [])]) =
        some (some (.object (.named "demo::S" []) [("x", .object (.named "demo::B" []) [])])) := ⟨_, _, rfl, rfl⟩
  rw [hresolve] at hfails
  obtain ⟨e, s', hwrite, homission⟩ := fails_iff.1 hfails
  have hrun : Run (ofModules [sharedModule] []) s [c] := .resolved .start hresolve
  obtain ⟨hd, hc⟩ := plain_of_run (List.forall_mem_nil _) hrun
  have hread := (Converter.fromJson_eq_ok hd (hc c (List.mem_singleton_self c))
    (Json.object [("b", .object [])]).spellsDocument_text).2 ⟨by decide, hdocument⟩
  cases e with
  | nonNull owner field =>
    exact hall _ s [c] c 5 _ _ hms hrun (List.mem_singleton_self c) hread 5 owner field s' hwrite
  | _ => cases homission

end Registry

end Marshal
