import Marshal.Proofs.Registry.Counterparts
import Marshal.Proofs.Registry.RoundTrip
import Marshal.Proofs.TypeRef.Substitution
import Marshal.Proofs.Value.Typing

/-!
# Planned codecs and resolved converters

A field is encoded by a codec that was planned before the arguments of its structure were known: the containers of its
type are unwrapped, and what they hold at last goes to the bindings.  For the same type with the arguments in place, a
registry builds a converter container by container.  The two read the same and write the same (`planned_agrees`),
unless the arguments turn a map that is planned as pairs into one with texts for keys.
-/

namespace Marshal

open Effect

/-! ### Absent values -/

private theorem NativeKind.write_present (kind : NativeKind) (v : Option Value) :
    kind.write (Value.present? v) = kind.write v := by
  rw [write, write, Value.present?_present?]

/-! ### Types that the standard source handles -/

/-- The module handles neither a native type nor a container nor the dynamic type. -/
def AdapterModule.LeavesKnown (m : AdapterModule) : Prop :=
  ∀ entry ∈ m.dispatch,
    NativeKind.ofPath? entry.path = none ∧ Instantiator.ofPath? entry.path = none ∧ entry.path ≠ TypeRef.anyPath

private theorem AdapterModule.LeavesKnown.dispatch?_eq_none {m : AdapterModule} (h : m.LeavesKnown) {ty : TypeRef}
    (hty : ty.isAny = true ∨ ty.shape ≠ .other) : Source.dispatch? m ty = none := by
  unfold Source.dispatch?
  cases ty with
  | array element => rfl
  | var name => rfl
  | named path inner =>
    cases hf : m.dispatch.reverse.find? (·.path == path) with
    | none => simp [TypeRef.path?, hf]
    | some entry =>
      exfalso
      have hpath : entry.path = path := by simpa using List.find?_some hf
      obtain ⟨hnative, hcontainer, hany⟩ := h entry (List.mem_reverse.1 (List.mem_of_find?_eq_some hf))
      rw [hpath] at hnative hcontainer hany
      rcases hty with hty | hty
      · exact hany (by simpa [TypeRef.isAny, TypeRef.path?] using hty)
      · refine hty ?_
        have hn : (TypeRef.named path inner).native? = none := by
          cases inner with
          | nil => exact hnative
          | cons t ts => rfl
        simp only [TypeRef.shape, hn, hcontainer]

namespace Registry

variable {ms : List AdapterModule} {att : List (String × Converter)} {ds : Delegates}

private theorem recipe?_of_known (hms : ∀ m ∈ ms, m.LeavesKnown) {ty : TypeRef}
    (hty : ty.isAny = true ∨ ty.shape ≠ .other) : recipe? ms ty = Source.standardRecipe? ty := by
  unfold recipe?
  rw [List.findSome?_eq_none_iff.2, Option.none_or]
  rintro ⟨m, slot⟩ hm
  rw [Source.moduleRecipe?, (hms m (List.fst_mem_of_mem_zipIdx hm)).dispatch?_eq_none hty]

/-! The recipe of a known type goes by its shape, which stays when the arguments are put in place. -/

section Shapes

variable (hms : ∀ m ∈ ms, m.LeavesKnown) {params : List String} {args : List TypeRef} {t key value : TypeRef}
  {i : Instantiator}

include hms

private theorem recipe?_of_shape_eq {ty : TypeRef} {shape : Shape} (hty : ty.shape = shape)
    (hshape : shape ≠ .other) : recipe? ms ty = Source.standardRecipe? ty ∧ ty.isAny = false :=
  ⟨recipe?_of_known hms (.inr (hty ▸ hshape)),
    Bool.eq_false_iff.2 fun hany => hshape (hty ▸ TypeRef.shape_of_isAny hany)⟩

theorem recipe?_native {ty : TypeRef} {kind : NativeKind} (hty : ty.native? = some kind) :
    recipe? ms ty = some (.native kind) := by
  have hshape := TypeRef.shape_of_native? hty
  obtain ⟨heq, hany⟩ := recipe?_of_shape_eq hms hshape nofun
  rw [heq, Source.standardRecipe?, hany, hshape]
  rfl

theorem recipe?_dynamic {ty : TypeRef} (hty : ty.isAny = true) : recipe? ms ty = some .dynamic := by
  rw [recipe?_of_known hms (.inl hty), Source.standardRecipe?, if_pos hty]

private theorem recipe?_substitute_dynamic (ht : t.isAny = true) :
    recipe? ms (t.substitute params args) = some .dynamic :=
  recipe?_dynamic hms (TypeRef.isAny_substitute ht)

private theorem recipe?_substitute_list (ht : t.shape = .list value i) :
    recipe? ms (t.substitute params args) = some (.list (value.substitute params args) i) := by
  have hshape : (t.substitute params args).shape = .list (value.substitute params args) i :=
    TypeRef.shape_substitute_list ht
  obtain ⟨heq, hany⟩ := recipe?_of_shape_eq hms hshape nofun
  rw [heq, Source.standardRecipe?, hany, hshape]
  rfl

private theorem recipe?_substitute_objectMap {kind : NativeKind} (ht : t.shape = .map key value i)
    (hkey : key.native?.filter (·.isKey) = some kind) :
    recipe? ms (t.substitute params args) = some (.objectMap kind (value.substitute params args) i) := by
  have hshape :
      (t.substitute params args).shape = .map (key.substitute params args) (value.substitute params args) i :=
    TypeRef.shape_substitute_map ht
  obtain ⟨heq, hany⟩ := recipe?_of_shape_eq hms hshape nofun
  rw [heq, Source.standardRecipe?, hany, hshape]
  simp [TypeRef.native?_filter_substitute hkey]

private theorem recipe?_substitute_pairMap (hkeys : t.KeepsKeys params args) (ht : t.shape = .map key value i)
    (hkey : key.native?.filter (·.isKey) = none) :
    recipe? ms (t.substitute params args) =
    some (.pairMap (key.substitute params args) (value.substitute params args) i) := by
  have hshape :
      (t.substitute params args).shape = .map (key.substitute params args) (value.substitute params args) i :=
    TypeRef.shape_substitute_map ht
  obtain ⟨heq, hany⟩ := recipe?_of_shape_eq hms hshape nofun
  rw [heq, Source.standardRecipe?, hany, hshape]
  simp [hkeys.native?_substitute_key ht hkey]

end Shapes

/-- The first module that handles a type has the recipe for it. -/
theorem recipe?_of_first {before after : List AdapterModule} {m : AdapterModule} {ty : TypeRef} {p : Recipe}
    (hbefore : ∀ m' ∈ before, Source.dispatch? m' ty = none) (h : Source.moduleRecipe? before.length m ty = some p) :
    recipe? (before ++ m :: after) ty = some p := by
  unfold recipe?
  rw [List.zipIdx_append, List.findSome?_append, List.findSome?_eq_none_iff.2, Option.none_or, List.zipIdx_cons,
    List.findSome?_cons]
  · simp [h]
  · rintro ⟨m', slot⟩ hm'
    rw [Source.moduleRecipe?, hbefore m' (List.fst_mem_of_mem_zipIdx hm')]

/-! ### Converters of one type -/

variable {ty : TypeRef} {c c' : Converter}

private theorem Denotes.interchangeable_read (hatt : ∀ p ∈ att, p.2.Detached) (h : Denotes ms att ds ty c)
    (h' : Denotes ms att ds ty c') : Interchangeable Eq (fun n => c.read ds n) fun n => c'.read ds n :=
  ⟨fun n => Counterparts.follows_read hatt n c c' (.typed h h'), fun n => Counterparts.follows_read hatt n c' c
    (.typed h' h)⟩

private theorem Denotes.interchangeable_write (hatt : ∀ p ∈ att, p.2.Detached) (h : Denotes ms att ds ty c)
    (h' : Denotes ms att ds ty c') (v : Option Value) :
    Interchangeable (Beside (Both ms att ds ds)) (fun n => c.write (ofModules ms att) n v) fun n =>
      c'.write (ofModules ms att) n v :=
  ⟨fun n => Counterparts.follows_write hatt n ds ds c c' (.typed h h') v,
    fun n => Counterparts.follows_write hatt n ds ds c' c (.typed h' h) v⟩

private theorem beside_both_refl (w w' : Writing) (h : Beside (Both ms att ds ds) w w') :
    Beside (Both ms att ds ds) w w :=
  ⟨rfl, h.2.healthy, h.2.healthy, rfl, h.2.extended, h.2.extended⟩

private theorem beside_both_trans (w₁ w₂ w₃ : Writing) (h : Beside (Both ms att ds ds) w₁ w₂)
    (h' : Beside (Both ms att ds ds) w₂ w₃) : Beside (Both ms att ds ds) w₁ w₃ :=
  ⟨h.1.trans h'.1, h.2.healthy, h'.2.healthy', h.2.alive.trans h'.2.alive, h.2.extended, h'.2.extended'⟩

private theorem interchangeable_trans {f g h : Nat → WriteM Unit}
    (hfg : Interchangeable (Beside (Both ms att ds ds)) f g)
    (hgh : Interchangeable (Beside (Both ms att ds ds)) g h) : Interchangeable (Beside (Both ms att ds ds)) f h :=
  hfg.trans beside_both_refl beside_both_trans hgh

/-- A type that has a converter has one that was built by its recipe, which is no placeholder. -/
private theorem Denotes.exists_assembled (h : Denotes ms att ds ty c) :
    ∃ p id cs, recipe? ms ty = some p ∧ List.Forall₂ (DenotesPart ms att ds) p.parts cs ∧
      Denotes ms att ds ty (p.assemble id cs) := by
  rcases h.shape with ⟨-, d, p, id, cs, -, -, hd, hp, rfl, hcs⟩ | ⟨p, id, cs, hp, rfl, hcs⟩
  · exact ⟨p, id, cs, hp, hcs, hd⟩
  · exact ⟨p, id, cs, hp, hcs, h⟩

/-- To be read like the converters of a type it is enough to be read like what its recipe builds. -/
private theorem Denotes.read_of_recipe (hatt : ∀ p ∈ att, p.2.Detached) (hc : Denotes ms att ds ty c) {p : Recipe}
    (hp : recipe? ms ty = some p) {f : Nat → ReadM (Option Value)}
    (h : ∀ id cs, List.Forall₂ (DenotesPart ms att ds) p.parts cs →
      Interchangeable Eq f fun n => (p.assemble id cs).read ds (n + 1)) : Interchangeable Eq f fun n =>
        c.read ds n := by
  obtain ⟨p', id, cs, hp', hcs, hden⟩ := hc.exists_assembled
  obtain rfl := Option.some.inj (hp.symm.trans hp')
  have hstep : Interchangeable Eq f fun n => (p.assemble id cs).read ds n := .of_succ rfl (h id cs hcs)
  exact hstep.trans_eq (hden.interchangeable_read hatt hc)

/-- To be written like the converters of a type it is enough to be written like what its recipe builds. -/
private theorem Denotes.write_of_recipe (hatt : ∀ p ∈ att, p.2.Detached) (hc : Denotes ms att ds ty c) {p : Recipe}
    (hp : recipe? ms ty = some p) {f : Nat → WriteM Unit} {v : Option Value}
    (h : ∀ id cs, List.Forall₂ (DenotesPart ms att ds) p.parts cs → Denotes ms att ds ty (p.assemble id cs) →
      Interchangeable (Beside (Both ms att ds ds)) f fun n => (p.assemble id cs).write (ofModules ms att) (n + 1) v) :
    Interchangeable (Beside (Both ms att ds ds)) f fun n => c.write (ofModules ms att) n v := by
  obtain ⟨p', id, cs, hp', hcs, hden⟩ := hc.exists_assembled
  obtain rfl := Option.some.inj (hp.symm.trans hp')
  have hstep : Interchangeable (Beside (Both ms att ds ds)) f fun n => (p.assemble id cs).write
      (ofModules ms att) n v :=
    .of_succ rfl (h id cs hcs hden)
  exact interchangeable_trans hstep (hden.interchangeable_write hatt hc v)

/-! ### Bindings -/

/-- Converters that the bindings of an adapter have become for the arguments. -/
structure Completed (ms : List AdapterModule) (att : List (String × Converter)) (ds : Delegates)
    (params : List String) (args : List TypeRef) (bs : List Binding) (cs : List Converter) : Prop where
  fits : ∀ b ∈ bs, b.Fits params
  parts : List.Forall₂ (fun b c => DenotesPart ms att ds (b.part args) c) bs cs

/-- A recipe without parts makes converters of its type wherever it is used. -/
theorem denotes_of_parts_eq_nil {p : Recipe} (hp : recipe? ms ty = some p) (hparts : p.parts = []) (id : Nat) :
    Denotes ms att ds ty (p.assemble id []) :=
  ⟨fun _ _ => False, nofun, .of_parts id hp (hparts ▸ .nil)⟩

theorem denotes_native (hms : ∀ m ∈ ms, m.LeavesKnown) {kind : NativeKind} (hty : ty.native? = some kind) (id : Nat) :
    Denotes ms att ds ty (.native id kind) := denotes_of_parts_eq_nil (recipe?_native hms hty) rfl id

/-- A binding has become a converter of the bound type with the arguments in place. -/
private theorem Completed.denotes (hms : ∀ m ∈ ms, m.LeavesKnown) {params : List String} {args : List TypeRef}
    {bs : List Binding} {cs : List Converter} (h : Completed ms att ds params args bs cs) {i : Nat} {b : Binding}
    (hb : bs[i]? = some b) (hattached : b.source.isAttached = false) :
    ∃ c, cs[i]? = some c ∧ Denotes ms att ds (b.ty.substitute params args) c := by
  obtain ⟨hi, rfl⟩ := List.getElem?_eq_some_iff.1 hb
  have hi' : i < cs.length := h.parts.length_eq ▸ hi
  have hfits := h.fits _ (List.getElem_mem hi)
  have hpart : DenotesPart ms att ds (bs[i].part args) cs[i] := h.parts.get hi hi'
  refine ⟨cs[i], List.getElem?_eq_getElem hi', ?_⟩
  rcases hfits.part_eq hattached args with heq | ⟨kind, hkind, heq⟩
  · rw [heq] at hpart
    exact hpart
  · rw [heq] at hpart
    obtain ⟨n, hn⟩ := hpart
    rw [hn]
    exact denotes_native hms (TypeRef.native?_substitute hkind) n

/-! ### Reading -/

/-- Reading with a codec over converters for its bindings. -/
def readOver (ds : Delegates) (cs : List Converter) (k : Codec) (n : Nat) : ReadM (Option Value) :=
  k.readWith (Converter.callBinding (Converter.read ds n) cs)

section Reading

variable {cs cs' : List Converter} {k k' key key' : Codec} {kind : NativeKind} {i i' : Instantiator}

private theorem readOver_sequence (h : Interchangeable Eq (readOver ds cs k) (readOver ds cs' k')) :
    Interchangeable Eq (readOver ds cs (.sequence k i)) (readOver ds cs' (.sequence k' i')) :=
  ⟨fun n => Codec.follows_sequence (h.1 n), fun n => Codec.follows_sequence (h.2 n)⟩

private theorem readOver_objectMap (h : Interchangeable Eq (readOver ds cs k) (readOver ds cs' k')) :
    Interchangeable Eq (readOver ds cs (.objectMap kind k i)) (readOver ds cs' (.objectMap kind k' i')) :=
  ⟨fun n => Codec.follows_objectMap (h.1 n), fun n => Codec.follows_objectMap (h.2 n)⟩

private theorem readOver_pairMap (hkey : Interchangeable Eq (readOver ds cs key) (readOver ds cs' key'))
    (h : Interchangeable Eq (readOver ds cs k) (readOver ds cs' k')) :
    Interchangeable Eq (readOver ds cs (.pairMap key k i)) (readOver ds cs' (.pairMap key' k' i')) :=
  ⟨fun n => Codec.follows_pairMap (hkey.1 n) (h.1 n), fun n => Codec.follows_pairMap (hkey.2 n) (h.2 n)⟩

end Reading

/-! ### Writing -/

/-- Writing with a codec over converters for its bindings, with the registry at hand if `linked` holds. -/
def writeOver (reg : Registry) (linked : Bool) (cs : List Converter) (k : Codec) (v : Option Value) (n : Nat) :
    WriteM Unit :=
  k.writeWith (Converter.writeBinding (Converter.write reg n) cs)
    (if linked then some (Converter.writeResolved reg n (Converter.write reg n)) else none) v

section Writing

variable {S : Store → Store → Prop} {reg : Registry} {linked linked' : Bool} {cs cs' : List Converter}
  {k k' key key' : Codec} {kind : NativeKind} {i i' : Instantiator}

private theorem writeOver_sequence
    (h : ∀ v, Interchangeable (Beside S) (writeOver reg linked cs k v) (writeOver reg linked' cs' k' v))
    (v : Option Value) :
    Interchangeable (Beside S) (writeOver reg linked cs (.sequence k i) v)
      (writeOver reg linked' cs' (.sequence k' i') v) :=
  ⟨fun n => Codec.follows_writeSequence (fun v => (h v).1 n) v, fun n =>
    Codec.follows_writeSequence (fun v => (h v).2 n) v⟩

private theorem writeOver_objectMap
    (h : ∀ v, Interchangeable (Beside S) (writeOver reg linked cs k v) (writeOver reg linked' cs' k' v))
    (v : Option Value) : Interchangeable (Beside S) (writeOver reg linked cs (.objectMap kind k i) v)
      (writeOver reg linked' cs' (.objectMap kind k' i') v) :=
  ⟨fun n => Codec.follows_writeObjectMap (fun v => (h v).1 n) v, fun n =>
    Codec.follows_writeObjectMap (fun v => (h v).2 n) v⟩

private theorem writeOver_pairMap
    (hkey : ∀ v, Interchangeable (Beside S) (writeOver reg linked cs key v) (writeOver reg linked' cs' key' v))
    (h : ∀ v, Interchangeable (Beside S) (writeOver reg linked cs k v) (writeOver reg linked' cs' k' v))
    (v : Option Value) : Interchangeable (Beside S) (writeOver reg linked cs (.pairMap key k i) v)
      (writeOver reg linked' cs' (.pairMap key' k' i') v) :=
  ⟨fun n => Codec.follows_writePairMap (fun v => (hkey v).1 n) (fun v => (h v).1 n) v,
    fun n => Codec.follows_writePairMap (fun v => (hkey v).2 n) (fun v => (h v).2 n) v⟩

/-- Null is written as an absent value. -/
private theorem writeOver_present (v : Option Value) :
    writeOver reg linked cs k (Value.present? v) = writeOver reg linked cs k v :=
  funext fun _ => k.writeWith_present v

end Writing

private theorem Recipe.write_present (reg : Registry) (n : Nat) (p : Recipe) (id : Nat) (cs : List Converter)
    (v : Option Value) :
    (p.assemble id cs).write reg (n + 1) (Value.present? v) = (p.assemble id cs).write reg (n + 1) v := by
  cases p with
  | struct slot a target args =>
    simp only [Recipe.assemble, Converter.write, StructAdapter.writeInstance, Value.present?_present?]
  | enum slot index a => simp only [Recipe.assemble, Converter.write, EnumAdapter.write, Value.present?_present?]
  | dynamic => simp only [Recipe.assemble, Converter.write, Value.present?_present?]
  | native kind => exact kind.write_present v
  | list | objectMap | pairMap => exact Codec.writeWith_present _ v

/-- Converters of one type write null as an absent value. -/
private theorem Denotes.write_present (hatt : ∀ p ∈ att, p.2.Detached) (h : Denotes ms att ds ty c)
    (h' : Denotes ms att ds ty c') (v : Option Value) :
    Interchangeable (Beside (Both ms att ds ds)) (fun n => c.write (ofModules ms att) n (Value.present? v)) fun n =>
      c'.write (ofModules ms att) n v := by
  obtain ⟨p, id, cs, -, -, hden⟩ := h.exists_assembled
  have hpresent : (fun n => (p.assemble id cs).write (ofModules ms att) n (Value.present? v)) = fun n =>
      (p.assemble id cs).write (ofModules ms att) n v := by
    funext n
    cases n with
    | zero => rfl
    | succ n => exact Recipe.write_present _ n p id cs v
  have hleft := h.interchangeable_write hatt hden (Value.present? v)
  rw [hpresent] at hleft
  exact interchangeable_trans hleft (hden.interchangeable_write hatt h' v)

/-! ### Planned codecs -/

section Planned

variable (hms : ∀ m ∈ ms, m.LeavesKnown) (hatt : ∀ p ∈ att, p.2.Detached) {params : List String} {args : List TypeRef}
  {bs : List Binding} {cs : List Converter} {t : TypeRef} {k : Codec}

include hms hatt

/-- A planned codec reads what a converter of the type reads, the arguments in place. -/
private theorem Completed.interchangeable_read (h : Completed ms att ds params args bs cs)
    (hcodes : Codes bs false t k) (hkeys : t.KeepsKeys params args)
    (hc : Denotes ms att ds (t.substitute params args) c) :
    Interchangeable Eq (readOver ds cs k) fun n => c.read ds n := by
  -- by how the type was planned: a codec for a container is compared with the one that the recipe of the container
  -- has over converters of its parts
  induction hcodes generalizing c with
  | @native t kind hn =>
    refine hc.read_of_recipe hatt (recipe?_native hms (TypeRef.native?_substitute hn)) fun id parts _ => ?_
    exact ⟨fun _ => ReadFollows.refl _, fun _ => ReadFollows.refl _⟩
  | @binding t i b hb hty hs =>
    subst hty
    obtain ⟨c', hc', hden⟩ := h.denotes hms hb hs
    have hread : readOver ds cs (.binding i) = fun n => c'.read ds n := by
      funext n
      simp only [readOver, Codec.readWith, Converter.callBinding, hc']
    rw [hread]
    exact hden.interchangeable_read hatt hc
  | @dynamic t hd =>
    refine hc.read_of_recipe hatt (recipe?_substitute_dynamic hms (hd.resolve_right Bool.false_ne_true))
      fun id parts _ => ?_
    exact ⟨fun _ => ReadFollows.refl _, fun _ => ReadFollows.refl _⟩
  | @list t element i k hshape _ ih =>
    refine hc.read_of_recipe hatt (recipe?_substitute_list hms hshape) fun id parts hparts => ?_
    obtain ⟨c', _, hc', -, rfl⟩ := List.forall₂_cons_left_iff.1 hparts
    exact readOver_sequence (ih (hkeys.element hshape) hc')
  | @objectMap t key value i kind k hshape hk _ ih =>
    refine hc.read_of_recipe hatt (recipe?_substitute_objectMap hms hshape hk) fun id parts hparts => ?_
    obtain ⟨c', _, hc', -, rfl⟩ := List.forall₂_cons_left_iff.1 hparts
    exact readOver_objectMap (ih (hkeys.value hshape) hc')
  | @pairMap t key value i k k' hshape hk _ _ ihk ihv =>
    refine hc.read_of_recipe hatt (recipe?_substitute_pairMap hms hkeys hshape hk) fun id parts hparts => ?_
    obtain ⟨c', _, hc', hrest, rfl⟩ := List.forall₂_cons_left_iff.1 hparts
    obtain ⟨d', _, hd', -, rfl⟩ := List.forall₂_cons_left_iff.1 hrest
    exact readOver_pairMap (ihk (hkeys.key hshape) hd') (ihv (hkeys.value hshape) hc')

/-- A planned codec writes what a converter of the type writes, the arguments in place. -/
private theorem Completed.interchangeable_write (h : Completed ms att ds params args bs cs)
    (hcodes : Codes bs false t k) (hkeys : t.KeepsKeys params args) {linked : Bool}
    (hlinked : k.any Codec.isDynamic = true → linked = true) (hc : Denotes ms att ds (t.substitute params args) c)
    (v : Option Value) :
    Interchangeable (Beside (Both ms att ds ds)) (writeOver (ofModules ms att) linked cs k v) fun n =>
      c.write (ofModules ms att) n v := by
  induction hcodes generalizing c v with
  | @native t kind hn =>
    refine hc.write_of_recipe hatt (recipe?_native hms (TypeRef.native?_substitute hn)) fun id parts _ _ => ?_
    have hwrite : writeOver (ofModules ms att) linked cs (.native kind) v = fun _ => kind.write v :=
      funext fun _ => kind.write_present v
    rw [hwrite]
    exact ⟨fun _ => follows_native kind v, fun _ => follows_native kind v⟩
  | @binding t i b hb hty hs =>
    subst hty
    obtain ⟨c', hc', hden⟩ := h.denotes hms hb hs
    have hwrite : writeOver (ofModules ms att) linked cs (.binding i) v = fun n =>
        c'.write (ofModules ms att) n (Value.present? v) := by
      funext n
      simp only [writeOver, Codec.writeWith, Converter.writeBinding, hc']
    rw [hwrite]
    exact hden.write_present hatt hc v
  | @dynamic t hd =>
    obtain rfl := hlinked rfl
    refine hc.write_of_recipe hatt (recipe?_substitute_dynamic hms (hd.resolve_right Bool.false_ne_true))
      fun id parts _ hden => ?_
    exact (hden.interchangeable_write hatt hden v).succ
  | @list t element i k hshape _ ih =>
    refine hc.write_of_recipe hatt (recipe?_substitute_list hms hshape) fun id parts hparts _ => ?_
    obtain ⟨c', _, hc', hnil, rfl⟩ := List.forall₂_cons_left_iff.1 hparts
    obtain rfl := List.forall₂_nil_left_iff.1 hnil
    -- the codec of a recipe has nothing dynamic in it and is not given the registry
    show Interchangeable _ _ (writeOver (ofModules ms att) false [c'] (.sequence (.binding 0) i) v)
    refine writeOver_sequence (fun v => ?_) v
    -- a binding is handed null as an absent value
    rw [← writeOver_present]
    exact ih (hkeys.element hshape) (fun h => hlinked (by simp [Codec.any, h])) hc' (Value.present? v)
  | @objectMap t key value i kind k hshape hk _ ih =>
    refine hc.write_of_recipe hatt (recipe?_substitute_objectMap hms hshape hk) fun id parts hparts _ => ?_
    obtain ⟨c', _, hc', hnil, rfl⟩ := List.forall₂_cons_left_iff.1 hparts
    obtain rfl := List.forall₂_nil_left_iff.1 hnil
    show Interchangeable _ _ (writeOver (ofModules ms att) false [c'] (.objectMap kind (.binding 0) i) v)
    refine writeOver_objectMap (fun v => ?_) v
    rw [← writeOver_present]
    exact ih (hkeys.value hshape) (fun h => hlinked (by simp [Codec.any, h])) hc' (Value.present? v)
  | @pairMap t key value i k k' hshape hk _ _ ihk ihv =>
    refine hc.write_of_recipe hatt (recipe?_substitute_pairMap hms hkeys hshape hk) fun id parts hparts _ => ?_
    obtain ⟨c', _, hc', hrest, rfl⟩ := List.forall₂_cons_left_iff.1 hparts
    obtain ⟨d', _, hd', hnil, rfl⟩ := List.forall₂_cons_left_iff.1 hrest
    obtain rfl := List.forall₂_nil_left_iff.1 hnil
    show Interchangeable _ _ (writeOver (ofModules ms att) false [c', d'] (.pairMap (.binding 1) (.binding 0) i) v)
    refine writeOver_pairMap (fun v => ?_) (fun v => ?_) v
    · rw [← writeOver_present]
      exact ihk (hkeys.key hshape) (fun h => hlinked (by simp [Codec.any, h])) hd' (Value.present? v)
    · rw [← writeOver_present]
      exact ihv (hkeys.value hshape) (fun h => hlinked (by simp [Codec.any, h])) hc' (Value.present? v)

end Planned

/-! ### Fields -/

private theorem Denotes.mono {ds' : Delegates} (hext : ds.Extended ds') (h : Denotes ms att ds ty c) :
    Denotes ms att ds' ty c := by
  obtain ⟨P, hP, hstands⟩ := h
  refine ⟨P, fun id t hid => ?_, hstands⟩
  obtain ⟨d, hd, hbuilt⟩ := hP id t hid
  exact ⟨d, hext id d hd, hbuilt⟩

theorem DenotesPart.mono {ds' : Delegates} (hext : ds.Extended ds') {part : Part} (h : DenotesPart ms att ds part c) :
    DenotesPart ms att ds' part c := by
  cases part with
  | resolved t => exact Denotes.mono hext h
  | native kind => exact h
  | attached path => exact h

/-- What a resolution from outside answers with is no placeholder. -/
theorem Healthy.assembled {s s' : Store} (hs : Healthy ms att s) {fuel : Nat}
    (h : (ofModules ms att).resolve fuel ty s = .ok c s') :
    ∃ p id cs, recipe? ms ty = some p ∧ c = p.assemble id cs ∧
      List.Forall₂ (DenotesPart ms att s'.delegates) p.parts cs := by
  obtain ⟨P, hsettled⟩ := (hs.resolve h).settled
  have hcached : s'.cached? ty = some c := by
    obtain ⟨d, hd⟩ := Option.isSome_iff_exists.1 (cacheClosed_of_resolve hs.closed h).2
    rcases resolve_ok h with ⟨hc, rfl⟩ | ⟨c₁, r, -, -, rfl, rfl⟩
    · exact hc
    · rw [hd, Option.getD_some]
  exact Denotes.parts hsettled.bound (hsettled.cached ty c hcached)

/-- The first module that handles a structure has built its converter, with the codecs that were planned for the
fields. -/
theorem struct_of_recipe? {model : Model} {m : AdapterModule} (hgen : model.Generates m)
    {before after : List AdapterModule} {d : Declaration} (hd : d ∈ model.types) {fields : List Field}
    (hkind : d.kind = .structure fields) {args : List TypeRef} (hargs : args = [] ∨ args.length = d.params.length)
    (hbefore : ∀ m' ∈ before, Source.dispatch? m' (.named d.path args) = none) {p : Recipe}
    (hp : recipe? (before ++ m :: after) (.named d.path args) = some p) :
    ∃ accessor codecs a args', StructAdapter.Serves accessor d codecs a ∧
      p = .struct before.length a (.named d.path args') args' ∧
      (args' = args ∨ args = [] ∧ args' = List.replicate d.params.length .any) := by
  obtain ⟨p', hp'⟩ : ∃ p', Source.moduleRecipe? before.length m (.named d.path args) = some p' :=
    hgen.exists_moduleRecipe? hd (by rw [Declaration.isAbstract, hkind]) hargs
  obtain rfl := Option.some.inj (hp.symm.trans (recipe?_of_first hbefore hp'))
  obtain ⟨accessor, a, args', hserves, happlies, hbuilds⟩ := hgen.adapter_of_moduleRecipe? hd hp'
  cases hserves with
  | enum hk _ =>
    rw [hkind] at hk
    cases hk
  | @struct _ codecs x hk hx =>
    rcases hbuilds with ⟨y, hy, rfl⟩ | ⟨y, i, hy, -⟩
    · cases hy
      exact ⟨accessor, codecs, x, args', hx, rfl, happlies⟩
    · cases hy

/-- The adapter writes and reads the field with the codec. -/
structure Uses (a : StructAdapter) (f : Field) (k : Codec) : Prop where
  write : ∃ access, .field ⟨f.name, f.serializedName, access, k, f.isNonNull⟩ ∈ a.write
  read : ∃ access, a.read.field? f.serializedName = some ⟨f.name, f.serializedName, access, k.acceptedTokens, k⟩

private theorem uses_of_serves {accessor : Accessor} {d : Declaration} {codecs : List Codec} {a : StructAdapter}
    (ha : a.Serves accessor d codecs) {f : Field} {k : Codec} (hfk : (f, k) ∈ d.fields.zip codecs) : Uses a f k := by
  refine ⟨⟨accessor f, ?_⟩, ⟨accessor f, ?_⟩⟩
  · rw [ha.write, Declaration.writeProcedure]
    exact List.mem_append_left _ (List.mem_append_right _ (List.mem_map_of_mem hfk))
  · rw [ha.read]
    exact Declaration.field?_readProcedure accessor ha.serializedNames_nodup hfk

/-- Whatever was resolved before: the codec that a field was planned with, over the bindings of the structure's
converter, reads from every reader and writes for every value what the converter does that the registry has for the
type of the field, the arguments in place. -/
theorem planned_agrees {model : Model} {m : AdapterModule} (hgen : model.Generates m)
    {before after : List AdapterModule} (hms : ∀ m' ∈ before ++ m :: after, m'.LeavesKnown)
    (hatt : ∀ p ∈ att, p.2.Detached) {d : Declaration} (hd : d ∈ model.types) {fields : List Field}
    (hkind : d.kind = .structure fields) {f : Field} (hf : f ∈ fields) (hconverter : f.converter = none)
    (hdeclared : f.writesRuntimeType = false) {args : List TypeRef}
    (hargs : args = [] ∨ args.length = d.params.length)
    (hbefore : ∀ m' ∈ before, Source.dispatch? m' (.named d.path args) = none) (hkeys : f.ty.KeepsKeys d.params args)
    {s₀ s₁ s : Store} {held : List Converter} (hrun : Run (ofModules (before ++ m :: after) att) s₀ held)
    {fuel₁ fuel₂ : Nat} {c c' : Converter}
    (hc : (ofModules (before ++ m :: after) att).resolve fuel₁ (.named d.path args) s₀ = .ok c s₁)
    (hc' : (ofModules (before ++ m :: after) att).resolve fuel₂ (f.ty.substitute d.params args) s₁ = .ok c' s) :
    ∃ id a target cs k, c = .struct id a target cs a.requirements.needsRegistry ∧ a.target = d.selfType ∧ Uses a f k ∧
      (∀ r, SameOutcomes (fun n => outcome (fun r => r) (readOver s.delegates cs k n) r) fun n =>
        outcome (fun r => r) (c'.read s.delegates n) r) ∧
      ∀ v w, SameOutcomes
        (fun n => outcome Writing.writer
          (writeOver (ofModules (before ++ m :: after) att) a.requirements.needsRegistry cs k v n) ⟨w, s⟩) fun n =>
        outcome Writing.writer (c'.write (ofModules (before ++ m :: after) att) n v) ⟨w, s⟩ := by
  obtain ⟨hs₀, -⟩ := frame_healthy.of_run ⟨.empty, rfl⟩ hrun
  have hs₁ := hs₀.resolve hc
  have hs := hs₁.resolve hc'
  obtain ⟨p, number, cs, hp, rfl, hparts⟩ := hs₀.assembled hc
  obtain ⟨accessor, codecs, a, args', ha, rfl, happlies⟩ := struct_of_recipe? hgen hd hkind hargs hbefore hp
  obtain rfl : d.fields = fields := by rw [Declaration.fields, hkind]
  obtain ⟨k, hfk⟩ := ha.exists_codec hf
  have hcodes : Codes a.bindings false f.ty k := (ha.field_codes hfk).codes hconverter hdeclared
  -- missing arguments are the dynamic type in the structure as well as in the type of the field
  have hsubstitute (t : TypeRef) : t.substitute d.params args' = t.substitute d.params args := by
    rcases happlies with rfl | ⟨rfl, rfl⟩
    · rfl
    · exact TypeRef.substitute_replicate _ t
  have hden : Denotes (before ++ m :: after) att s.delegates (f.ty.substitute d.params args') c' := by
    rw [hsubstitute]
    exact hs₁.denotes hc'
  have hkeys' : f.ty.KeepsKeys d.params args' := fun u x value i hu hshape => by
    rw [hsubstitute]
    exact hkeys u x value i hu hshape
  have hcompleted : Completed (before ++ m :: after) att s.delegates d.params args' a.bindings cs :=
    ⟨ha.fits, (List.forall₂_map_left_iff.1 hparts).imp fun _ _ =>
      DenotesPart.mono ((later_of_resolve hc').extended hs₁)⟩
  refine ⟨number, a, _, cs, k, rfl, ha.target, uses_of_serves ha hfk, fun r => ?_, fun v w => ?_⟩
  · exact (hcompleted.interchangeable_read hms hatt hcodes hkeys' hden).sameOutcomes (fun _ _ => id) rfl
  · have hboth : Both (before ++ m :: after) att s.delegates s.delegates s s :=
      ⟨hs, hs, rfl, fun _ _ => id, fun _ _ => id⟩
    exact (hcompleted.interchangeable_write hms hatt hcodes hkeys'
      (ha.needsRegistry (List.of_mem_zip hfk).2) hden v).sameOutcomes (fun _ _ h => h.1) ⟨rfl, hboth⟩

/-- In nodes of colours a field is a map from colours to colours, which is planned as pairs of a key that is a
variable and a colour. -/
theorem planned_agrees_node : ∃ c s₁ c' s,
    (ofModules [nodeModule] []).resolve 5 (.named "demo::Node" [.named "demo::Colour" []]) .empty = .ok c s₁ ∧
      (ofModules [nodeModule] []).resolve 5
        (.named "HashMap" [.named "demo::Colour" [], .named "demo::Colour" []]) s₁ = .ok c' s ∧
      ∃ id a target cs k, c = .struct id a target cs a.requirements.needsRegistry ∧
        Uses a ⟨"seen", none, .named "HashMap" [.var "T", .named "demo::Colour" []], .none, none⟩ k ∧
        (∀ r, SameOutcomes (fun n => outcome (fun r => r) (readOver s.delegates cs k n) r) fun n =>
          outcome (fun r => r) (c'.read s.delegates n) r) ∧
        ∀ v w, SameOutcomes
          (fun n => outcome Writing.writer
            (writeOver (ofModules [nodeModule] []) a.requirements.needsRegistry cs k v n) ⟨w, s⟩) fun n =>
          outcome Writing.writer (c'.write (ofModules [nodeModule] []) n v) ⟨w, s⟩ := by
  have hgenerate : nodeModel.generate .standard = .ok nodeModule := by rfl
  have hresolves : succeeds (fun _ s => succeeds (fun _ _ => true) ((ofModules [nodeModule] []).resolve 5
      (.named "HashMap" [.named "demo::Colour" [], .named "demo::Colour" []]) s))
      ((ofModules [nodeModule] []).resolve 5 (.named "demo::Node" [.named "demo::Colour" []]) .empty) = true := by
    decide +kernel
  obtain ⟨c, s₁, hc, hresolves⟩ := succeeds_iff.1 hresolves
  obtain ⟨c', s, hc', -⟩ := succeeds_iff.1 hresolves
  have hplain : ∀ m ∈ [] ++ nodeModule :: [], m.LeavesKnown := by
    intro m hm
    obtain rfl := List.mem_singleton.1 hm
    unfold AdapterModule.LeavesKnown
    decide +kernel
  have hd : nodeModel.types[0] ∈ nodeModel.types := List.getElem_mem _
  have hf : (⟨"seen", none, .named "HashMap" [.var "T", .named "demo::Colour" []], .none, none⟩ : Field) ∈
      nodeModel.types[0].fields := by decide
  -- a variable is replaced by a colour or stays
  have hkeys (t : TypeRef) : t.KeepsKeys ["T"] [.named "demo::Colour" []] := by
    intro u x value i _ _
    rw [TypeRef.substitute]
    cases hx : TypeRef.paramIndex? ["T"] x with
    | none => rfl
    | some j =>
      cases j <;> rfl
  obtain ⟨id, a, target, cs, k, hstruct, -, huses, hread, hwrite⟩ :=
    planned_agrees (.of_generate hgenerate) hplain (List.forall_mem_nil _) hd rfl hf rfl rfl (.inr rfl)
      (List.forall_mem_nil _) (hkeys _) .start hc hc'
  exact ⟨c, s₁, c', s, hc, hc', id, a, target, cs, k, hstruct, huses, hread, hwrite⟩

end Registry

end Marshal
