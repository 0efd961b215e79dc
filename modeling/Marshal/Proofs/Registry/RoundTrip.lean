import Marshal.Proofs.Adapter.Encoding
import Marshal.Proofs.Adapter.Independence
import Marshal.Proofs.Registry.Bookkeeping
import Marshal.Proofs.Value.Typing
import Marshal.Value.Equality

/-!
# Round trips

What the registry of a generated module writes it reads back (`round_trip`).  The recipe of a type decides how its
values are encoded, so every converter of the type encodes every value that belongs to it.  Converters refer to each
other in cycles, but a value is well-founded: the proof is by induction on the value, for all converters of its type
and for all codecs that were planned for a type that the arguments turn into its type.

Two things are not written: the bytes of a path that is no text, and the order in which fields were set
(`not_forall_round_trip`).
-/

namespace Marshal

open Effect Reader WriteM

namespace Registry

variable {model : Model} {m : AdapterModule} {att : List (String × Converter)} {P : Nat → TypeRef → Prop} {s : Store}

/-! ### Recipes of types -/

section Recipes

variable (hgen : model.Generates m) (hplain : model.Plain)

include hgen hplain

/-- Known types have the standard recipe. -/
private theorem recipe?_of_shape {ty : TypeRef} {p : Recipe} (hshape : ty.shape ≠ .other)
    (h : recipe? [m] ty = some p) : ty.isAny = false ∧ Source.standardRecipe? ty = some p := by
  rcases recipe?_eq_some h with ⟨slot, m', hm', hp⟩ | hp
  · obtain rfl := List.mem_singleton.1 hm'
    obtain ⟨d, hd, -, -, -, hpath, -⟩ := hgen.declared_of_moduleRecipe? hp
    cases ty with
    | named path args =>
      obtain rfl : path = d.path := Option.some.inj hpath
      exact absurd (hplain.shape_eq_other hd args) hshape
    | array element => cases hpath
    | var name => cases hpath
  · refine ⟨?_, hp⟩
    by_contra hany
    exact hshape (TypeRef.shape_of_isAny (by simpa using hany))

/-- Declared types have the recipe of the adapter of their declaration. -/
private theorem recipe?_of_declared {d : Declaration} (hd : d ∈ model.types) {args : List TypeRef}
    (hargs : args.length = d.params.length) {p : Recipe} (h : recipe? [m] (.named d.path args) = some p) :
    ∃ accessor a, Adapter.Serves accessor d a ∧
      ((∃ slot x, a = .struct x ∧ p = .struct slot x (.named d.path args) args) ∨ ∃ slot i x, a = .enum x ∧
        p = .enum slot i x) := by
  rcases recipe?_eq_some h with ⟨slot, m', hm', hp⟩ | hp
  · obtain rfl := List.mem_singleton.1 hm'
    obtain ⟨accessor, a, args', hserves, happlies, hbuilds⟩ := hgen.adapter_of_moduleRecipe? hd hp
    have heq : args' = args := by
      rcases happlies with heq | ⟨rfl, rfl⟩
      · exact heq
      · -- without parameters there are no arguments to fill in
        rw [← hargs]
        rfl
    subst heq
    refine ⟨accessor, a, hserves, ?_⟩
    rcases hbuilds with ⟨x, hx, rfl⟩ | ⟨x, i, hx, rfl⟩
    · exact .inl ⟨slot, x, hx, rfl⟩
    · exact .inr ⟨slot, i, x, hx, rfl⟩
  · unfold Source.standardRecipe? at hp
    rw [hplain.isAny_eq_false hd, hplain.shape_eq_other hd] at hp
    cases hp

end Recipes

/-! ### Encodable values -/

/-- Whatever converters are attached, resolving and writing keep a store settled. -/
private theorem frame_settled_state {ms : List AdapterModule} :
    Frame (ofModules ms att) (fun _ s => ∃ P, Settled ms att P s) fun _ => True where
  mild _ _ := trivial
  drop h := h
  hold _ h := h
  binding _ h := h
  missing _ _ _ := trivial
  delegate h _ := h
  unset _ _ := trivial
  custom _ _ _ _ _ _ := trivial
  resolved := by
    rintro fuel ty c cs s s' ⟨P, hs⟩ hr
    obtain ⟨P', -, hs', -⟩ := hs.resolve hr
    exact ⟨P', hs'⟩
  failed := by
    rintro fuel ty e cs s s' ⟨P, hs⟩ hr
    exact ⟨⟨P, (hs.resolve_error hr).2⟩, trivial⟩

/-- Every converter of the type encodes the value. -/
def Encodable (m : AdapterModule) (att : List (String × Converter)) (P : Nat → TypeRef → Prop) (s : Store)
    (ty : TypeRef) (v : Value) : Prop := ∀ c, Stands [m] att P ty c → ∃ j, c.Encodes (ofModules [m] att) s v j

/-- It is enough that what is built encodes the value: placeholders are bound. -/
private theorem Settled.encodable (hs : Settled [m] att P s) {ty : TypeRef} {v : Value}
    (h : ∀ c, Built [m] att P ty c → ∃ j, c.Encodes (ofModules [m] att) s v j) : Encodable m att P s ty v := by
  intro c hc
  cases hc with
  | @placeholder id _ hP =>
    obtain ⟨d, hd, hbuilt⟩ := hs.bound id ty hP
    obtain ⟨j, hj⟩ := h d hbuilt
    exact ⟨j, Converter.encodes_of_delegate hd hj⟩
  | @built _ p id cs hp hlen hresolved hnative hattached =>
    exact h _ ⟨.built id hp hlen hresolved hnative hattached, p.assemble_ne_placeholder id cs⟩

/-- The converters of an adapter: what its bindings have become for the arguments. -/
structure Binds (m : AdapterModule) (att : List (String × Converter)) (P : Nat → TypeRef → Prop)
    (params : List String) (args : List TypeRef) (bindings : List Binding) (cs : List Converter) : Prop where
  fits : ∀ b ∈ bindings, b.Fits params
  parts : List.Forall₂ (fun b c => IsPart [m] att P (b.part args) c) bindings cs

/-- Every codec that was planned for a type that the arguments turn into the given type encodes the value. -/
def CodecEncodable (m : AdapterModule) (att : List (String × Converter)) (P : Nat → TypeRef → Prop) (s : Store)
    (ty : TypeRef) (v : Value) : Prop :=
  ∀ ⦃params args bindings cs t k⦄, Binds m att P params args bindings cs → Codes bindings false t k →
    t.substitute params args = ty → ∃ j, Codec.Encodes (ofModules [m] att) s cs k v j

section Encodings

variable (hgen : model.Generates m) (hplain : model.Plain) {params : List String} {args : List TypeRef}
  {bindings : List Binding} {cs : List Converter} {t ty : TypeRef} {v : Value}

/-- The converter that a binding has become encodes the values of the bound type. -/
private theorem Binds.encodes_binding (hbinds : Binds m att P params args bindings cs) {i : Nat} {b : Binding}
    (hb : bindings[i]? = some b) (hattached : b.source.isAttached = false)
    (hcarries : ∀ kind, (b.ty.substitute params args).native? = some kind → kind.Carries v) (htext : v.PathsAreText)
    (hnull : v.isNull = false) (h : Encodable m att P s (b.ty.substitute params args) v) :
    ∃ j, Codec.Encodes (ofModules [m] att) s cs (.binding i) v j := by
  obtain ⟨hi, rfl⟩ := List.getElem?_eq_some_iff.1 hb
  have hi' : i < cs.length := hbinds.parts.length_eq ▸ hi
  have hfits := hbinds.fits _ (List.getElem_mem hi)
  have hpart : IsPart [m] att P (bindings[i].part args) cs[i] := hbinds.parts.get hi hi'
  have hconverter : ∃ j, cs[i].Encodes (ofModules [m] att) s v j := by
    rcases hfits.part_eq hattached args with heq | ⟨kind, hkind, heq⟩
    · rw [heq] at hpart
      exact h _ hpart
    · rw [heq] at hpart
      obtain ⟨n, hn⟩ := hpart
      rw [hn]
      exact Converter.encodes_of_native n (hcarries kind (TypeRef.native?_substitute hkind)) htext
  obtain ⟨j, hj⟩ := hconverter
  exact ⟨j, Codec.encodes_binding (List.getElem?_eq_getElem hi') hnull hj⟩

include hplain

/-- The codecs of a type encode a value if its converters do and the codecs of a container, if it is one. -/
private theorem codecEncodable_of_containers (hv : v.HasType model ty) (htext : v.PathsAreText)
    (h : Encodable m att P s ty v)
    (hlist : ∀ {params args bindings cs} {element : TypeRef} {i c}, Binds m att P params args bindings cs →
      ty.shape = .list (element.substitute params args) i → Codes bindings false element c →
        ∃ j, Codec.Encodes (ofModules [m] att) s cs (.sequence c i) v j)
    (hobject : ∀ {params args bindings cs} {key value : TypeRef} {i kind c}, Binds m att P params args bindings cs →
      ty.shape = .map (key.substitute params args) (value.substitute params args) i →
        (key.substitute params args).native? = some kind → Codes bindings false value c →
          ∃ j, Codec.Encodes (ofModules [m] att) s cs (.objectMap kind c i) v j)
    (hpair : ∀ {params args bindings cs} {key value : TypeRef} {i k c}, Binds m att P params args bindings cs →
      ty.shape = .map (key.substitute params args) (value.substitute params args) i → Codes bindings false key k →
        Codes bindings false value c → ∃ j, Codec.Encodes (ofModules [m] att) s cs (.pairMap k c i) v j) :
    CodecEncodable m att P s ty v := by
  intro params args bindings cs t k hbinds hcodes hty
  subst hty
  cases hcodes with
  | native hn => exact Codec.encodes_native (hv.carries hplain (TypeRef.native?_substitute hn)) htext
  | binding hb hbound hattached =>
    subst hbound
    exact hbinds.encodes_binding hb hattached (fun kind hkind => hv.carries hplain hkind) htext hv.not_null h
  | dynamic hdynamic =>
    rcases hdynamic with hany | hruntime
    · have hnot := hv.not_any hplain
      rw [TypeRef.isAny_substitute hany] at hnot
      cases hnot
    · cases hruntime
  | list hshape hc => exact hlist hbinds (TypeRef.shape_substitute_list hshape) hc
  | objectMap hshape hk hc =>
    obtain ⟨hnative, -⟩ := Option.filter_eq_some_iff.1 hk
    exact hobject hbinds (TypeRef.shape_substitute_map hshape) (TypeRef.native?_substitute hnative) hc
  | pairMap hshape _ hkey hvalue => exact hpair hbinds (TypeRef.shape_substitute_map hshape) hkey hvalue

/-- The codecs of a type that is no container encode what its converters encode. -/
private theorem codecEncodable_of_leaf (hv : v.HasType model ty) (htext : v.PathsAreText)
    (h : Encodable m att P s ty v) (hleaf : (∃ kind, ty.shape = .native kind) ∨ ty.shape = .other) :
    CodecEncodable m att P s ty v := by
  have hlist (element : TypeRef) (i : Instantiator) : ty.shape ≠ .list element i := by
    intro hshape
    rcases hleaf with ⟨kind, hleaf⟩ | hleaf <;> cases hleaf.symm.trans hshape
  have hmap (key value : TypeRef) (i : Instantiator) : ty.shape ≠ .map key value i := by
    intro hshape
    rcases hleaf with ⟨kind, hleaf⟩ | hleaf <;> cases hleaf.symm.trans hshape
  refine codecEncodable_of_containers hplain hv htext h ?_ ?_ ?_
  · intro params args bindings cs element i c _ hshape
    exact absurd hshape (hlist _ _)
  · intro params args bindings cs key value i kind c _ hshape
    exact absurd hshape (hmap _ _ _)
  · intro params args bindings cs key value i k c _ hshape
    exact absurd hshape (hmap _ _ _)

/-! ### Native values -/

include hgen

private theorem encodable_native (hs : Settled [m] att P s) {kind : NativeKind} (hty : ty.native? = some kind)
    (hv : kind.Carries v) (htext : v.PathsAreText) : Encodable m att P s ty v := by
  refine hs.encodable fun c hc => ?_
  have hshape := TypeRef.shape_of_native? hty
  obtain ⟨p, id, cs, hp, -, rfl⟩ := hc.exists_recipe
  obtain ⟨hany, hrecipe⟩ := recipe?_of_shape hgen hplain (by rw [hshape]; exact nofun) hp
  unfold Source.standardRecipe? at hrecipe
  rw [hany, hshape] at hrecipe
  obtain rfl := Option.some.inj hrecipe
  exact Converter.encodes_of_native id hv htext

/-! ### Containers -/

private theorem encodable_list (hs : Settled [m] att P s) {element : TypeRef} {i : Instantiator} {items : List Value}
    (hty : ty.shape = .list element i) (hnull : ∀ item ∈ items, item.isNull = false)
    (hitems : ∀ item ∈ items, Encodable m att P s element item) : Encodable m att P s ty (.list items) := by
  refine hs.encodable fun c hbuilt => ?_
  obtain ⟨p, id, cs, hp, hparts, rfl⟩ := hbuilt.exists_recipe
  obtain ⟨hany, hrecipe⟩ := recipe?_of_shape hgen hplain (by rw [hty]; exact nofun) hp
  unfold Source.standardRecipe? at hrecipe
  rw [hany, hty] at hrecipe
  obtain rfl := Option.some.inj hrecipe
  obtain ⟨c, _, hc, hnil, rfl⟩ := List.forall₂_cons_left_iff.1 hparts
  obtain rfl := List.forall₂_nil_left_iff.1 hnil
  have hfirst : ∀ item ∈ items, ∃ j, Codec.Encodes (ofModules [m] att) s [c] (.binding 0) item j := by
    intro item hitem
    obtain ⟨j, hj⟩ := hitems item hitem c hc
    exact ⟨j, Codec.encodes_binding rfl (hnull item hitem) hj⟩
  obtain ⟨j, hj⟩ := Codec.encodes_sequence (i := i) hfirst
  exact ⟨j, Converter.encodes_of_codec id hj⟩

private theorem encodable_map (hs : Settled [m] att P s) {key value : TypeRef} {i : Instantiator}
    {entries : List (Value × Value)} (hty : ty.shape = .map key value i)
    (hkeys : ∀ e ∈ entries, e.1.HasType model key ∧ e.1.PathsAreText)
    (hvalues : ∀ e ∈ entries, e.2.HasType model value) (hkey : ∀ e ∈ entries, Encodable m att P s key e.1)
    (hvalue : ∀ e ∈ entries, Encodable m att P s value e.2) (hnodup : (entries.map (·.1.display)).Nodup) :
    Encodable m att P s ty (.map entries) := by
  refine hs.encodable fun c hbuilt => ?_
  obtain ⟨p, id, cs, hp, hparts, rfl⟩ := hbuilt.exists_recipe
  obtain ⟨hany, hrecipe⟩ := recipe?_of_shape hgen hplain (by rw [hty]; exact nofun) hp
  unfold Source.standardRecipe? at hrecipe
  rw [hany, hty] at hrecipe
  -- in both encodings the first part is the converter of the values
  have hfirst (c : Converter) (cs : List Converter) (hc : Stands [m] att P value c) :
      ∀ e ∈ entries, ∃ j, Codec.Encodes (ofModules [m] att) s (c :: cs) (.binding 0) e.2 j := by
    intro e he
    obtain ⟨j, hj⟩ := hvalue e he c hc
    exact ⟨j, Codec.encodes_binding rfl (hvalues e he).not_null hj⟩
  cases hk : key.native?.filter (·.isKey) with
  | some kind =>
    simp only [Bool.false_eq_true, if_false, hk, Option.some.injEq] at hrecipe
    subst hrecipe
    obtain ⟨c, _, hc, hnil, rfl⟩ := List.forall₂_cons_left_iff.1 hparts
    obtain rfl := List.forall₂_nil_left_iff.1 hnil
    obtain ⟨hnative, -⟩ := Option.filter_eq_some_iff.1 hk
    have hcarries : ∀ e ∈ entries, kind.Carries e.1 ∧ e.1.PathsAreText := fun e he =>
      ⟨(hkeys e he).1.carries hplain hnative, (hkeys e he).2⟩
    obtain ⟨j, hj⟩ := Codec.encodes_objectMap (i := i) hcarries (hfirst c [] hc) hnodup
    exact ⟨j, Converter.encodes_of_codec id hj⟩
  | none =>
    simp only [Bool.false_eq_true, if_false, hk, Option.some.injEq] at hrecipe
    subst hrecipe
    obtain ⟨c, _, hc, hrest, rfl⟩ := List.forall₂_cons_left_iff.1 hparts
    obtain ⟨c', _, hc', hnil, rfl⟩ := List.forall₂_cons_left_iff.1 hrest
    obtain rfl := List.forall₂_nil_left_iff.1 hnil
    have hsecond : ∀ e ∈ entries, ∃ j, Codec.Encodes (ofModules [m] att) s [c, c'] (.binding 1) e.1 j := by
      intro e he
      obtain ⟨j, hj⟩ := hkey e he c' hc'
      exact ⟨j, Codec.encodes_binding rfl (hkeys e he).1.not_null hj⟩
    obtain ⟨j, hj⟩ := Codec.encodes_pairMap (i := i) hsecond (hfirst c [c'] hc) hnodup
    exact ⟨j, Converter.encodes_of_codec id hj⟩

/-! ### Declared types -/

private theorem encodable_enum (hs : Settled [m] att P s) {d : Declaration} (hd : d ∈ model.types)
    {constants : List Constant} (hkind : d.kind = .enumeration constants) (hparams : d.params = [])
    {constant : String} (hc : constant ∈ constants.map (·.name)) :
    Encodable m att P s (.named d.path []) (.enum (.named d.path []) constant) := by
  refine hs.encodable fun c hbuilt => ?_
  obtain ⟨p, id, cs, hp, -, rfl⟩ := hbuilt.exists_recipe
  obtain ⟨accessor, a, hserves, hrecipe⟩ := recipe?_of_declared hgen hplain hd (by rw [hparams]; rfl) hp
  cases hserves with
  | struct hk _ =>
    rw [hkind] at hk
    cases hk
  | @enum _ x hk hx =>
    obtain ⟨slot, i, rfl⟩ : ∃ slot i, p = .enum slot i x := by
      rcases hrecipe with ⟨slot, y, hy, -⟩ | ⟨slot, i, y, hy, hp⟩
      · cases hy
      · cases hy
        exact ⟨slot, i, hp⟩
    have hconstants : d.constants = constants := by rw [Declaration.constants, hkind]
    have htarget : x.target = .named d.path [] := by
      obtain ⟨-, rfl⟩ := Declaration.enumAdapter_ok hx
      rw [Declaration.selfType, hparams]
      rfl
    have hentry : constant ∈ x.entries.map (·.constant) := by
      rw [Declaration.map_constant_entries hx, hconstants]
      exact hc
    have hencodes : ∃ j, (Converter.enum id x).Encodes (ofModules [m] att) s (.enum x.target constant) j :=
      encodes_enum id (Declaration.nodup_entries hx) hentry
    rw [htarget] at hencodes
    exact hencodes

private theorem encodable_object (hs : Settled [m] att P s) {d : Declaration} (hd : d ∈ model.types)
    {args : List TypeRef} {fields : List Field} {values : Fields} (hkind : d.kind = .structure fields)
    (hargs : args.length = d.params.length) (horder : (values.map (·.1)).Sublist (fields.map (·.name)))
    (hrequired : ∀ f ∈ fields, f.isNonNull = true → f.name ∈ values.map (·.1))
    (hnull : ∀ p ∈ values, p.2.isNull = false)
    (hvalues : ∀ f ∈ fields, ∀ v, (f.name, v) ∈ values → CodecEncodable m att P s (f.ty.substitute d.params args) v) :
    Encodable m att P s (.named d.path args) (.object (.named d.path args) values) := by
  refine hs.encodable fun c hbuilt => ?_
  obtain ⟨p, id, cs, hp, hparts, rfl⟩ := hbuilt.exists_recipe
  obtain ⟨accessor, a, hserves, hrecipe⟩ := recipe?_of_declared hgen hplain hd hargs hp
  obtain rfl : d.fields = fields := by rw [Declaration.fields, hkind]
  cases hserves with
  | enum hk _ =>
    rw [hkind] at hk
    cases hk
  | @struct _ codecs x hk hx =>
    obtain ⟨slot, rfl⟩ : ∃ slot, p = .struct slot x (.named d.path args) args := by
      rcases hrecipe with ⟨slot, y, hy, hp⟩ | ⟨slot, i, y, hy, -⟩
      · cases hy
        exact ⟨slot, hp⟩
      · cases hy
    have hbinds : Binds m att P d.params args x.bindings cs := ⟨hx.fits, List.forall₂_map_left_iff.1 hparts⟩
    -- in a plain model a field is encoded by its declared type
    have hcodes : ∀ p ∈ d.fields.zip codecs, Codes x.bindings false p.1.ty p.2 := by
      rintro ⟨f, k⟩ hp
      have hf : f ∈ d.fields := (List.of_mem_zip hp).1
      exact (hx.field_codes hp).codes (hplain.converter d hd f hf) (hplain.declared d hd f hf)
    have hwritesNull : ∀ p ∈ d.fields.zip codecs, p.2.writesNull = false := by
      rintro ⟨f, k⟩ hp
      have hc : Codes x.bindings false f.ty k := hcodes _ hp
      cases hc <;> rfl
    refine StructAdapter.encodes_struct id hx hwritesNull (hplain.names d hd) horder hnull hrequired ?_ _ _
    intro p hp v hv
    exact hvalues p.1 (List.of_mem_zip hp).1 v hv hbinds (hcodes p hp) rfl

/-! ### All values -/

/-- Every value that belongs to a type, whose paths are texts and whose fields were set in order, is encoded by the
converters and the codecs of the type. -/
private theorem encodable_of_hasType (hs : Settled [m] att P s) (hv : v.HasType model ty) (htext : v.PathsAreText)
    (horder : v.InOrder model) : Encodable m att P s ty v ∧ CodecEncodable m att P s ty v := by
  induction hv with
  | native hty hv =>
    have h := encodable_native hgen hplain hs hty hv htext
    exact ⟨h, codecEncodable_of_leaf hplain (.native hty hv) htext h (.inl ⟨_, TypeRef.shape_of_native? hty⟩)⟩
  | @list ty element i items hty hitems ih =>
    have hitem (item : Value) (hitem : item ∈ items) :=
      ih item hitem (htext.of_inside (.item hitem .self)) (horder.of_inside (.item hitem .self))
    have h := encodable_list hgen hplain hs hty (fun item h => (hitems item h).not_null) fun item h =>
      (hitem item h).1
    refine ⟨h, codecEncodable_of_containers hplain (.list hty hitems) htext h ?_ ?_ ?_⟩
    · intro params args bindings cs element' i' c hbinds hshape hc
      obtain ⟨rfl, rfl⟩ := Shape.list.inj (hty.symm.trans hshape)
      exact Codec.encodes_sequence fun item h => (hitem item h).2 hbinds hc rfl
    · intro params args bindings cs key value i' kind c _ hshape
      cases hty.symm.trans hshape
    · intro params args bindings cs key value i' k c _ hshape
      cases hty.symm.trans hshape
  | @map ty key value i entries hty hkeys hvalues hnodup ihk ihv =>
    have hkeyText (e : Value × Value) (he : e ∈ entries) : e.1.PathsAreText := htext.of_inside (.key he .self)
    have hkey (e : Value × Value) (he : e ∈ entries) := ihk e he (hkeyText e he) (horder.of_inside (.key he .self))
    have hvalue (e : Value × Value) (he : e ∈ entries) :=
      ihv e he (htext.of_inside (.value he .self)) (horder.of_inside (.value he .self))
    have h := encodable_map hgen hplain hs hty (fun e he => ⟨hkeys e he, hkeyText e he⟩) hvalues
      (fun e he => (hkey e he).1) (fun e he => (hvalue e he).1) hnodup
    refine ⟨h, codecEncodable_of_containers hplain (.map hty hkeys hvalues hnodup) htext h ?_ ?_ ?_⟩
    · intro params args bindings cs element' i' c _ hshape
      cases hty.symm.trans hshape
    · intro params args bindings cs key' value' i' kind c hbinds hshape hkind hc
      obtain ⟨rfl, rfl, rfl⟩ := Shape.map.inj (hty.symm.trans hshape)
      exact Codec.encodes_objectMap (fun e he => ⟨(hkeys e he).carries hplain hkind, hkeyText e he⟩)
        (fun e he => (hvalue e he).2 hbinds hc rfl) hnodup
    · intro params args bindings cs key' value' i' k c hbinds hshape hk hc
      obtain ⟨rfl, rfl, rfl⟩ := Shape.map.inj (hty.symm.trans hshape)
      exact Codec.encodes_pairMap (fun e he => (hkey e he).2 hbinds hk rfl)
        (fun e he => (hvalue e he).2 hbinds hc rfl) hnodup
  | enum hd hkind hparams hc =>
    have h := encodable_enum hgen hplain hs hd hkind hparams hc
    exact ⟨h, codecEncodable_of_leaf hplain (.enum hd hkind hparams hc) htext h (.inr (hplain.shape_eq_other hd []))⟩
  | @object d args fields values hd hkind hargs hnodup hdeclared hrequired hvalues ih =>
    have hnull : ∀ p ∈ values, p.2.isNull = false := by
      intro p hp
      obtain ⟨f, hf, hname⟩ := List.mem_map.1 (hdeclared (List.mem_map_of_mem hp))
      exact (hvalues f hf p.2 (hname ▸ hp)).not_null
    have hsublist : (values.map (·.1)).Sublist (fields.map (·.name)) := by
      have hfields := horder _ _ .self d hd rfl
      rwa [Declaration.fields, hkind] at hfields
    have h := encodable_object hgen hplain hs hd hkind hargs hsublist hrequired hnull fun f hf v hv =>
      (ih f hf v hv (htext.of_inside (.field hv .self)) (horder.of_inside (.field hv .self))).2
    exact ⟨h, codecEncodable_of_leaf hplain (.object hd hkind hargs hnodup hdeclared hrequired hvalues) htext h
      (.inr (hplain.shape_eq_other hd args))⟩

/-- However a registry of a generated module came to its state: what it resolves for a type writes every value of the
type whose paths are texts and whose fields were set in order as a document, and reads it back unless its containers
are nested too deep. -/
theorem round_trip {s₀ : Store} {held : List Converter} (hrun : Run (ofModules [m] att) s₀ held) {fuel₀ : Nat}
    {c : Converter} (hresolve : (ofModules [m] att).resolve fuel₀ ty s₀ = .ok c s) (hv : v.HasType model ty)
    (htext : v.PathsAreText) (horder : v.InOrder model) :
    ∃ (j : Json) (n : Nat), ∀ fuel, n ≤ fuel →
      c.toJson (ofModules [m] att) fuel (some v) s = .ok (String.ofList j.text) s ∧
        (j.depth ≤ maxDepth → c.fromJson s.delegates fuel (String.ofList j.text) = .ok (some v)) := by
  obtain ⟨P₀, hs₀⟩ := frame_settled_state.of_run ⟨_, .empty⟩ hrun
  obtain ⟨P, -, hs, hstands⟩ := hs₀.resolve hresolve
  obtain ⟨j, hj⟩ := (encodable_of_hasType hgen hplain hs hv htext horder).1 c hstands
  exact ⟨j, hj.document⟩

end Encodings

/-! A generic structure that holds others of its kind in a list, and its colours in a map. -/

def nodeModel : Model where
  types := [⟨"demo::Node", ["T"], .structure [⟨"value", some "v", .var "T", .nonNull, none⟩,
      ⟨"rest", none, .named "Vec" [.named "demo::Node" [.var "T"]], .none, none⟩,
      ⟨"seen", none, .named "HashMap" [.var "T", .named "demo::Colour" []], .none, none⟩], List.nodup_singleton "T"⟩,
    .plain "demo::Colour" (.enumeration [⟨"Red", some "red"⟩, ⟨"Blue", none⟩])]
  subtypeAdapters := []
  paths_nodup := by decide

def nodeModule : AdapterModule := (nodeModel.generate .standard).toOption.getD default

private theorem nodeModel_plain : nodeModel.Plain where
  converter := by decide
  declared := by decide
  names := by decide
  native := by decide
  container := by decide
  dynamic := by decide

/-- The type of nodes with integers. -/
def nodeType : TypeRef := .named "demo::Node" [.named "i64" []]

/-- A node with the integer, and the nodes behind it. -/
def node (n : Int64) (rest : List Value) : Value :=
  .object nodeType [("value", .int n), ("rest", .list rest),
    ("seen", .map [(.int n, .enum (.named "demo::Colour" []) "Red")])]

/-- What stands inside a node is the node, stands inside the nodes behind it, or is neither a path nor an object. -/
private theorem inside_node {n : Int64} {rest : List Value} {u : Value} (h : u.Inside (node n rest)) :
    u = node n rest ∨ (∃ v ∈ rest, u.Inside v) ∨ (∀ p, u ≠ .path p) ∧ ∀ ty fields, u ≠ .object ty fields := by
  cases h with
  | self => exact .inl rfl
  | field he h =>
    simp only [List.mem_cons, List.not_mem_nil, or_false] at he
    rcases he with rfl | rfl | rfl
    · cases h
      exact .inr (.inr ⟨nofun, nofun⟩)
    · cases h with
      | self => exact .inr (.inr ⟨nofun, nofun⟩)
      | item hv h => exact .inr (.inl ⟨_, hv, h⟩)
    · cases h with
      | self => exact .inr (.inr ⟨nofun, nofun⟩)
      | key he h | value he h =>
        obtain rfl := List.mem_singleton.1 he
        cases h
        exact .inr (.inr ⟨nofun, nofun⟩)

private theorem pathsAreText_node (n : Int64) {rest : List Value} (hrest : ∀ v ∈ rest, v.PathsAreText) :
    (node n rest).PathsAreText := by
  intro p hin
  rcases inside_node hin with heq | ⟨v, hv, hin⟩ | ⟨hpath, -⟩
  · cases heq
  · exact hrest v hv p hin
  · exact absurd rfl (hpath p)

private theorem inOrder_node (n : Int64) {rest : List Value} (hrest : ∀ v ∈ rest, v.InOrder nodeModel) :
    (node n rest).InOrder nodeModel := by
  intro ty values hin d hd hpath
  rcases inside_node hin with heq | ⟨v, hv, hin⟩ | ⟨-, hobject⟩
  · obtain ⟨rfl, rfl⟩ := Value.object.inj heq
    simp only [nodeModel, List.mem_cons, List.not_mem_nil, or_false] at hd
    rcases hd with rfl | rfl
    · exact List.Sublist.refl _
    · exact absurd hpath (by decide)
  · exact hrest v hv ty values hin d hd hpath
  · exact absurd rfl (hobject ty values)

theorem round_trip_node : ∃ c s, (ofModules [nodeModule] []).resolve 5 nodeType .empty = .ok c s ∧
    ∃ (j : Json) (n : Nat), ∀ fuel, n ≤ fuel →
      c.toJson (ofModules [nodeModule] []) fuel (some (node 1 [node (-2) []])) s = .ok (String.ofList j.text) s ∧
        (j.depth ≤ maxDepth →
          c.fromJson s.delegates fuel (String.ofList j.text) = .ok (some (node 1 [node (-2) []]))) := by
  have hgenerate : nodeModel.generate .standard = .ok nodeModule := by rfl
  have hresolves : succeeds (fun _ _ => true) ((ofModules [nodeModule] []).resolve 5 nodeType .empty) = true := by
    decide +kernel
  obtain ⟨c, s, hresolve, -⟩ := succeeds_iff.1 hresolves
  have hint (n : Int64) : (Value.int n).HasType nodeModel (.named "i64" []) :=
    .native rfl (.int (.inr (.inr (.inr rfl))) rfl)
  have hred : (Value.enum (.named "demo::Colour" []) "Red").HasType nodeModel (.named "demo::Colour" []) := by
    have hd : nodeModel.types[1] ∈ nodeModel.types := List.getElem_mem _
    exact .enum hd rfl rfl (List.mem_cons_self ..)
  -- a node whose rest is a list of nodes is a node
  have hnode (n : Int64) (rest : List Value) (hrest : ∀ v ∈ rest, v.HasType nodeModel nodeType) :
      (node n rest).HasType nodeModel nodeType := by
    have hd : nodeModel.types[0] ∈ nodeModel.types := List.getElem_mem _
    have hrequired : ∀ f ∈ nodeModel.types[0].fields, f.isNonNull = true → f.name ∈ ["value", "rest", "seen"] := by
      decide
    have hnodup : ["value", "rest", "seen"].Nodup := by decide
    refine .object hd rfl rfl hnodup (List.Subset.refl _) hrequired ?_
    intro f hf v hv
    simp only [List.mem_cons, List.not_mem_nil, or_false] at hf
    rcases hf with rfl | rfl | rfl
    · obtain rfl : v = .int n := by simpa using hv
      exact hint n
    · obtain rfl : v = .list rest := by simpa using hv
      exact .list rfl hrest
    · obtain rfl : v = .map [(.int n, .enum (.named "demo::Colour" []) "Red")] := by simpa using hv
      refine .map rfl (fun e he => ?_) (fun e he => ?_) (List.nodup_singleton _)
      · obtain rfl := List.mem_singleton.1 he
        exact hint n
      · obtain rfl := List.mem_singleton.1 he
        exact hred
  have hnodes : ∀ v ∈ [node (-2) []], v.HasType nodeModel nodeType :=
    List.forall_mem_singleton.2 (hnode (-2) [] nofun)
  have htexts : ∀ v ∈ [node (-2) []], v.PathsAreText := List.forall_mem_singleton.2 (pathsAreText_node (-2) nofun)
  have horders : ∀ v ∈ [node (-2) []], v.InOrder nodeModel := List.forall_mem_singleton.2 (inOrder_node (-2) nofun)
  exact ⟨c, s, hresolve, round_trip (.of_generate hgenerate) nodeModel_plain .start hresolve (hnode 1 _ hnodes)
    (pathsAreText_node 1 htexts) (inOrder_node 1 horders)⟩

/-! A structure with a path.  What is not the text of a path, and the order in which fields were set, are not
written. -/

/-- What a generated module resolves for a type writes every value of the type that is as wanted, and reads back a
value that is equal to it, unless containers are nested too deep. -/
def RoundTripsIf (wanted : Model → Value → Prop) : Prop :=
  ∀ (model : Model) (m : AdapterModule) (ty : TypeRef) (v : Value) (fuel₀ : Nat) (c : Converter) (s : Store),
    model.generate .standard = .ok m → model.Plain → (ofModules [m] []).resolve fuel₀ ty .empty = .ok c s →
      v.HasType model ty → wanted model v →
        ∃ n, ∀ fuel, n ≤ fuel → ∃ text, c.toJson (ofModules [m] []) fuel (some v) s = .ok text s ∧
          ∀ d j, Dialect.SpellsDocument d j text.toList → j.depth ≤ maxDepth →
            ∃ w, c.fromJson s.delegates fuel text = .ok (some w) ∧ (w == v) = true

private def fileModel : Model where
  types := [⟨"demo::File", [], .structure [⟨"at", none, .named "PathBuf" [], .none, none⟩,
      ⟨"size", none, .named "i64" [], .none, none⟩], List.nodup_nil⟩]
  subtypeAdapters := []
  paths_nodup := by decide

private def fileModule : AdapterModule := (fileModel.generate .standard).toOption.getD default

private def fileType : TypeRef := .named "demo::File" []

private theorem fileModel_plain : fileModel.Plain where
  converter := by decide
  declared := by decide
  names := by decide
  native := by decide
  container := by decide
  dynamic := by decide

/-- What is resolved for the structure. -/
private def fileConverter : Converter :=
  match (ofModules [fileModule] []).resolve 5 fileType .empty with
  | .ok c _ => c
  | .error .. => .placeholder 0 fileType

private theorem exists_resolve_file :
    ∃ s, (ofModules [fileModule] []).resolve 5 fileType .empty = .ok fileConverter s :=
  ⟨_, rfl⟩

private theorem hasType_file {p : Path} {values : Fields} (hnodup : (values.map (·.1)).Nodup)
    (h : ∀ e ∈ values, e = ("at", .path p) ∨ e = ("size", .int 0)) :
    (Value.object fileType values).HasType fileModel fileType := by
  have hd : fileModel.types[0] ∈ fileModel.types := List.getElem_mem _
  have hnames : ∀ name ∈ values.map (·.1), name ∈ ["at", "size"] := by
    refine List.forall_mem_map.2 fun e he => ?_
    rcases h e he with rfl | rfl <;> simp
  have hoptional : ∀ f ∈ fileModel.types[0].fields, f.isNonNull = false := by decide
  refine .object hd rfl rfl hnodup hnames (fun f hf hnonNull => absurd hnonNull (by simp [hoptional f hf]))
    fun f hf v hv => ?_
  simp only [List.mem_cons, List.not_mem_nil, or_false] at hf
  rcases hf with rfl | rfl
  · obtain rfl : v = .path p := by simpa using h _ hv
    exact .native rfl (.path p)
  · obtain rfl : v = .int 0 := by simpa using h _ hv
    exact .native rfl (.int (.inr (.inr (.inr rfl))) rfl)

/-- The document that is written for a file. -/
private def fileJson (path : List Char) : Json :=
  .object [("at", .string path), ("size", .zero)]

/-- What is read back of a file is what its path shows, and then its size. -/
private def fileRead (path : List Char) : Value :=
  .object fileType [("at", .path (.ofText (String.ofList path))), ("size", .int 0)]

private theorem fromJson_file {s : Store}
    (hresolve : (ofModules [fileModule] []).resolve 5 fileType .empty = .ok fileConverter s) (path : List Char)
    (fuel : Nat) : fileConverter.fromJson s.delegates (fuel + 2) (String.ofList (fileJson path).text) =
      .ok (some (fileRead path)) := by
  obtain ⟨hdelegates, hheld⟩ := plain_of_run (List.forall_mem_nil _) (.resolved .start hresolve)
  exact (Converter.fromJson_eq_ok hdelegates (hheld _ (List.mem_cons_self ..)) (fileJson path).spellsDocument_text).2
    ⟨show 1 ≤ 128 by decide, rfl⟩

/-- What is read back of a file is not equal to it. -/
private theorem not_wanted_of_fromJson {wanted : Model → Value → Prop} (hall : RoundTripsIf wanted) {p : Path}
    (values : Fields) (path : List Char) (hnodup : (values.map (·.1)).Nodup)
    (hvalues : ∀ e ∈ values, e = ("at", .path p) ∨ e = ("size", .int 0))
    (hwrite : ∀ fuel s, fileConverter.toJson (ofModules [fileModule] []) (fuel + 2)
      (some (.object fileType values)) s = .ok (String.ofList (fileJson path).text) s)
    (hne : (fileRead path == .object fileType values) = false) : ¬wanted fileModel (.object fileType values) := by
  intro hwanted
  obtain ⟨s, hresolve⟩ := exists_resolve_file
  obtain ⟨n, hn⟩ := hall fileModel fileModule fileType _ 5 fileConverter s rfl fileModel_plain hresolve
    (hasType_file hnodup hvalues) hwanted
  obtain ⟨text, htext, hreread⟩ := hn (n + 2) (Nat.le_add_right n 2)
  obtain ⟨rfl, -⟩ := ok_inj.1 ((hwrite n s).symm.trans htext)
  obtain ⟨w, hw, heq⟩ := hreread _ _ (fileJson path).spellsDocument_text (show 1 ≤ 128 by decide)
  obtain rfl : fileRead path = w := by simpa using (fromJson_file hresolve path n).symm.trans hw
  cases hne.symm.trans heq

/-- A path that is no text comes back as another path, and fields that were set in another order come back in
order. -/
theorem not_forall_round_trip :
    ¬RoundTripsIf (fun model v => v.InOrder model) ∧ ¬RoundTripsIf (fun _ v => v.PathsAreText) := by
  constructor
  · intro hall
    refine not_wanted_of_fromJson hall (p := ⟨[0xFF]⟩) [("at", .path ⟨[0xFF]⟩), ("size", .int 0)]
      ['\uFFFD'] (by decide) (by simp) (fun fuel s => rfl) (by decide) ?_
    intro ty values hin d hd _
    obtain rfl := List.mem_singleton.1 hd
    cases hin with
    | self => exact List.Sublist.refl _
    | field he hin =>
      simp only [List.mem_cons, List.not_mem_nil, or_false] at he
      rcases he with rfl | rfl <;> cases hin
  · intro hall
    refine not_wanted_of_fromJson hall (p := "a") [("size", .int 0), ("at", .path "a")] ['a'] (by decide) (by simp)
      (fun fuel s => rfl) (by decide) ?_
    intro q hin
    cases hin with
    | field he hin =>
      simp only [List.mem_cons, List.not_mem_nil, or_false] at he
      rcases he with rfl | rfl
      · cases hin
      · cases hin
        exact Path.isText_ofText "a"

end Registry

end Marshal
