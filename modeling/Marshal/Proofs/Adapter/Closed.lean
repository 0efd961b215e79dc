import Marshal.Proofs.Plan.Layout

/-!
# Closed and minimal adapters

A generated adapter refers to the bindings it has and to no others, and has none that it does not refer to
(`structAdapter_closed`).
-/

namespace Marshal

/-- Every reference of an adapter leads to a binding and every binding is referred to; a type is bound once, with the
source that it calls for, and a converter is attached once.  The registry is asked for where it is needed, and what is
written is read again by the same codecs. -/
structure StructAdapter.Closed (namePrefix : String) (d : Declaration) (a : StructAdapter) : Prop where
  bound : ∀ f ∈ a.read.fields, ∀ i, f.codec.Refers i → i < a.bindings.length
  used : ∀ i < a.bindings.length, ∃ f ∈ a.read.fields, f.codec.Refers i
  names : ∀ (i : Nat) (b : Binding), a.bindings[i]? = some b → b.name = namePrefix ++ toString i
  types : ∀ (i j : Nat) (b b' : Binding), a.bindings[i]? = some b → a.bindings[j]? = some b' →
    b.source.isAttached = false → b'.source.isAttached = false → b.ty = b'.ty → i = j
  paths : ∀ (i j : Nat) (b b' : Binding) (path : String), a.bindings[i]? = some b → a.bindings[j]? = some b' →
    b.source = .attached path → b'.source = .attached path → i = j
  sources : ∀ b ∈ a.bindings, b.source.isAttached = false → b.ty.CallsFor d.params b.source
  /-- Values whose own type decides how they are written, at any depth of a field, and getters take a registry. -/
  registry :
    ((∃ f ∈ a.read.fields, ∃ c : Codec, c.Inside f.codec ∧ (c = .dynamic ∨ ∃ declared, c = .runtimeType declared)) ∨
    ∃ b ∈ a.bindings, ∃ getter, b.source = .registry getter) → a.requirements.needsRegistry = true
  alike : ∃ writes : List FieldWrite, a.write = [.beginObject, .endIfAbsent] ++ writes.map .field ++ [.endObject] ∧
    writes.map (fun w => (w.name, w.serializedName, w.access, w.codec)) =
      a.read.fields.map (fun r => (r.name, r.serializedName, r.access, r.codec))
  order : a.read.fields.map (fun r => (r.name, r.serializedName)) = d.fields.map fun f => (f.name, f.serializedName)

/-- A relation between any two members of a list one after the other tells apart the positions. -/
private theorem eq_of_pairwise {α : Type} {R : α → α → Prop} {l : List α} (h : l.Pairwise R) {i j : Nat} {x y : α}
    (hi : l[i]? = some x) (hj : l[j]? = some y) (hxy : ¬R x y) (hyx : ¬R y x) : i = j := by
  obtain ⟨hi', rfl⟩ := List.getElem?_eq_some_iff.1 hi
  obtain ⟨hj', rfl⟩ := List.getElem?_eq_some_iff.1 hj
  rcases Nat.lt_trichotomy i j with hlt | heq | hlt
  · exact absurd (List.pairwise_iff_getElem.1 h i j hi' hj' hlt) hxy
  · exact heq
  · exact absurd (List.pairwise_iff_getElem.1 h j i hj' hi' hlt) hyx

namespace StructAdapter.Serves

variable {accessor : Accessor} {d : Declaration} {codecs : List Codec} {a : StructAdapter}
  (h : a.Serves accessor d codecs)

include h

/-- The codecs of the fields that are read are those of the plan. -/
private theorem map_codec : a.read.fields.map FieldRead.codec = codecs := by
  rw [h.read, Declaration.readProcedure, List.map_map]
  exact List.map_snd_zip (Nat.le_of_eq h.planned.length_eq.symm)

private theorem mem_codecs {c : Codec} : c ∈ codecs ↔ ∃ f ∈ a.read.fields, f.codec = c := by
  rw [← h.map_codec, List.mem_map]

end StructAdapter.Serves

/-- The adapter of a structure is closed and minimal, whatever the catalog holds when it is generated. -/
theorem Declaration.structAdapter_closed {model : Model} {accessor : Accessor} {namePrefix : String} {d : Declaration}
    {catalog catalog' : Catalog} {a : StructAdapter}
    (h : d.structAdapter model accessor namePrefix catalog = (.ok a, catalog')) : a.Closed namePrefix d := by
  obtain ⟨codecs, hplan, hserves⟩ := planFields_of_structAdapter h
  obtain ⟨htidy, hused⟩ := planFields_tidy hplan
  constructor
  case bound =>
    intro f hf i hi
    obtain ⟨f', -, hcodes⟩ := forall₂_of_mem_right hserves.planned (hserves.mem_codecs.2 ⟨f, hf, rfl⟩)
    exact hcodes.lt_length i hi.mem_indices
  case used =>
    intro i hi
    obtain ⟨c, hc, hrefers⟩ := hused i hi
    obtain ⟨f, hf, rfl⟩ := hserves.mem_codecs.1 hc
    exact ⟨f, hf, hrefers⟩
  case names => exact htidy.numbered
  case types =>
    intro i j b b' hi hj hb hb' hty
    exact eq_of_pairwise htidy.types hi hj (fun h => h hb hb' hty) fun h => h hb' hb hty.symm
  case paths =>
    intro i j b b' path hi hj hb hb'
    have hs : b.source = b'.source := hb.trans hb'.symm
    exact eq_of_pairwise htidy.paths hi hj (fun h => h (by rw [hb]; rfl) hs) fun h => h (by rw [hb']; rfl) hs.symm
  case sources => exact htidy.sources
  case registry =>
    rw [hserves.requirements, Declaration.requirements]
    rintro (⟨f, hf, c, hc, hkind⟩ | ⟨b, hb, getter, hs⟩)
    · have hmem : f.codec ∈ codecs := hserves.mem_codecs.2 ⟨f, hf, rfl⟩
      rcases hkind with rfl | ⟨declared, rfl⟩
      · have hany : codecs.any (·.any Codec.isDynamic) = true := List.any_eq_true.2 ⟨_, hmem, hc.any rfl⟩
        simp only [hany, Bool.or_true, Bool.true_or]
      · have hany : codecs.any (·.any Codec.isRuntimeType) = true := List.any_eq_true.2 ⟨_, hmem, hc.any rfl⟩
        simp only [hany, Bool.true_or]
    · have hany : a.bindings.any (·.source.isRegistry) = true := List.any_eq_true.2 ⟨b, hb, by rw [hs]; rfl⟩
      simp only [hany, Bool.or_true]
  case alike =>
    refine ⟨(d.fields.zip codecs).map fun p => ⟨p.1.name, p.1.serializedName, accessor p.1, p.2, p.1.isNonNull⟩, ?_,
      ?_⟩
    · rw [hserves.write, Declaration.writeProcedure, List.map_map]
      rfl
    · rw [hserves.read, Declaration.readProcedure, List.map_map, List.map_map]
      rfl
  case order =>
    rw [hserves.read, Declaration.readProcedure, List.map_map]
    conv_rhs => rw [← hserves.map_fst_zip, List.map_map]
    rfl

/-- Two fields of one type share a binding, a variable is bound to its position, and an attached converter has a
binding of its own. -/
theorem Declaration.structAdapter_closed_tree :
    let tree : TypeRef := .named "demo::Tree" [.var "T"]
    let d : Declaration :=
      { path := "demo::Tree", params := ["T"], params_nodup := by decide
        kind := .structure [⟨"left", none, tree, .none, none⟩, ⟨"right", none, tree, .none, none⟩,
          ⟨"label", none, .var "T", .none, none⟩, ⟨"tags", none, .named "Vec" [.named "i8" []], .none, none⟩,
          ⟨"id", none, .named "uuid::Uuid" [], .none, some ⟨"demo::Hex", true, .write⟩⟩] }
    let made := (d.structAdapter .empty AccessStrategy.direct.accessor "b" .empty).1
    ∃ a, made = .ok a ∧ a.bindings.map (·.source) =
      [.discover (.parameterized "demo::Tree" [.param 0]), .param 0, .known .i8 NativeKind.i8.converterPath,
        .attached "demo::Hex", .registry "get_uuid_uuid_adapter"] ∧ a.Closed "b" d := by
  exact ⟨_, rfl, by decide +kernel, @structAdapter_closed .empty _ _ _ .empty _ _ rfl⟩

end Marshal
