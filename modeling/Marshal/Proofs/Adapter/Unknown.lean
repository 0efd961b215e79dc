import Marshal.Proofs.Adapter.Independence

/-!
# Unknown fields

An entry that no field of a structure is recognized by has no effect: with it and without it an object is read alike,
wherever among the other entries it stands, however it is spelled, and whatever its value is
(`Converter.fromJson_inserted`).
-/

namespace Marshal

open Effect Reader

variable {before after : List (String × Document)} {name : String} {j : Document}

/-- One more entry makes an object nest deeper only if its value does. -/
private theorem Document.depth_inserted_le_iff {n : Nat} : (object (before ++ (name, j) :: after)).depth ≤ n + 1 ↔
    j.depth ≤ n ∧ (object (before ++ after)).depth ≤ n + 1 := by
  simp only [depth, Nat.add_le_add_iff_right, entriesDepth_le_iff, List.forall_mem_append, List.forall_mem_cons]
  exact and_left_comm

namespace ReadProcedure

variable {p : ReadProcedure} {call : Nat → Document → Option (Option Value)}

private theorem fields?_inserted (h : p.field? name = none) :
    p.fields? call (before ++ (name, j) :: after) = p.fields? call (before ++ after) := by
  have hentry (fields : Fields) : p.entry? call fields name j = some fields := by
    unfold entry?
    rw [h]
  unfold fields?
  rw [List.foldlM_append, List.foldlM_append]
  congr 1
  funext fields
  rw [List.foldlM_cons, hentry]
  rfl

private theorem ofDocument?_inserted (h : p.field? name = none) (target : TypeRef) :
    p.ofDocument? target call (.object (before ++ (name, j) :: after)) =
      p.ofDocument? target call (.object (before ++ after)) := by
  rw [ofDocument?, ofDocument?, fields?_inserted h]

end ReadProcedure

/-- No other name than those of the declared fields is recognized. -/
private theorem StructAdapter.Serves.field?_eq_none {accessor : Accessor} {d : Declaration} {codecs : List Codec}
    {a : StructAdapter} (h : a.Serves accessor d codecs) (hname : name ∉ d.fields.map Field.serializedName) :
    a.read.field? name = none := by
  rw [ReadProcedure.field?, List.find?_eq_none, h.read]
  intro f hf
  obtain ⟨p, hp, rfl⟩ := List.mem_map.1 hf
  have hmem : p.1.serializedName ∈ d.fields.map Field.serializedName :=
    h.map_zip Field.serializedName ▸ List.mem_map_of_mem hp
  simpa using fun heq : p.1.serializedName = name => hname (heq ▸ hmem)

namespace Converter

variable {delegates : Delegates} {bindings : List Converter} {a : StructAdapter}

/-- Unknown fields are invisible.  If an object has one more entry, anywhere among the others, whose name is not that
of a field and whose value may stand there without nesting too deep, a structure's converter that involves no code of
the caller's own reads the two objects alike. -/
theorem fromJson_inserted {model : Model} {accessor : Accessor} {namePrefix : String} {d : Declaration}
    {catalog catalog' : Catalog} (ha : d.structAdapter model accessor namePrefix catalog = (.ok a, catalog'))
    (hd : ∀ p ∈ delegates, p.2.Plain) (hb : ∀ b ∈ bindings, b.Plain)
    (hname : name ∉ d.fields.map Field.serializedName) (hj : j.depth < maxDepth) {dialect dialect' : Dialect}
    {text text' : String} (htext : dialect.SpellsDocument (.object (before ++ after)) text.toList)
    (htext' : dialect'.SpellsDocument (.object (before ++ (name, j) :: after)) text'.toList) (id fuel : Nat)
    (target : TypeRef) (linked : Bool) (v : Option Value) :
    (struct id a target bindings linked).fromJson delegates fuel text = .ok v ↔
      (struct id a target bindings linked).fromJson delegates fuel text' = .ok v := by
  obtain ⟨codecs, hserves⟩ := Declaration.structAdapter_ok ha
  have hc : (struct id a target bindings linked).Plain := .struct id a target linked hb
  have hdepth : (Document.object (before ++ (name, j) :: after)).depth ≤ maxDepth ↔
      (Document.object (before ++ after)).depth ≤ maxDepth := by
    rw [show maxDepth = 127 + 1 from rfl, Document.depth_inserted_le_iff]
    exact and_iff_right (Nat.le_of_lt_succ hj)
  rw [fromJson_eq_ok hd hc htext, fromJson_eq_ok hd hc htext', hdepth]
  refine and_congr_right fun _ => ?_
  cases fuel with
  | zero => rfl
  | succ fuel => rw [ofDocument?, ofDocument?, ReadProcedure.ofDocument?_inserted (hserves.field?_eq_none hname)]

/-- The items of `itemJson`, with a price among them. -/
def pricedJson : Json := .object [("n", .string ['7']), ("label", .null),
  ("price", .object [("label", .array [.null, .string ['c']])]), ("n", .bool true),
  ("next", .object [("label", .string ['b'])]), ("label", .string ['a'])]

/-- An item has no price, and what is found in one is no label of the item. -/
theorem fromJson_inserted_price :
    let c := struct 1 itemAdapter item.selfType [.placeholder 0 item.selfType] true
    ∃ s, (Registry.ofModules [itemModule] []).resolve 2 item.selfType .empty = .ok c s ∧
      c.fromJson s.delegates 3 (String.ofList pricedJson.text) = .ok (some (.object item.selfType
        [("count", .int 7), ("next", .object item.selfType [("label", .str "b")]), ("label", .str "a")])) := by
  intro c
  obtain ⟨s, hresolve, hdelegates⟩ :
      ∃ s, (Registry.ofModules [itemModule] []).resolve 2 item.selfType .empty = .ok c s ∧
      s.delegates = [(0, c)] := ⟨_, rfl, rfl⟩
  obtain ⟨hd, hcs⟩ := Registry.plain_of_run (List.forall_mem_nil _) (.resolved .start hresolve)
  have hc : c.Plain := hcs c (List.mem_singleton_self c)
  have hb : ∀ b ∈ [placeholder 0 item.selfType], b.Plain := List.forall_mem_singleton.2 (.placeholder 0 _)
  obtain ⟨catalog, hadapter⟩ : ∃ catalog,
      item.structAdapter itemModel AccessStrategy.direct.accessor "type_adapter" .empty =
      (.ok itemAdapter, catalog) := ⟨_, rfl⟩
  have hpriced : Dialect.standard.SpellsDocument (.object ([("n", .string "7"), ("label", .null)] ++
      ("price", .object [("label", .array [.null, .string "c"])]) :: [("n", .bool true),
        ("next", .object [("label", .string "b")]), ("label", .string "a")]))
          (String.ofList pricedJson.text).toList :=
    pricedJson.spellsDocument_text
  refine ⟨s, hresolve, (fromJson_inserted hadapter hd hb (by decide) (by decide) itemJson.spellsDocument_text hpriced
    1 3 item.selfType true _).1 ?_⟩
  exact (fromJson_eq_ok hd hc itemJson.spellsDocument_text).2 ⟨by decide, by rw [hdelegates]; rfl⟩

end Converter

end Marshal
