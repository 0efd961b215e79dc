import Marshal.Proofs.Converter.Decoding
import Marshal.Proofs.Lists

/-!
# Elements and entries

The elements of a list and the entries of a map that is read, one by one (`items?_eq_some`, `named?_eq_some`,
`pairs?_eq_some`): each comes from the element of the array, or the entry of the object, in the same place, and no two
keys have the same text.  The codecs for maps read either form (`eq_none_or_exists_of_map?`).
-/

namespace Marshal

open Reader (pair?)

/-- Nothing is found in an empty list of bindings. -/
def unbound : Nat → Document → Option (Option Value) := fun _ _ => none

/-- What is read of a document, or null. -/
def ReadAs (read : Document → Option (Option Value)) (j : Document) (v : Value) : Prop :=
  ∃ u, read j = some u ∧ v = .orNull u

variable {item key value : Document → Option (Option Value)}

theorem items?_eq_some {js : List Document} {vs : List Value} :
    items? item js = some vs ↔ List.Forall₂ (ReadAs item) js vs := by
  have hread : (fun j v => (item j).map Value.orNull = some v) = ReadAs item := by
    funext j v
    rw [Option.map_eq_some_iff, ReadAs]
    exact propext (exists_congr fun u => and_congr_right fun _ => eq_comm)
  rw [items?, mapM_eq_some, hread]

theorem distinct?_eq_some {xs : List (String × Value × Value)} {kvs : List (Value × Value)} :
    distinct? xs = some kvs ↔ (xs.map (·.1)).Nodup ∧ kvs = xs.map (·.2) := by
  rw [distinct?, Option.ite_none_right_eq_some, Option.some.injEq, eq_comm (a := kvs)]

/-- Entries are collected if no two keys have the same text. -/
private theorem collected_eq_some {α : Type} {f : α → Option (String × Value × Value)} {R : α → Value × Value → Prop}
    (hf : ∀ a identity e, f a = some (identity, e) ↔ R a e ∧ identity = e.1.display) {as : List α}
    {kvs : List (Value × Value)} :
    (as.mapM f).bind distinct? = some kvs ↔ List.Forall₂ R as kvs ∧ (kvs.map (·.1.display)).Nodup := by
  let told (e : Value × Value) : String × Value × Value := (e.1.display, e)
  constructor
  · intro h
    obtain ⟨xs, hxs, hdistinct⟩ := Option.bind_eq_some_iff.1 h
    have hall := mapM_eq_some.1 hxs
    obtain ⟨hnodup, rfl⟩ := distinct?_eq_some.1 hdistinct
    have hidentity : xs.map (·.1) = (xs.map (·.2)).map (·.1.display) := by
      rw [List.map_map]
      refine List.map_congr_left fun x hx => ?_
      obtain ⟨a, -, ha⟩ := forall₂_of_mem_right hall hx
      exact ((hf a x.1 x.2).1 ha).2
    rw [← hidentity]
    exact ⟨List.forall₂_map_right_iff.2 (hall.imp fun a x ha => ((hf a x.1 x.2).1 ha).1), hnodup⟩
  · rintro ⟨hall, hnodup⟩
    have hxs : as.mapM f = some (kvs.map told) :=
      mapM_eq_some.2 (List.forall₂_map_right_iff.2 (hall.imp fun a e ha => (hf a _ e).2 ⟨ha, rfl⟩))
    have hnodup' : ((kvs.map told).map (·.1)).Nodup := by rwa [List.map_map]
    have hkvs : kvs = (kvs.map told).map (·.2) := by
      rw [List.map_map]
      exact (List.map_id kvs).symm
    rw [hxs, Option.bind_some]
    exact distinct?_eq_some.2 ⟨hnodup', hkvs⟩

/-- The key is read off the name. -/
def NamedReadAs (key value : Document → Option (Option Value)) (e : String × Document) (kv : Value × Value) : Prop :=
  ReadAs key (.string e.1) kv.1 ∧ ReadAs value e.2 kv.2

theorem named?_eq_some {es : List (String × Document)} {kvs : List (Value × Value)} :
    named? key value es = some kvs ↔ List.Forall₂ (NamedReadAs key value) es kvs ∧ (kvs.map (·.1.display)).Nodup := by
  refine collected_eq_some fun e identity kv => ?_
  constructor
  · intro h
    obtain ⟨k, hk, h⟩ := Option.bind_eq_some_iff.1 h
    obtain ⟨v, hv, heq⟩ := Option.map_eq_some_iff.1 h
    obtain ⟨rfl, rfl⟩ := Prod.mk.inj heq
    exact ⟨⟨⟨k, hk, rfl⟩, ⟨v, hv, rfl⟩⟩, rfl⟩
  · obtain ⟨k, v⟩ := kv
    rintro ⟨⟨⟨u, hu, rfl⟩, ⟨w, hw, rfl⟩⟩, rfl⟩
    rw [hu, hw]
    rfl

/-- The key and the value are the elements of an array of two. -/
inductive PairReadAs (key value : Document → Option (Option Value)) : Document → Value × Value → Prop
  | mk {i j : Document} {k v : Value} (hk : ReadAs key i k) (hv : ReadAs value j v) : PairReadAs key value
      (.array [i, j]) (k, v)

theorem pairs?_eq_some {js : List Document} {kvs : List (Value × Value)} :
    pairs? key value js = some kvs ↔ List.Forall₂ (PairReadAs key value) js kvs ∧ (kvs.map (·.1.display)).Nodup := by
  refine collected_eq_some fun j identity kv => ?_
  constructor
  · intro h
    unfold pair? at h
    split at h
    · obtain ⟨k, hk, h⟩ := Option.bind_eq_some_iff.1 h
      obtain ⟨v, hv, h⟩ := Option.bind_eq_some_iff.1 h
      obtain ⟨rfl, rfl⟩ := Prod.mk.inj (Option.some.inj h)
      exact ⟨.mk ⟨k, hk, rfl⟩ ⟨v, hv, rfl⟩, rfl⟩
    · cases h
  · rintro ⟨⟨⟨u, hu, rfl⟩, ⟨w, hw, rfl⟩⟩, rfl⟩
    rw [pair?, hu, Option.bind_some, hw]
    rfl

/-! ### Maps -/

/-- A map is read off an object by the names there, or off an array of pairs; nothing else is a map. -/
def map? (key value : Document → Option (Option Value)) : Document → Option (Option Value)
  | .object es => (named? key value es).map fun kvs => some (.map kvs)
  | .array js => (pairs? key value js).map fun kvs => some (.map kvs)
  | _ => some none

/-- The entries of a map are read off the document, in one form or the other. -/
inductive EntriesReadAs (key value : Document → Option (Option Value)) : Document → List (Value × Value) → Prop
  | named {es : List (String × Document)} {kvs : List (Value × Value)} (h : named? key value es = some kvs) :
    EntriesReadAs key value (.object es) kvs
  | pairs {js : List Document} {kvs : List (Value × Value)} (h : pairs? key value js = some kvs) :
    EntriesReadAs key value (.array js) kvs

theorem eq_none_or_exists_of_map? {j : Document} {u : Option Value} (h : map? key value j = some u) :
    u = none ∨ ∃ kvs, u = some (.map kvs) ∧ EntriesReadAs key value j kvs := by
  cases j with
  | object es =>
    obtain ⟨kvs, hkvs, rfl⟩ := Option.map_eq_some_iff.1 h
    exact .inr ⟨kvs, rfl, .named hkvs⟩
  | array js =>
    obtain ⟨kvs, hkvs, rfl⟩ := Option.map_eq_some_iff.1 h
    exact .inr ⟨kvs, rfl, .pairs hkvs⟩
  | null | bool | string | number => exact .inl (Option.some.inj h).symm

theorem EntriesReadAs.nodup {j : Document} {kvs : List (Value × Value)} (h : EntriesReadAs key value j kvs) :
    (kvs.map (·.1.display)).Nodup := by
  cases h with
  | named h => exact (named?_eq_some.1 h).2
  | pairs h => exact (pairs?_eq_some.1 h).2

namespace Codec

variable {call : Nat → Document → Option (Option Value)} {kind : NativeKind} {k c : Codec} {i : Instantiator}

theorem ofDocument?_objectMap :
    (objectMap kind c i).ofDocument? call = map? kind.ofDocument? (c.ofDocument? call) := by
  funext j
  cases j <;> rfl

theorem ofDocument?_pairMap : (pairMap k c i).ofDocument? call = map? (k.ofDocument? call) (c.ofDocument? call) := by
  funext j
  cases j <;> rfl

end Codec

end Marshal
