import Marshal.Proofs.Converter.Entries
import Marshal.Proofs.Converter.Writing
import Marshal.Proofs.Plan.Plans

/-!
# Parts of what is read

Values that are read without an adapter have no objects inside them (`NativeKind.flat_of_ofDocument?`), and what a
codec is to write it hands to the bindings that have read it (`Codec.exists_read`): whatever object stands inside a
value that a codec has read was read by one of its bindings (`Codec.exists_hands`).
-/

namespace Marshal

/-! ### Lists and maps -/

section Containers

variable {item key value : Document → Option (Option Value)}

/-- The elements of a list were read, or are null. -/
private theorem exists_of_items? {js : List Document} {vs : List Value} (h : items? item js = some vs) {v : Value}
    (hv : v ∈ vs) : ∃ j u, item j = some u ∧ v = Value.orNull u := by
  obtain ⟨j, -, hj⟩ := forall₂_of_mem_right (items?_eq_some.1 h) hv
  exact ⟨j, hj⟩

/-- The key and the value of an entry were read, or are null. -/
structure Entered (key value : Document → Option (Option Value)) (e : Value × Value) : Prop where
  key : ∃ j u, key j = some u ∧ e.1 = Value.orNull u
  value : ∃ j u, value j = some u ∧ e.2 = Value.orNull u

theorem EntriesReadAs.entered {j : Document} {kvs : List (Value × Value)} (h : EntriesReadAs key value j kvs)
    {e : Value × Value} (he : e ∈ kvs) : Entered key value e := by
  cases h with
  | named h =>
    obtain ⟨p, -, hkey, hvalue⟩ := forall₂_of_mem_right (named?_eq_some.1 h).1 he
    exact ⟨⟨_, hkey⟩, ⟨_, hvalue⟩⟩
  | pairs h =>
    obtain ⟨j, -, hj⟩ := forall₂_of_mem_right (pairs?_eq_some.1 h).1 he
    cases hj with
    | mk hkey hvalue => exact ⟨⟨_, hkey⟩, ⟨_, hvalue⟩⟩

/-- The entries of a map were read. -/
private theorem exists_of_map? {j : Document} {v : Value} (h : map? key value j = some (some v)) :
    ∃ entries, v = .map entries ∧ ∀ e ∈ entries, Entered key value e := by
  obtain ⟨entries, heq, hread⟩ := (eq_none_or_exists_of_map? h).resolve_left nofun
  exact ⟨entries, Option.some.inj heq, fun e he => hread.entered he⟩

end Containers

/-! ### Values without objects -/

namespace Value

mutual

/-- A value of any shape has no objects in it: the objects of a document are maps. -/
theorem flat_of_ofDocument? : ∀ (j : Document) (v : Value), ofDocument? j = some (some v) → v.Flat
  | .null, v, h => by cases h
  | .bool b, v, h => by
    obtain rfl := Option.some.inj (Option.some.inj h)
    exact flat_of_isLeaf rfl
  | .string s, v, h => by
    obtain rfl := Option.some.inj (Option.some.inj h)
    exact flat_of_isLeaf rfl
  | .number lexeme, v, h => by
    obtain ⟨w, hw, heq⟩ := Option.map_eq_some_iff.1 h
    obtain rfl := Option.some.inj heq
    unfold ofLexeme? at hw
    split at hw
    · obtain rfl := Option.some.inj hw
      exact flat_of_isLeaf rfl
    · split at hw
      · obtain rfl := Option.some.inj hw
        exact flat_of_isLeaf rfl
      · obtain ⟨x, -, rfl⟩ := Option.map_eq_some_iff.1 hw
        exact flat_of_isLeaf rfl
  | .array js, v, h => by
    obtain ⟨vs, hvs, heq⟩ := Option.map_eq_some_iff.1 h
    obtain rfl := Option.some.inj heq
    exact flat_list (flat_of_ofItems? js vs hvs)
  | .object es, v, h => by
    obtain ⟨kvs, hkvs, heq⟩ := Option.map_eq_some_iff.1 h
    obtain rfl := Option.some.inj heq
    obtain ⟨entries, hentries, hkvs⟩ := Option.bind_eq_some_iff.1 hkvs
    rw [(distinct?_eq_some.1 hkvs).2]
    have hflat := flat_of_ofEntries? es entries hentries
    refine flat_map ?_ ?_
    · exact List.forall_mem_map.2 fun e he => (hflat e he).1
    · exact List.forall_mem_map.2 fun e he => (hflat e he).2

private theorem flat_of_ofItems? : ∀ (js : List Document) (vs : List Value), ofItems? js = some vs → ∀ v ∈ vs, v.Flat
  | [], vs, h => by
    obtain rfl : [] = vs := Option.some.inj h
    exact nofun
  | j :: js, vs, h => by
    obtain ⟨v, hv, h⟩ := Option.bind_eq_some_iff.1 h
    obtain ⟨vs', hvs', h⟩ := Option.bind_eq_some_iff.1 h
    obtain rfl := Option.some.inj h
    refine List.forall_mem_cons.2 ⟨flat_orNull fun u hu => ?_, flat_of_ofItems? js vs' hvs'⟩
    exact flat_of_ofDocument? j u (hu ▸ hv)

private theorem flat_of_ofEntries? : ∀ (es : List (String × Document)) (kvs : List (String × Value × Value)),
    ofEntries? es = some kvs → ∀ e ∈ kvs, e.2.1.Flat ∧ e.2.2.Flat
  | [], kvs, h => by
    obtain rfl : [] = kvs := Option.some.inj h
    exact nofun
  | (name, j) :: es, kvs, h => by
    obtain ⟨v, hv, h⟩ := Option.bind_eq_some_iff.1 h
    obtain ⟨kvs', hkvs', h⟩ := Option.bind_eq_some_iff.1 h
    obtain rfl := Option.some.inj h
    refine List.forall_mem_cons.2 ⟨⟨flat_of_isLeaf rfl, flat_orNull fun u hu => ?_⟩,
      flat_of_ofEntries? es kvs' hkvs'⟩
    exact flat_of_ofDocument? j u (hu ▸ hv)

end

end Value

namespace NativeKind

private theorem FromText.isLeaf {kind : NativeKind} {v : Value} (h : kind.FromText v) : v.isLeaf = true := by
  cases h <;> rfl

theorem flat_of_ofDocument? {kind : NativeKind} {j : Document} {v : Value} (h : kind.ofDocument? j = some (some v)) :
    v.Flat := by
  unfold ofDocument? at h
  split at h
  · cases h
  · exact Value.flat_of_ofDocument? j v h
  · obtain rfl := Option.some.inj (Option.some.inj h)
    exact Value.flat_of_isLeaf rfl
  · obtain ⟨w, hw, heq⟩ := Option.map_eq_some_iff.1 h
    obtain rfl := Option.some.inj heq
    obtain ⟨text, -, htext⟩ := Option.bind_eq_some_iff.1 hw
    exact Value.flat_of_isLeaf (fromText_of_ofText? htext).isLeaf

end NativeKind

/-! ### Codecs -/

/-- Whether an attached converter takes over. -/
def Codec.isTakenOver : Codec → Bool
  | attached .. | split .. => true
  | _ => false

private theorem Codes.any_isTakenOver {bs : List Binding} {runtime : Bool} {ty : TypeRef} {c : Codec}
    (h : Codes bs runtime ty c) : c.any Codec.isTakenOver = false := by
  induction h with
  | native | binding | dynamic => rfl
  | list _ _ ih | objectMap _ _ _ ih => simpa [Codec.any, Codec.isTakenOver] using ih
  | pairMap _ _ _ _ ihk ihv => simp [Codec.any, Codec.isTakenOver, ihk, ihv]

theorem Plans.any_isTakenOver {bs : List Binding} {f : Field} {c : Codec} (h : Plans bs f c) :
    c.any Codec.isTakenOver = false := by
  cases h with
  | declared _ hcodes => exact hcodes.any_isTakenOver
  | runtime _ hcodes => simpa [Codec.any, Codec.isTakenOver] using hcodes.any_isTakenOver

namespace Codec

variable {call : Nat → Document → Option (Option Value)}

private theorem Hands.ne_null {c : Codec} {v u : Value} {i : Nat} (h : c.Hands v i u) : v ≠ .null := by
  induction h with
  | binding hv | attached hv => exact hv
  | declared _ ih | write _ ih => exact ih
  | item | entry | key | value => exact nofun

/-- The elements of a list were read. -/
private theorem ofDocument?_sequence {c : Codec} {inst : Instantiator} {j : Document} {v : Value}
    (h : (sequence c inst).ofDocument? call j = some (some v)) :
    ∃ items, v = .list items ∧ ∀ item ∈ items, ∃ j u, c.ofDocument? call j = some u ∧ item = Value.orNull u := by
  cases j with
  | array js =>
    obtain ⟨items, hitems, heq⟩ := Option.map_eq_some_iff.1 h
    exact ⟨items, (Option.some.inj heq).symm, fun item hitem => exists_of_items? hitems hitem⟩
  | _ => cases h

/-- What a codec hands on of a value that it has read was read by the binding that it is handed to. -/
theorem exists_read {c : Codec} {v : Value} {i : Nat} {u : Value} (hhands : c.Hands v i u)
    (hc : c.any isTakenOver = false) {j : Document} (h : c.ofDocument? call j = some (some v)) :
    ∃ j', call i j' = some (some u) := by
  induction hhands generalizing j with
  | binding => exact ⟨j, h⟩
  | attached | write => cases hc
  | declared _ ih => exact ih (by simpa [Codec.any, isTakenOver] using hc) h
  | item hv hhands ih =>
    obtain ⟨items, ⟨⟩, hread⟩ := ofDocument?_sequence h
    obtain ⟨j', w, hw, heq⟩ := hread _ hv
    rw [Value.eq_some_of_orNull heq hhands.ne_null] at hw
    exact ih (by simpa [Codec.any, isTakenOver] using hc) hw
  | entry he hhands ih =>
    rw [ofDocument?_objectMap] at h
    obtain ⟨entries, ⟨⟩, hread⟩ := exists_of_map? h
    obtain ⟨j', w, hw, heq⟩ := (hread _ he).value
    rw [Value.eq_some_of_orNull heq hhands.ne_null] at hw
    exact ih (by simpa [Codec.any, isTakenOver] using hc) hw
  | key he hhands ih =>
    rw [ofDocument?_pairMap] at h
    obtain ⟨entries, ⟨⟩, hread⟩ := exists_of_map? h
    obtain ⟨j', w, hw, heq⟩ := (hread _ he).key
    rw [Value.eq_some_of_orNull heq hhands.ne_null] at hw
    simp only [Codec.any, isTakenOver, Bool.or_eq_false_iff, Bool.false_or] at hc
    exact ih hc.1 hw
  | value he hhands ih =>
    rw [ofDocument?_pairMap] at h
    obtain ⟨entries, ⟨⟩, hread⟩ := exists_of_map? h
    obtain ⟨j', w, hw, heq⟩ := (hread _ he).value
    rw [Value.eq_some_of_orNull heq hhands.ne_null] at hw
    simp only [Codec.any, isTakenOver, Bool.or_eq_false_iff, Bool.false_or] at hc
    exact ih hc.2 hw

/-- An object inside a value that a codec has read stands inside a part that the codec hands on. -/
theorem exists_hands {c : Codec} (hc : c.any isTakenOver = false) {j : Document} {v : Value}
    (h : c.ofDocument? call j = some (some v)) {ty : TypeRef} {fields : Fields}
    (hin : (Value.object ty fields).Inside v) : ∃ i u, c.Hands v i u ∧ (Value.object ty fields).Inside u := by
  induction c generalizing j v with
  | native kind => exact absurd hin (NativeKind.flat_of_ofDocument? h ty fields)
  | binding index => exact ⟨index, v, .binding hin.ne_null, hin⟩
  | dynamic => exact absurd hin (Value.flat_of_ofDocument? j v h ty fields)
  | attached | split => cases hc
  | runtimeType declared ih =>
    obtain ⟨i, u, hu, hin⟩ := ih (by simpa [Codec.any, isTakenOver] using hc) h hin
    exact ⟨i, u, .declared hu, hin⟩
  | sequence element inst ih =>
    obtain ⟨items, rfl, hread⟩ := ofDocument?_sequence h
    cases hin with
    | item hv hin =>
      obtain ⟨j', w, hw, heq⟩ := hread _ hv
      rw [Value.eq_some_of_orNull heq hin.ne_null] at hw
      obtain ⟨i, u, hu, hin⟩ := ih (by simpa [Codec.any, isTakenOver] using hc) hw hin
      exact ⟨i, u, .item hv hu, hin⟩
  | objectMap kind value inst ih =>
    rw [ofDocument?_objectMap] at h
    obtain ⟨entries, rfl, hread⟩ := exists_of_map? h
    cases hin with
    | @key e _ he hin =>
      obtain ⟨j', w, hw, heq⟩ := (hread e he).key
      rw [Value.eq_some_of_orNull heq hin.ne_null] at hw
      exact absurd hin (NativeKind.flat_of_ofDocument? hw ty fields)
    | @value e _ he hin =>
      obtain ⟨j', w, hw, heq⟩ := (hread e he).value
      rw [Value.eq_some_of_orNull heq hin.ne_null] at hw
      obtain ⟨i, u, hu, hin⟩ := ih (by simpa [Codec.any, isTakenOver] using hc) hw hin
      exact ⟨i, u, .entry he hu, hin⟩
  | pairMap key value inst ihk ihv =>
    simp only [Codec.any, isTakenOver, Bool.or_eq_false_iff, Bool.false_or] at hc
    rw [ofDocument?_pairMap] at h
    obtain ⟨entries, rfl, hread⟩ := exists_of_map? h
    cases hin with
    | @key e _ he hin =>
      obtain ⟨j', w, hw, heq⟩ := (hread e he).key
      rw [Value.eq_some_of_orNull heq hin.ne_null] at hw
      obtain ⟨i, u, hu, hin⟩ := ihk hc.1 hw hin
      exact ⟨i, u, .key he hu, hin⟩
    | @value e _ he hin =>
      obtain ⟨j', w, hw, heq⟩ := (hread e he).value
      rw [Value.eq_some_of_orNull heq hin.ne_null] at hw
      obtain ⟨i, u, hu, hin⟩ := ihv hc.2 hw hin
      exact ⟨i, u, .value he hu, hin⟩

end Codec

end Marshal
