import Marshal.Proofs.Adapter.Encoding
import Marshal.Proofs.Converter.Entries
import Marshal.Proofs.Stream.Nesting

/-!
# What converters make of documents

The value that a converter reads off a document, as a function of the document (`Converter.ofDocument?`): `none` if
the document is refused, `some none` if it reads as absent.  Reading decides every value so
(`Converter.decides_read`), and a text is read as the document that it spells (`Converter.toOption_fromJson`).
-/

namespace Marshal

open Effect Reader
open StructAdapter (readValue)

/-! ### Adapters -/

/-- The value of a document for an enumeration: the constant that it names, if there is one. -/
def EnumAdapter.ofDocument? (a : EnumAdapter) (j : Document) : Option Value :=
  j.text?.bind fun name => (a.constant? name).map (.enum a.target)

/-- What an entry of an object does to the field it is for. -/
inductive FieldChange where
  /-- The value is of a kind that is not accepted. -/
  | keep
  | clear
  | set (v : Value)

def FieldChange.apply (name : String) (fields : Fields) : FieldChange → Fields
  | keep => fields
  | clear => fields.remove name
  | set v => fields.set name v

/-- What the value of an entry does to a field. -/
def FieldRead.change? (call : Nat → Document → Option (Option Value)) (f : FieldRead) (j : Document) :
    Option FieldChange :=
  if j.kind = .null && !f.codec.readsNull then some .clear
  else if !f.accepts.isEmpty && !f.accepts.contains j.kind then some .keep
  else (f.codec.ofDocument? call j).map fun v => v.elim .clear .set

namespace ReadProcedure

/-- The fields of an object with one more entry.  An entry of an unknown name does nothing. -/
def entry? (p : ReadProcedure) (call : Nat → Document → Option (Option Value)) (fields : Fields) (name : String)
    (j : Document) : Option Fields :=
  match p.field? name with
  | none => some fields
  | some f => (f.change? call j).map (·.apply f.name fields)

/-- The fields of an object. -/
def fields? (p : ReadProcedure) (call : Nat → Document → Option (Option Value)) (es : List (String × Document)) :
    Option Fields :=
  es.foldlM (fun fields e => p.entry? call fields e.1 e.2) []

/-- The value of a document for a structure.  A field that must be present and is not refuses it. -/
def ofDocument? (p : ReadProcedure) (target : TypeRef) (call : Nat → Document → Option (Option Value)) :
    Document → Option (Option Value)
  | .object es => (p.fields? call es).bind fun fields =>
      if (p.missing? fields).isNone then some (some (.object target fields)) else none
  | _ => some none

end ReadProcedure

/-! ### Converters -/

namespace Converter

/-- What the binding at a position makes of a document. -/
def callOf (read : Converter → Document → Option (Option Value)) (bindings : List Converter) (index : Nat)
    (j : Document) : Option (Option Value) :=
  match bindings[index]? with
  | some c => read c j
  | none => none

/-- The value of a document for a converter.  Code of the caller's own is not looked into. -/
def ofDocument? (delegates : Delegates) : (fuel : Nat) → Converter → Document → Option (Option Value)
  | 0, _, _ => none
  | fuel + 1, c, j =>
    match c with
    | native _ kind => kind.ofDocument? j
    | dynamic .. => Value.ofDocument? j
    | codec _ c bindings => c.ofDocument? (callOf (ofDocument? delegates fuel) bindings) j
    | enum _ adapter => some (adapter.ofDocument? j)
    | struct _ adapter target bindings _ =>
      adapter.read.ofDocument? target (callOf (ofDocument? delegates fuel) bindings) j
    | placeholder id _ =>
      match delegates.find? id with
      | some c => ofDocument? delegates fuel c j
      | none => none
    | custom .. => none

end Converter

/-! ### Reading with adapters -/

private theorem EnumAdapter.decides_read (a : EnumAdapter) (j : Document) :
    Decides a.read j (some (a.ofDocument? j)) := by
  refine decides_peek ?_
  cases j with
  | string name =>
    exact (decides_nextString (.string name)).map fun name => (a.constant? name).map (Value.enum a.target)
  | number name =>
    exact (decides_nextString (.number name)).map fun name => (a.constant? name).map (Value.enum a.target)
  | null | bool _ | array _ | object _ => exact decides_skipMismatched _

namespace ReadProcedure

variable {call : Nat → ReadM (Option Value)} {callOf : Nat → Document → Option (Option Value)}

/-- The value of an entry decides what becomes of the fields. -/
private theorem decides_entry (p : ReadProcedure) (hcall : ∀ i j, Decides (call i) j (callOf i j))
    (hframed : ∀ i, Framed (call i)) (fields : Fields) (name : String) (j : Document) :
    Decides (readValue p call fields name) j (p.entry? callOf fields name j) := by
  unfold entry? readValue
  cases p.field? name with
  | none => exact (decides_skipValue j).bind fun _ => settles_pure fields
  | some f =>
    refine decides_peek ?_
    dsimp only
    unfold FieldRead.change?
    by_cases hnull : (decide (j.kind = .null) && !f.codec.readsNull) = true
    · rw [if_pos hnull, if_pos hnull]
      have hj : j = .null := by cases j <;> simp [Document.kind] at hnull ⊢
      subst hj
      exact decides_nextNull.bind fun _ => settles_pure _
    rw [if_neg hnull, if_neg hnull]
    by_cases haccepts : (!f.accepts.isEmpty && !f.accepts.contains j.kind) = true
    · rw [if_pos haccepts, if_pos haccepts]
      exact (decides_skipValue j).bind fun _ => settles_pure _
    · rw [if_neg haccepts, if_neg haccepts]
      refine ((f.codec.decides_readWith hcall hframed j).bind (g := fun v =>
        some ((v.elim FieldChange.clear .set).apply f.name fields)) fun v => ?_).congr ?_
      · cases v <;> exact settles_pure _
      · cases f.codec.ofDocument? callOf j <;> rfl

private theorem decides_read (p : ReadProcedure) (target : TypeRef) (hcall : ∀ i j, Decides (call i) j (callOf i j))
    (hframed : ∀ i, Framed (call i)) (j : Document) :
    Decides (p.read target call) j (p.ofDocument? target callOf j) := by
  refine decides_peek ?_
  cases j with
  | object es =>
    refine decides_object (fun fields e _ => p.decides_entry hcall hframed fields e.1 e.2) (fun fields => ?_) []
    cases p.missing? fields with
    | none => exact settles_pure _
    | some name => exact settles_throw _
  | null | bool _ | string _ | number _ | array _ => exact decides_skipMismatched _

end ReadProcedure

/-! ### Reading with converters -/

namespace Converter

theorem decides_read {delegates : Delegates} (hd : ∀ d ∈ delegates, d.2.Plain) :
    ∀ (fuel : Nat) (c : Converter), c.Plain →
    ∀ j, Decides (c.read delegates fuel) j (c.ofDocument? delegates fuel j) := by
  intro fuel
  induction fuel with
  | zero => exact fun c _ j => (settles_throw _).decides_none
  | succ fuel ih =>
    intro c hc j
    -- a binding decides a value as its converter does, with less fuel
    have hcall {bindings : List Converter} (hb : ∀ b ∈ bindings, b.Plain) (i : Nat) (j : Document) :
        Decides (callBinding (read delegates fuel) bindings i) j
          (callOf (ofDocument? delegates fuel) bindings i j) := by
      unfold callBinding callOf
      cases hi : bindings[i]? with
      | none => exact (settles_throw _).decides_none
      | some b => exact ih b (hb b (List.mem_of_getElem? hi)) j
    have hframed {bindings : List Converter} (hb : ∀ b ∈ bindings, b.Plain) (i : Nat) :
        Framed (callBinding (read delegates fuel) bindings i) :=
      framed_callBinding (fun b hm => framed_read hd fuel b (hb b hm)) i
    cases hc with
    | native id kind => exact kind.decides_read j
    | dynamic id linked => exact Value.decides_readAny j
    | codec id c hb => exact c.decides_readWith (hcall hb) (hframed hb) j
    | enum id adapter => exact adapter.decides_read j
    | struct id adapter target linked hb => exact adapter.read.decides_read target (hcall hb) (hframed hb) j
    | placeholder id ty =>
      rw [read, ofDocument?]
      cases hf : delegates.find? id with
      | none => exact (settles_throw _).decides_none
      | some c => exact ih c (hd _ (Delegates.mem_of_find? hf)) j

/-- Where a text that spells a document begins, the document stands, if it does not nest too deep. -/
private theorem exists_at {d : Dialect} {j : Document} {text : List Char} (h : d.SpellsDocument j text) :
    ∃ b o s, Dialect.loose.Blank b ∧ d.Spells (.value j) s ∧
      peek (ofText text) = .ok j.kind ⟨⟨s ++ b, o⟩, true, [], some j.kind⟩ ∧ Reader.Follows b := by
  obtain ⟨hb, hj, hb'⟩ := h
  obtain ⟨c, s, rfl, hc⟩ := hj.head
  exact ⟨_, _, _, hb'.loose, hj, (Scans.document hb.loose hc).peek_eq, follows_of_blank hb'⟩

theorem at_ofText {d : Dialect} {j : Document} {text : List Char} (h : d.SpellsDocument j text)
    (hdepth : j.depth ≤ maxDepth) : ∃ b, Dialect.loose.Blank b ∧ At ⟨b, true, []⟩ j (ofText text) := by
  obtain ⟨b, o, s, hb, hs, hpeek, hfollows⟩ := exists_at h
  exact ⟨b, hb, ⟨d, s, o, hs, hpeek⟩, hfollows, by simpa using hdepth⟩

/-- A text is read as the document that it spells, in any dialect; a document that nests too deep is refused. -/
theorem toOption_fromJson {delegates : Delegates} (hd : ∀ d ∈ delegates, d.2.Plain) {c : Converter} (hc : c.Plain)
    (fuel : Nat) {d : Dialect} {j : Document} {text : String} (h : d.SpellsDocument j text.toList) :
    (c.fromJson delegates fuel text).toOption = if j.depth ≤
    maxDepth then c.ofDocument? delegates fuel j else none := by
  unfold fromJson readDocument
  by_cases hdepth : j.depth ≤ maxDepth
  · rw [if_pos hdepth]
    obtain ⟨b, hb, hat⟩ := at_ofText h hdepth
    have hgives := decides_read hd fuel c hc j _ _ hat
    cases hv : c.ofDocument? delegates fuel j with
    | none =>
      rw [hv] at hgives
      obtain ⟨e, r', hfail⟩ := hgives
      rw [EStateM.run, bind_of_error hfail]
      rfl
    | some v =>
      rw [hv] at hgives
      obtain ⟨r', hok, o', rfl⟩ := hgives
      rw [EStateM.run, bind_of_ok hok, bind_of_ok (Scans.endDocument hb).peek_eq]
      rfl
  · rw [if_neg hdepth]
    obtain ⟨b, o, s, hb, hs, hpeek, hfollows⟩ := exists_at h
    -- what reads a value could have skipped it
    have hfails : ∃ e r', c.read delegates fuel (ofText text.toList) = .error e r' := by
      obtain ⟨e, r', hskip⟩ :=
        skipValue_too_deep hs hpeek hfollows (Nat.zero_le _) (by simp only [List.length_nil]; omega)
      cases hread : c.read delegates fuel (ofText text.toList) with
      | error e r' => exact ⟨e, r', rfl⟩
      | ok v r' =>
        have hskip' := framed_read hd fuel c hc _ _ _ hread
        rw [hskip] at hskip'
        cases hskip'
    obtain ⟨e, r', hfail⟩ := hfails
    rw [EStateM.run, bind_of_error hfail]
    rfl

theorem fromJson_eq_ok {delegates : Delegates} (hd : ∀ d ∈ delegates, d.2.Plain) {c : Converter} (hc : c.Plain)
    {fuel : Nat} {d : Dialect} {j : Document} {text : String} (h : d.SpellsDocument j text.toList)
    {v : Option Value} :
    c.fromJson delegates fuel text = .ok v ↔ j.depth ≤ maxDepth ∧ c.ofDocument? delegates fuel j = some v := by
  have hok : c.fromJson delegates fuel text = .ok v ↔ (c.fromJson delegates fuel text).toOption = some v := by
    cases c.fromJson delegates fuel text <;> simp [Except.toOption]
  rw [hok, toOption_fromJson hd hc fuel h, Option.ite_none_right_eq_some]

/-- What is read off a text is read off a document that the text spells: what is read could have been skipped. -/
private theorem exists_spelled_of_fromJson {delegates : Delegates} (hd : ∀ d ∈ delegates, d.2.Plain) {c : Converter}
    (hc : c.Plain) {fuel : Nat} {text : String} {v : Option Value} (h : c.fromJson delegates fuel text = .ok v) :
    ∃ j, Dialect.loose.SpellsDocument j text.toList ∧ j.depth ≤ maxDepth ∧ c.ofDocument? delegates fuel j =
      some v := by
  obtain ⟨r, r', hok, hend⟩ := fromJson_ok h
  obtain ⟨j, -, hj⟩ := spells_of_skipValue (framed_read hd fuel c hc _ _ _ hok) hend
  exact ⟨j, hj, (fromJson_eq_ok hd hc hj).1 h⟩

/-! ### Converters without bindings -/

/-- A converter that hands nothing on to others, with what it makes of a document. -/
inductive Leaf : Converter → (Document → Option (Option Value)) → Prop
  | native (id : Nat) (kind : NativeKind) : Leaf (.native id kind) kind.ofDocument?
  | dynamic (id : Nat) (linked : Bool) : Leaf (.dynamic id linked) Value.ofDocument?
  | codec (id : Nat) (c : Codec) : Leaf (.codec id c []) (c.ofDocument? unbound)

namespace Leaf

variable {c : Converter} {read : Document → Option (Option Value)} (hc : c.Leaf read)
  {ds : Delegates} {fuel : Nat} {text : String} {v : Option Value}

include hc

private theorem plain : c.Plain := by
  cases hc with
  | native id kind => exact .native id kind
  | dynamic id linked => exact .dynamic id linked
  | codec id c => exact .codec id c (List.forall_mem_nil _)

private theorem ofDocument?_eq : c.ofDocument? [] 1 = read := by
  cases hc <;> rfl

/-- It needs neither delegates nor fuel. -/
private theorem fromJson_eq (ds : Delegates) (fuel : Nat) (text : String) :
    c.fromJson ds (fuel + 1) text = c.fromJson [] 1 text := by
  cases hc <;> rfl

theorem fromJson_eq_ok {d : Dialect} {j : Document} (h : d.SpellsDocument j text.toList) :
    c.fromJson ds (fuel + 1) text = .ok v ↔ j.depth ≤ maxDepth ∧ read j = some v := by
  rw [hc.fromJson_eq, ← hc.ofDocument?_eq]
  exact Converter.fromJson_eq_ok (List.forall_mem_nil _) hc.plain h

theorem exists_spelled (h : c.fromJson ds (fuel + 1) text = .ok v) :
    ∃ j, Dialect.loose.SpellsDocument j text.toList ∧ j.depth ≤ maxDepth ∧ read j = some v := by
  rw [hc.fromJson_eq] at h
  rw [← hc.ofDocument?_eq]
  exact Converter.exists_spelled_of_fromJson (List.forall_mem_nil _) hc.plain h

end Leaf

end Converter

end Marshal
