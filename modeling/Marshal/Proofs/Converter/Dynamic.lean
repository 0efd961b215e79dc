import Marshal.Proofs.Converter.Maps
import Marshal.Proofs.Stream.Within

/-!
# Values of any shape

The dynamic converter takes a text exactly if the text can be skipped as a whole and no object in it repeats a name
(`Converter.exists_fromJson_dynamic_iff`): a document has a value unless a name is repeated
(`Value.exists_ofDocument?_iff`), and only documents that do not nest too deep are skipped.  What it reads off a
document whose numbers are integers it writes as a copy of the document (`Value.exists_copy`), which it reads as the
same value (`Converter.copied_dynamic`).
-/

namespace Marshal

open Effect Reader WriteM
open Dialect (loose)

/-! ### What is taken -/

namespace Value

private theorem exists_ofLexeme? {lexeme : String} (h : isLexeme lexeme.toList = true) :
    ∃ v, ofLexeme? lexeme = some v := by
  have hfloat : (floatText? lexeme.toList).isSome = true := by
    unfold isLexeme at h
    simp only [Bool.and_eq_true] at h
    exact h.2
  unfold ofLexeme?
  cases int64Text? lexeme.toList with
  | some n => exact ⟨_, rfl⟩
  | none =>
    by_cases hint : isIntegerLexeme lexeme.toList = true
    · exact ⟨_, if_pos hint⟩
    · obtain ⟨x, hx⟩ := Option.isSome_iff_exists.1 hfloat
      exact ⟨.float x, (if_neg hint).trans (by rw [hx]; rfl)⟩

/-- What is read of the entries of an object is told by their names. -/
private theorem names_of_ofEntries? : ∀ {es : List (String × Document)} {xs : List (String × Value × Value)},
    ofEntries? es = some xs → xs.map (·.1) = es.map (·.1)
  | [], _, h => by
    obtain rfl := Option.some.inj h
    rfl
  | (name, j) :: es, _, h => by
    obtain ⟨v, -, h⟩ := Option.bind_eq_some_iff.1 h
    obtain ⟨xs, hxs, h⟩ := Option.bind_eq_some_iff.1 h
    obtain rfl := Option.some.inj h
    exact congrArg (name :: ·) (names_of_ofEntries? hxs)

mutual

/-- A document has a value by its shape, unless an object in it repeats a name. -/
theorem exists_ofDocument?_iff : ∀ (j : Document), j.AllNumbers (fun lexeme => isLexeme lexeme.toList = true) →
    ((∃ u, ofDocument? j = some u) ↔ j.Unrepeated)
  | .null, _ | .bool _, _ | .string _, _ => ⟨fun _ => nofun, fun _ => ⟨_, rfl⟩⟩
  | .number lexeme, h => by
    obtain ⟨v, hv⟩ := exists_ofLexeme? (Document.allNumbers_number.1 h)
    exact ⟨fun _ => nofun, fun _ => ⟨_, congrArg (Option.map some) hv⟩⟩
  | .array js, h => by
    rw [Document.unrepeated_array, ← exists_ofItems?_iff js (Document.allNumbers_array.1 h)]
    simp [ofDocument?]
  | .object es, h => by
    rw [Document.unrepeated_object, ← exists_ofEntries?_iff es (Document.allNumbers_object.1 h), ofDocument?]
    constructor
    · rintro ⟨u, hu⟩
      obtain ⟨kvs, hkvs, -⟩ := Option.map_eq_some_iff.1 hu
      obtain ⟨xs, hxs, hdistinct⟩ := Option.bind_eq_some_iff.1 hkvs
      have hnodup := (distinct?_eq_some.1 hdistinct).1
      rw [names_of_ofEntries? hxs] at hnodup
      exact ⟨hnodup, xs, hxs⟩
    · rintro ⟨hnodup, xs, hxs⟩
      rw [← names_of_ofEntries? hxs] at hnodup
      rw [hxs, Option.bind_some, distinct?_eq_some.2 ⟨hnodup, rfl⟩]
      exact ⟨_, rfl⟩

private theorem exists_ofItems?_iff : ∀ (js : List Document),
    (∀ j ∈ js, j.AllNumbers fun lexeme => isLexeme lexeme.toList = true) →
    ((∃ vs, ofItems? js = some vs) ↔ ∀ j ∈ js, j.Unrepeated)
  | [], _ => ⟨fun _ => List.forall_mem_nil _, fun _ => ⟨_, rfl⟩⟩
  | j :: js, h => by
    rw [List.forall_mem_cons] at h
    rw [List.forall_mem_cons, ← exists_ofDocument?_iff j h.1, ← exists_ofItems?_iff js h.2, ofItems?]
    cases ofDocument? j <;> cases ofItems? js <;> simp

private theorem exists_ofEntries?_iff : ∀ (es : List (String × Document)),
    (∀ e ∈ es, e.2.AllNumbers fun lexeme => isLexeme lexeme.toList = true) →
    ((∃ xs, ofEntries? es = some xs) ↔ ∀ e ∈ es, e.2.Unrepeated)
  | [], _ => ⟨fun _ => List.forall_mem_nil _, fun _ => ⟨_, rfl⟩⟩
  | (name, j) :: es, h => by
    rw [List.forall_mem_cons] at h
    rw [List.forall_mem_cons, ← exists_ofDocument?_iff j h.1, ← exists_ofEntries?_iff es h.2, ofEntries?]
    cases ofDocument? j <;> cases ofEntries? es <;> simp

end

end Value

namespace Converter

/-- Reading a value of any shape is skipping it and refusing repeated names: a text is read exactly if it can be
skipped as a whole, and no object anywhere in the document that it spells has two entries of one name. -/
theorem exists_fromJson_dynamic_iff (ds : Delegates) (fuel id : Nat) (linked : Bool) (text : String) :
    (∃ v, (dynamic id linked).fromJson ds (fuel + 1) text = .ok v) ↔
      (∃ r r', skipValue (ofText text.toList) = .ok ⟨⟩ r ∧ peek r = .ok .endDocument r') ∧
        ∀ j, loose.SpellsDocument j text.toList → j.Unrepeated := by
  have hvalue {j : Document} (hj : loose.SpellsDocument j text.toList) :
      (∃ v, Value.ofDocument? j = some v) ↔ j.Unrepeated :=
    Value.exists_ofDocument?_iff j (hj.allNumbers.mono fun _ h => h.isLexeme)
  rw [skipped_iff]
  constructor
  · rintro ⟨v, hv⟩
    obtain ⟨j, hj, hdepth, -⟩ := (Leaf.dynamic id linked).exists_spelled hv
    refine ⟨⟨j, hdepth, hj⟩, fun j' hj' => ?_⟩
    exact (hvalue hj').1 ⟨v, (((Leaf.dynamic id linked).fromJson_eq_ok hj').1 hv).2⟩
  · rintro ⟨⟨j, hdepth, hj⟩, hunrepeated⟩
    obtain ⟨v, hv⟩ := (hvalue hj).2 (hunrepeated j hj)
    exact ⟨v, ((Leaf.dynamic id linked).fromJson_eq_ok hj).2 ⟨hdepth, hv⟩⟩

end Converter

/-! ### Copies -/

/-- There is neither a point nor an exponent in the text of a number. -/
def IsPlain (s : List Char) : Prop := '.' ∉ s ∧ 'e' ∉ s ∧ 'E' ∉ s

private theorem isIntegerLexeme_of_isDigits {s : List Char} (h : isDigits s = true) : isIntegerLexeme s = true := by
  unfold isIntegerLexeme
  split
  · cases (isDigits_iff.1 h).2 '-' List.mem_cons_self
  · exact h

/-- A number with neither a point nor an exponent is an optional minus and digits. -/
private theorem IsPlain.isInteger {s : List Char} (h : IsPlain s) (hlexeme : loose.IsLexeme s) :
    IsNumber s ∧ isIntegerLexeme s = true := by
  obtain ⟨hpoint, hlower, hupper⟩ := h
  have hwhole {t : List Char} (ht : IsMagnitude t) (hsub : t ⊆ s) : isDigits t = true := by
    obtain ⟨hw, hf, he⟩ := ht
    cases hf with
    | digits => exact absurd (hsub (by simp)) hpoint
    | none =>
      cases he with
      | none => simpa using hw.isDigits
      | unsigned hl | signed hl => rcases hl with rfl | rfl <;> simp_all
  cases hlexeme with
  | number h =>
    refine ⟨h, ?_⟩
    cases h with
    | plain ht => exact isIntegerLexeme_of_isDigits (hwhole ht (List.Subset.refl _))
    | minus ht => exact hwhole ht (List.subset_cons_self ..)
  | pointed _ h =>
    obtain ⟨⟩ := h
    simp at hpoint

namespace Value

variable {s : Store} {typed : TypedWriter}

/-- What is written of a value spells a document of the same depth, which has the same value. -/
structure Copied (s : Store) (typed : TypedWriter) (j : Document) (v : Option Value) (c : Json) : Prop where
  writes : Writes s ((orNull v).writeAny typed) c
  depth_eq : c.document.depth = j.depth
  value_eq : ofDocument? c.document = some v

/-- The value of an integer is written as a number with the value. -/
private theorem exists_copy_number {lexeme : String} {v : Value} (hnumber : IsNumber lexeme.toList)
    (hint : isIntegerLexeme lexeme.toList = true) (h : ofLexeme? lexeme = some v) :
    ∃ c, Copied s typed (.number lexeme) (some v) c := by
  unfold ofLexeme? at h
  split at h
  · next n hn =>
    obtain rfl := Option.some.inj h
    refine ⟨.number _ (NativeKind.isNumber_toString n.toInt), writes_number (NativeKind.isNumber_toString n.toInt),
      rfl, ?_⟩
    rw [Json.document, String.ofList_toList, ofDocument?, ofLexeme?, int64Text?_toString]
    rfl
  · next hn =>
    rw [if_pos hint] at h
    obtain rfl := Option.some.inj h
    refine ⟨.number _ hnumber, writes_number hnumber, rfl, ?_⟩
    rw [Json.document, String.ofList_toList, ofDocument?, ofLexeme?, hn]
    simp [hint]

mutual

theorem exists_copy : ∀ (j : Document) {v : Option Value},
    j.AllNumbers (fun lexeme => IsNumber lexeme.toList ∧ isIntegerLexeme lexeme.toList = true) →
    ofDocument? j = some v → ∃ c, Copied s typed j v c
  | .null, _, _, h => by
    obtain rfl := Option.some.inj h
    exact ⟨.null, writes_value rfl, rfl, rfl⟩
  | .bool b, _, _, h => by
    obtain rfl := Option.some.inj h
    exact ⟨.bool b, writes_bool b, rfl, rfl⟩
  | .string t, _, _, h => by
    obtain rfl := Option.some.inj h
    refine ⟨.string t.toList, writes_string t, rfl, ?_⟩
    rw [Json.document, String.ofList_toList, ofDocument?]
  | .number lexeme, _, hnumbers, h => by
    obtain ⟨v, hv, rfl⟩ := Option.map_eq_some_iff.1 h
    obtain ⟨hnumber, hint⟩ := Document.allNumbers_number.1 hnumbers
    exact exists_copy_number hnumber hint hv
  | .array js, _, hnumbers, h => by
    obtain ⟨vs, hvs, rfl⟩ := Option.map_eq_some_iff.1 h
    obtain ⟨cs, hwrites, hdepth, hvalue⟩ := exists_copy_items js (Document.allNumbers_array.1 hnumbers) hvs
    refine ⟨.array cs, writes_array hwrites, ?_, ?_⟩
    · rw [Json.document, Document.depth, Document.depth, hdepth]
    · rw [Json.document, ofDocument?, hvalue, Option.map_some]
  | .object es, _, hnumbers, h => by
    obtain ⟨kvs, hkvs, rfl⟩ := Option.map_eq_some_iff.1 h
    obtain ⟨xs, hxs, hdistinct⟩ := Option.bind_eq_some_iff.1 hkvs
    obtain ⟨cs, htexts, hwrites, hdepth, hvalue⟩ := exists_copy_entries es (Document.allNumbers_object.1 hnumbers) hxs
    obtain ⟨-, rfl⟩ := distinct?_eq_some.1 hdistinct
    refine ⟨.object cs, ?_, ?_, ?_⟩
    · rw [orNull, writeAny, if_pos htexts]
      exact writes_object hwrites
    · rw [Json.document, Document.depth, Document.depth, hdepth]
    · rw [Json.document, ofDocument?, hvalue, Option.bind_some, hdistinct, Option.map_some]

private theorem exists_copy_items : ∀ (js : List Document) {vs : List Value},
    (∀ j ∈ js, j.AllNumbers fun lexeme => IsNumber lexeme.toList ∧ isIntegerLexeme lexeme.toList = true) →
    ofItems? js = some vs → ∃ cs, WritesItems s (writeItems typed vs) cs ∧
      Document.itemsDepth (Json.itemsDocuments cs) = Document.itemsDepth js ∧
      ofItems? (Json.itemsDocuments cs) = some vs
  | [], _, _, h => by
    obtain rfl := Option.some.inj h
    exact ⟨[], writesItems_nil, rfl, rfl⟩
  | j :: js, _, hnumbers, h => by
    rw [List.forall_mem_cons] at hnumbers
    obtain ⟨v, hv, h⟩ := Option.bind_eq_some_iff.1 h
    obtain ⟨vs, hvs, h⟩ := Option.bind_eq_some_iff.1 h
    obtain rfl := Option.some.inj h
    obtain ⟨c, hc⟩ := exists_copy j hnumbers.1 hv
    obtain ⟨cs, hwrites, hdepth, hvalue⟩ := exists_copy_items js hnumbers.2 hvs
    refine ⟨c :: cs, hc.writes.item.append hwrites, ?_, ?_⟩
    · rw [Json.itemsDocuments, Document.itemsDepth, Document.itemsDepth, hc.depth_eq, hdepth]
    · simp [Json.itemsDocuments, ofItems?, hc.value_eq, hvalue]

private theorem exists_copy_entries : ∀ (es : List (String × Document)) {xs : List (String × Value × Value)},
    (∀ e ∈ es, e.2.AllNumbers fun lexeme => IsNumber lexeme.toList ∧ isIntegerLexeme lexeme.toList = true) →
    ofEntries? es = some xs → ∃ cs, haveTexts (xs.map (·.2)) = true ∧
      WritesEntries s (writeNamed typed (xs.map (·.2))) cs ∧
      Document.entriesDepth (Json.entriesDocuments cs) = Document.entriesDepth es ∧
      ofEntries? (Json.entriesDocuments cs) = some xs
  | [], _, _, h => by
    obtain rfl := Option.some.inj h
    exact ⟨[], rfl, writesEntries_nil, rfl, rfl⟩
  | (name, j) :: es, _, hnumbers, h => by
    rw [List.forall_mem_cons] at hnumbers
    obtain ⟨v, hv, h⟩ := Option.bind_eq_some_iff.1 h
    obtain ⟨xs, hxs, h⟩ := Option.bind_eq_some_iff.1 h
    obtain rfl := Option.some.inj h
    obtain ⟨c, hc⟩ := exists_copy j hnumbers.1 hv
    obtain ⟨cs, htexts, hwrites, hdepth, hvalue⟩ := exists_copy_entries es hnumbers.2 hxs
    refine ⟨(name, c) :: cs, ?_, ?_, ?_, ?_⟩
    · simpa [haveTexts, keyText?] using htexts
    · have hentry := (hc.writes.entry name).append hwrites
      rwa [bind_assoc] at hentry
    · rw [Json.entriesDocuments, Document.entriesDepth, Document.entriesDepth, hc.depth_eq, hdepth]
    · simp [Json.entriesDocuments, ofEntries?, hc.value_eq, hvalue]

end

end Value

namespace Converter

private theorem write_dynamic (reg : Registry) (n id : Nat) (linked : Bool) (v : Option Value) :
    ∃ typed, (dynamic id linked).write reg (n + 1) v = (Value.orNull v).writeAny typed := by
  refine ⟨if linked then some (writeResolved reg n (write reg n)) else none, ?_⟩
  rcases v with _ | _ | _ <;> rfl

/-- Copies are faithful.  What is read off a text whose numbers have neither a point nor an exponent is written, and
what is written is read as the same value, which is written as the same text again. -/
theorem copied_dynamic {ds : Delegates} {fuel id : Nat} {linked : Bool} {j : Document} {text : String}
    {v : Option Value} (hj : loose.SpellsDocument j text.toList)
    (hplain : j.AllNumbers fun lexeme => IsPlain lexeme.toList)
    (h : (dynamic id linked).fromJson ds (fuel + 1) text = .ok v) (reg : Registry) (n : Nat) (s : Store) :
    ∃ text', (dynamic id linked).toJson reg (n + 1) v s = .ok text' s ∧
      (dynamic id linked).fromJson ds (fuel + 1) text' = .ok v ∧
      ∀ v', (dynamic id linked).fromJson ds (fuel + 1) text' = .ok v' →
        (dynamic id linked).toJson reg (n + 1) v' s = .ok text' s := by
  have hintegers : j.AllNumbers fun lexeme => IsNumber lexeme.toList ∧ isIntegerLexeme lexeme.toList = true :=
    fun lexeme hin => (hplain lexeme hin).isInteger (hj.allNumbers lexeme hin)
  obtain ⟨hdepth, hv⟩ := ((Leaf.dynamic id linked).fromJson_eq_ok hj).1 h
  obtain ⟨typed, htyped⟩ := write_dynamic reg n id linked v
  obtain ⟨c, hwrites, hcdepth, hcv⟩ := Value.exists_copy j hintegers hv
  rw [← htyped] at hwrites
  have hwrite : (dynamic id linked).toJson reg (n + 1) v s = .ok (String.ofList c.text) s := toJson_of_appends hwrites
  have hread : (dynamic id linked).fromJson ds (fuel + 1) (String.ofList c.text) = .ok v :=
    ((Leaf.dynamic id linked).fromJson_eq_ok c.spellsDocument_text).2 ⟨hcdepth ▸ hdepth, hcv⟩
  refine ⟨_, hwrite, hread, fun v' hv' => ?_⟩
  obtain rfl := Except.ok.inj (hread.symm.trans hv')
  exact hwrite

/-- A list with a number that is no 64-bit integer, under a name that is escaped. -/
private def nested : Json :=
  .array [.number ['-', '0'] (.minus (.mk (.zero : IsWhole ['0']) .none .none)), .null,
    .object [("a\n", .number "9223372036854775808".toList
      (.plain (.mk (.digits (by decide) (by decide) : IsWhole "9223372036854775808".toList) .none .none)))]]

private def nestedValue : Value :=
  .list [.int 0, .null, .map [(.str "a\n", .bigInt "9223372036854775808")]]

theorem copied_dynamic_nested : ∃ text', (dynamic 0 false).toJson (.ofModules [] []) 1 (some nestedValue) .empty =
    .ok text' .empty ∧ (dynamic 0 false).fromJson [] 1 text' = .ok (some nestedValue) := by
  have hspells := nested.spellsDocument_text.loose
  have hplain : nested.document.AllNumbers fun lexeme => IsPlain lexeme.toList := by
    simp [nested, Json.document, Json.itemsDocuments, Json.entriesDocuments, IsPlain]
  have hread : (dynamic 0 false).fromJson [] 1 (String.ofList nested.text) = .ok (some nestedValue) :=
    ((Leaf.dynamic 0 false).fromJson_eq_ok hspells).2 ⟨by decide, rfl⟩
  obtain ⟨text', hwrite, hread', -⟩ := copied_dynamic hspells hplain hread (.ofModules [] []) 0 .empty
  exact ⟨text', hwrite, hread'⟩

end Converter

end Marshal
