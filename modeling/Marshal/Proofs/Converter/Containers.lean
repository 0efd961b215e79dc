import Marshal.Converter.Native
import Marshal.Proofs.Stream.Documents

/-!
# Reading containers

What reads the elements of an array, or the entries of an object, one by one reads the whole of it.  The lists and the
maps that are read are those of the elements and the entries.
-/

namespace Marshal

open Effect
open Text (Cursor quote)

namespace Reader

/-! ### Folds -/

section Folds

variable {σ : Type} {step : σ → ReadM σ} {s s' : σ} {o : Nat} {started : Bool} {outer : List ReadScope}
  {tail : List Char}

/-- A state is carried along the elements of an array. -/
inductive Folds (step : σ → ReadM σ) : σ → List Json → σ → Prop
  | nil (s : σ) : Folds step s [] s
  | cons {s s₁ s' : σ} {j : Json} {js : List Json} (h : Reads (step s) s₁ j) (hjs : Folds step s₁ js s') :
    Folds step s (j :: js) s'

/-- A state is carried along the entries of an object: what is read behind a name depends on the name. -/
inductive FoldsEntries (value : σ → String → ReadM σ) : σ → List (String × Json) → σ → Prop
  | nil (s : σ) : FoldsEntries value s [] s
  | cons {s s₁ s' : σ} {name : String} {j : Json} {es : List (String × Json)} (h : Reads (value s name) s₁ j)
    (hes : FoldsEntries value s₁ es s') : FoldsEntries value s ((name, j) :: es) s'

private theorem follows_itemsText (js : List Json) : Follows (Json.itemsText false js ++ ']' :: tail) := by
  intro c hc
  cases js with
  | nil =>
    obtain rfl := Option.some.inj hc
    rfl
  | cons j js =>
    obtain rfl := Option.some.inj hc
    rfl

private theorem follows_entriesText (es : List (String × Json)) :
    Follows (Json.entriesText false es ++ '\x7d' :: tail) := by
  intro c hc
  cases es with
  | nil =>
    obtain rfl := Option.some.inj hc
    rfl
  | cons e es =>
    obtain rfl := Option.some.inj hc
    rfl

/-- The scope of an array before an element. -/
def itemScope (first : Bool) : ReadScope := if first then .emptyArray else .nonEmptyArray

def entryScope (first : Bool) : ReadScope := if first then .emptyObject else .nonEmptyObject

private theorem foldNext_zero_of_end {kind : TokenKind} (hkind : kind = .endArray ∨ kind = .endObject) {r r' : Reader}
    (hpeek : peek r = .ok kind r') (fuel : Nat) : foldNext (fuel + 1) step s r = .ok s r' := by
  rw [foldNext, bind_of_ok (hasNext_of_peek hpeek)]
  rcases hkind with rfl | rfl <;> rfl

private theorem foldNext_succ {kind : TokenKind} (hkind : kind.startsValue = true ∨ kind = .name)
    {r r₁ r₂ : Reader} {s₁ : σ} (hpeek : peek r = .ok kind r₁) (hstep : step s r₁ = .ok s₁ r₂) (fuel : Nat) :
    foldNext (fuel + 1) step s r = foldNext fuel step s₁ r₂ := by
  have hnext : hasNext r = .ok true r₁ := by
    rw [hasNext_of_peek hpeek]
    rcases hkind with hkind | rfl
    · cases kind <;> first | rfl | cases hkind
    · rfl
  rw [foldNext, bind_of_ok hnext]
  simp only [if_true]
  rw [bind_of_ok hstep]

private theorem peek_itemsText (o : Nat) (started : Bool) (outer : List ReadScope) (first : Bool) (j : Json)
    (js : List Json) (tail : List Char) :
    ∃ o', peek ⟨⟨Json.itemsText first (j :: js) ++ tail, o⟩, started, itemScope first :: outer, none⟩ =
      .ok j.kind ⟨⟨j.text ++ (Json.itemsText false js ++ tail), o'⟩, started, .nonEmptyArray :: outer,
        some j.kind⟩ := by
  obtain ⟨c, s, hs, hc⟩ := head_text j
  cases first with
  | true =>
    refine ⟨o, ?_⟩
    simp only [Json.itemsText, if_true, List.nil_append, List.append_assoc, hs, List.cons_append]
    exact peek_item_first hc
  | false =>
    refine ⟨o + 1, ?_⟩
    simp only [Json.itemsText, Bool.false_eq_true, if_false, List.append_assoc, hs, List.cons_append, List.nil_append]
    exact peek_item hc

private theorem startsValue_kind (j : Json) : j.kind.startsValue = true := by cases j <;> rfl

/-! ### Arrays -/

theorem beginArray_of_peek {r : Reader} {s : List Char} {o : Nat} {p : Option TokenKind}
    (hpeek : peek r = .ok .beginArray ⟨⟨'[' :: s, o⟩, started, outer, p⟩) (hdepth : outer.length < maxDepth) :
    beginArray r = .ok ⟨⟩ ⟨⟨s, o + 1⟩, started, .emptyArray :: outer, none⟩ := by
  unfold beginArray
  rw [bind_of_ok (expect_of_peek hpeek)]
  unfold enter
  rw [bind_of_ok (get_apply _), if_pos hdepth]
  rfl

theorem endArray_of_peek {r : Reader} {s : List Char} {o : Nat} {scope : ReadScope} {p : Option TokenKind}
    (hpeek : peek r = .ok .endArray ⟨⟨']' :: s, o⟩, started, scope :: outer, p⟩) :
    endArray r = .ok ⟨⟩ ⟨⟨s, o + 1⟩, started, outer, none⟩ := by
  unfold endArray
  rw [bind_of_ok (expect_of_peek hpeek)]
  rfl

/-- The elements of an array are read one by one. -/
private theorem foldNext_items (started : Bool) (outer : List ReadScope) (tail : List Char) {js : List Json}
    (h : Folds step s js s') : ∀ (fuel o : Nat) (first : Bool), js.length < fuel →
    outer.length + 1 + Json.itemsDepth js ≤ maxDepth →
    ∃ o' scope, foldNext fuel step s
        ⟨⟨Json.itemsText first js ++ ']' :: tail, o⟩, started, itemScope first :: outer, none⟩ =
      .ok s' ⟨⟨']' :: tail, o'⟩, started, scope :: outer, some .endArray⟩ := by
  induction h with
  | nil s =>
    intro fuel o first hfuel _
    obtain ⟨fuel, rfl⟩ := Nat.exists_eq_succ_of_ne_zero (Nat.ne_of_gt hfuel)
    refine ⟨o, itemScope first, foldNext_zero_of_end (.inl rfl) (peek_endArray ?_) fuel⟩
    cases first
    · exact .inr rfl
    · exact .inl rfl
  | @cons s s₁ s' j js hj _ ih =>
    intro fuel o first hfuel hdepth
    obtain ⟨fuel, rfl⟩ := Nat.exists_eq_succ_of_ne_zero (Nat.ne_of_gt (Nat.lt_of_le_of_lt (Nat.zero_le _) hfuel))
    rw [Json.itemsDepth] at hdepth
    obtain ⟨o₁, hpeek⟩ := peek_itemsText o started outer first j js (']' :: tail)
    obtain ⟨o₂, hstep⟩ := hj _ o₁ started (.nonEmptyArray :: outer) (Json.itemsText false js ++ ']' :: tail)
      (peek_idem hpeek) (follows_itemsText js) (by rw [List.length_cons]; omega)
    obtain ⟨o', scope, hrest⟩ := ih fuel o₂ false (by simpa using hfuel) (by omega)
    exact ⟨o', scope, (foldNext_succ (.inl (startsValue_kind j)) hpeek hstep fuel).trans hrest⟩

/-- What reads the elements one by one reads the array, and ends with what is made of the last state. -/
private theorem reads_array {β : Type} {js : List Json} (h : Folds step s js s') {f : σ → ReadM β} {b : β}
    (hf : ∀ r, f s' r = .ok b r) :
    Reads (do
      beginArray
      let s' ← overEntries step s
      endArray
      f s') b (.array js) := by
  intro r o started scopes tail hpeek _ hdepth
  rw [Json.depth] at hdepth
  have htext : (Json.array js).text ++ tail = '[' :: (Json.itemsText true js ++ ']' :: tail) := by
    simp [Json.text]
  rw [htext] at hpeek
  have hbegin := beginArray_of_peek hpeek (by omega)
  have hlen := Json.le_length_itemsText true js fun j _ => text_ne_nil j
  obtain ⟨o', scope, hfold⟩ := foldNext_items started scopes tail h
    ((Json.itemsText true js ++ ']' :: tail).length + 1) (o + 1) true (by rw [List.length_append]; omega) (by omega)
  refine ⟨o' + 1, ?_⟩
  rw [bind_of_ok hbegin]
  unfold overEntries
  rw [bind_assoc, bind_of_ok (get_apply _)]
  exact (bind_of_ok hfold).trans (hf _)

/-! ### Objects -/

theorem beginObject_of_peek {r : Reader} {s : List Char} {o : Nat} {p : Option TokenKind}
    (hpeek : peek r = .ok .beginObject ⟨⟨'\x7b' :: s, o⟩, started, outer, p⟩) (hdepth : outer.length < maxDepth) :
    beginObject r = .ok ⟨⟩ ⟨⟨s, o + 1⟩, started, .emptyObject :: outer, none⟩ := by
  unfold beginObject
  rw [bind_of_ok (expect_of_peek hpeek)]
  unfold enter
  rw [bind_of_ok (get_apply _), if_pos hdepth]
  rfl

theorem endObject_of_peek {r : Reader} {s : List Char} {o : Nat} {scope : ReadScope} {p : Option TokenKind}
    (hpeek : peek r = .ok .endObject ⟨⟨'\x7d' :: s, o⟩, started, scope :: outer, p⟩) :
    endObject r = .ok ⟨⟩ ⟨⟨s, o + 1⟩, started, outer, none⟩ := by
  unfold endObject
  rw [bind_of_ok (expect_of_peek hpeek)]
  rfl

theorem nextName_quote (name : String) (o : Nat) (started : Bool) (scope : ReadScope) (outer : List ReadScope)
    (s : List Char) : ∃ o', nextName ⟨⟨quote name.toList ++ s, o⟩, started, scope :: outer, some .name⟩ =
      .ok name ⟨⟨s, o'⟩, started, .danglingName :: outer, none⟩ := by
  refine ⟨o + Text.utf8Size (quote name.toList), ?_⟩
  unfold nextName
  rw [bind_of_ok (expect_of_peek (peek_of_peeked rfl)),
    bind_of_ok (readQuoted_quote o started (scope :: outer) none _ s), String.ofList_toList]
  rfl

private theorem peek_entriesText (o : Nat) (started : Bool) (outer : List ReadScope) (first : Bool)
    (name : String) (j : Json) (es : List (String × Json)) (tail : List Char) :
    ∃ o', peek ⟨⟨Json.entriesText first ((name, j) :: es) ++ tail, o⟩, started, entryScope first :: outer, none⟩ =
      .ok .name ⟨⟨quote name.toList ++ ':' :: (j.text ++ (Json.entriesText false es ++ tail)), o'⟩, started,
        entryScope first :: outer, some .name⟩ := by
  cases first with
  | true =>
    refine ⟨o, ?_⟩
    simp only [Json.entriesText, if_true, List.nil_append, List.append_assoc, List.cons_append]
    exact peek_name_first
  | false =>
    refine ⟨o + 1, ?_⟩
    simp only [Json.entriesText, Bool.false_eq_true, if_false, List.append_assoc, List.cons_append, List.nil_append]
    exact peek_name

/-- The entries of an object are read one by one. -/
private theorem foldNext_entries (started : Bool) (outer : List ReadScope) (tail : List Char)
    {value : σ → String → ReadM σ} (hstep : ∀ s, step s = nextName >>= value s)
    {es : List (String × Json)} (h : FoldsEntries value s es s') : ∀ (fuel o : Nat) (first : Bool), es.length < fuel →
    outer.length + 1 + Json.entriesDepth es ≤ maxDepth →
    ∃ o' scope, foldNext fuel step s
        ⟨⟨Json.entriesText first es ++ '\x7d' :: tail, o⟩, started, entryScope first :: outer, none⟩ =
      .ok s' ⟨⟨'\x7d' :: tail, o'⟩, started, scope :: outer, some .endObject⟩ := by
  induction h with
  | nil s =>
    intro fuel o first hfuel _
    obtain ⟨fuel, rfl⟩ := Nat.exists_eq_succ_of_ne_zero (Nat.ne_of_gt hfuel)
    refine ⟨o, entryScope first, foldNext_zero_of_end (.inr rfl) (peek_endObject ?_) fuel⟩
    cases first
    · exact .inr rfl
    · exact .inl rfl
  | @cons s s₁ s' name j es hj _ ih =>
    intro fuel o first hfuel hdepth
    obtain ⟨fuel, rfl⟩ := Nat.exists_eq_succ_of_ne_zero (Nat.ne_of_gt (Nat.lt_of_le_of_lt (Nat.zero_le _) hfuel))
    rw [Json.entriesDepth] at hdepth
    obtain ⟨o₁, hpeek⟩ := peek_entriesText o started outer first name j es ('\x7d' :: tail)
    obtain ⟨o₂, hname⟩ := nextName_quote name o₁ started (entryScope first) outer
      (':' :: (j.text ++ (Json.entriesText false es ++ '\x7d' :: tail)))
    obtain ⟨c, t, hc, hkind⟩ := head_text j
    have hvalue : peek ⟨⟨':' :: (j.text ++ (Json.entriesText false es ++ '\x7d' :: tail)), o₂⟩, started,
        .danglingName :: outer, none⟩ = .ok j.kind ⟨⟨j.text ++ (Json.entriesText false es ++ '\x7d' :: tail), o₂ + 1⟩,
          started, .nonEmptyObject :: outer, some j.kind⟩ := by
      rw [hc]
      exact peek_entry_value hkind
    obtain ⟨o₃, hread⟩ :=
      hj _ (o₂ + 1) started (.nonEmptyObject :: outer) (Json.entriesText false es ++ '\x7d' :: tail)
        hvalue (follows_entriesText es) (by rw [List.length_cons]; omega)
    obtain ⟨o', scope, hrest⟩ := ih fuel o₃ false (by simpa using hfuel) (by omega)
    have hentry := (congrFun (hstep s) _).trans ((bind_of_ok hname).trans hread)
    exact ⟨o', scope, (foldNext_succ (.inr rfl) hpeek hentry fuel).trans hrest⟩

/-- What reads the entries one by one reads the object, and ends with what is made of the last state. -/
theorem reads_object {β : Type} {value : σ → String → ReadM σ} (hstep : ∀ s, step s = nextName >>= value s)
    {es : List (String × Json)} (h : FoldsEntries value s es s') {f : σ → ReadM β} {b : β}
    (hf : ∀ r, f s' r = .ok b r) : Reads (do
      beginObject
      let s' ← overEntries step s
      endObject
      f s') b (.object es) := by
  intro r o started scopes tail hpeek _ hdepth
  rw [Json.depth] at hdepth
  have htext : (Json.object es).text ++ tail = '\x7b' :: (Json.entriesText true es ++ '\x7d' :: tail) := by
    simp [Json.text]
  rw [htext] at hpeek
  have hbegin := beginObject_of_peek hpeek (by omega)
  have hlen := Json.le_length_entriesText true es
  obtain ⟨o', scope, hfold⟩ := foldNext_entries started scopes tail hstep h
    ((Json.entriesText true es ++ '\x7d' :: tail).length + 1) (o + 1) true (by rw [List.length_append]; omega)
      (by omega)
  refine ⟨o' + 1, ?_⟩
  rw [bind_of_ok hbegin]
  unfold overEntries
  rw [bind_assoc, bind_of_ok (get_apply _)]
  exact (bind_of_ok hfold).trans (hf _)

end Folds

/-! ### Lists and maps -/

private theorem folds_items {item : ReadM (Option Value)} {vs : List Value} {js : List Json}
    (h : List.Forall₂ (fun v j => Reads item (some v) j) vs js) (read : Array Value) :
    Folds (fun items => return items.push (.orNull (← item))) read js (read ++ vs.toArray) := by
  induction h generalizing read with
  | nil =>
    rw [show read ++ ([] : List Value).toArray = read by simp]
    exact .nil read
  | @cons v j vs js hv _ ih =>
    have hrest := ih (read.push v)
    have heq : read ++ (v :: vs).toArray = read.push v ++ vs.toArray := by simp
    rw [heq]
    exact .cons (hv.map fun a => read.push (.orNull a)) hrest

/-- A list is read from the array of its elements. -/
theorem reads_readItems {item : ReadM (Option Value)} {vs : List Value} {js : List Json}
    (h : List.Forall₂ (fun v j => Reads item (some v) j) vs js) : Reads (readItems item) vs (.array js) := by
  have hfold := folds_items h #[]
  rw [Array.empty_append] at hfold
  exact reads_array hfold fun r => rfl

/-- A pair of a key and a value, which is an array of two elements. -/
private theorem reads_pair {α β γ : Type} {key : ReadM α} {value : ReadM β} {f : α → β → ReadM γ} {k : α} {v : β}
    {b : γ} {jk jv : Json} (hk : Reads key k jk) (hv : Reads value v jv) (hf : ∀ r, f k v r = .ok b r) :
    Reads (do
      beginArray
      let k ← key
      let v ← value
      endArray
      f k v) b (.array [jk, jv]) := by
  intro r o started scopes tail hpeek _ hdepth
  simp only [Json.depth, Json.itemsDepth] at hdepth
  have htext : (Json.array [jk, jv]).text ++ tail = '[' :: (Json.itemsText true [jk, jv] ++ ']' :: tail) := by
    simp [Json.text]
  rw [htext] at hpeek
  have hbegin := beginArray_of_peek hpeek (by omega)
  obtain ⟨o₁, hpeek₁⟩ := peek_itemsText (o + 1) started scopes true jk [jv] (']' :: tail)
  obtain ⟨o₂, hkey⟩ := hk _ o₁ started (.nonEmptyArray :: scopes) _ hpeek₁ (follows_itemsText [jv])
    (by rw [List.length_cons]; omega)
  obtain ⟨o₃, hpeek₂⟩ := peek_itemsText o₂ started scopes false jv [] (']' :: tail)
  obtain ⟨o₄, hvalue⟩ := hv _ o₃ started (.nonEmptyArray :: scopes) _ hpeek₂ (follows_itemsText [])
    (by rw [List.length_cons]; omega)
  have hclose : peek ⟨⟨']' :: tail, o₄⟩, started, .nonEmptyArray :: scopes, none⟩ = _ := peek_endArray (.inr rfl)
  have hend := endArray_of_peek hclose
  refine ⟨o₄ + 1, ?_⟩
  rw [bind_of_ok hbegin]
  exact (bind_of_ok hkey).trans ((bind_of_ok hvalue).trans ((bind_of_ok hend).trans (hf _)))

/-- A map is read from the object of its entries, if its keys differ in their texts. -/
theorem reads_readNamed {key : String → ReadM (String × Value)} {value : ReadM (Option Value)}
    {kvs : List (Value × Value)} {es : List (String × Json)}
    (h : List.Forall₂ (fun kv e => (∀ r, key e.1 r = .ok (kv.1.display, kv.1) r) ∧ Reads value (some kv.2) e.2) kvs
      es)
    (hnodup : (kvs.map (·.1.display)).Nodup) : Reads (readNamed key value) kvs (.object es) := by
  let entry (s : MapState) (name : String) : ReadM MapState := do
    let p ← key name
    if s.seen.contains p.1 then throw (.duplicateKey name) else return s.push p.1 p.2 (.orNull (← value))
  have hfolds (s : MapState) (hseen : ∀ kv ∈ kvs, kv.1.display ∉ s.seen) :
      ∃ seen, FoldsEntries entry s es ⟨seen, s.entries ++ kvs.toArray⟩ := by
    induction h generalizing s with
    | nil =>
      refine ⟨s.seen, ?_⟩
      rw [show s.entries ++ ([] : List (Value × Value)).toArray = s.entries by simp]
      exact .nil s
    | @cons kv e kvs es hkv _ ih =>
      obtain ⟨k, v⟩ := kv
      obtain ⟨name, j⟩ := e
      rw [List.map_cons, List.nodup_cons] at hnodup
      have hread : Reads (entry s name) (s.push k.display k v) j := by
        have hnew : ¬s.seen.contains k.display = true := by simpa using hseen (k, v) (List.mem_cons_self ..)
        refine reads_of_state hkv.1 ?_
        show Reads (if s.seen.contains k.display = true then _ else _) _ _
        rw [if_neg hnew]
        exact hkv.2.map fun a => s.push k.display k (.orNull a)
      obtain ⟨seen, hrest⟩ := ih hnodup.2 (s.push k.display k v) fun kv' hkv' => by
        rw [MapState.push, List.mem_cons, not_or]
        refine ⟨?_, hseen kv' (List.mem_cons_of_mem _ hkv')⟩
        rintro heq
        exact hnodup.1 (List.mem_map.2 ⟨kv', hkv', heq⟩)
      refine ⟨seen, ?_⟩
      have heq : s.entries ++ ((k, v) :: kvs).toArray = (s.push k.display k v).entries ++ kvs.toArray := by
        simp [MapState.push]
      rw [heq]
      exact .cons hread hrest
  obtain ⟨seen, hfold⟩ := hfolds .empty (by simp [MapState.empty])
  rw [MapState.empty, Array.empty_append] at hfold
  exact reads_object (fun _ => rfl) hfold fun r => rfl

/-- A map is read from the array of its pairs, if its keys differ in their texts. -/
theorem reads_readPairs {key value : ReadM (Option Value)} {kvs : List (Value × Value)} {js : List Json}
    (h : List.Forall₂ (fun kv j => ∃ jk jv, j = .array [jk, jv] ∧ Reads key (some kv.1) jk ∧
      Reads value (some kv.2) jv) kvs js)
    (hnodup : (kvs.map (·.1.display)).Nodup) : Reads (readPairs key value) kvs (.array js) := by
  let pair (s : MapState) : ReadM MapState := do
    beginArray
    let k := .orNull (← key)
    let v := .orNull (← value)
    endArray
    let identity := Value.display k
    if s.seen.contains identity then throw (.duplicateKey identity) else return s.push identity k v
  have hfolds (s : MapState) (hseen : ∀ kv ∈ kvs, kv.1.display ∉ s.seen) :
      ∃ seen, Folds pair s js ⟨seen, s.entries ++ kvs.toArray⟩ := by
    induction h generalizing s with
    | nil =>
      refine ⟨s.seen, ?_⟩
      rw [show s.entries ++ ([] : List (Value × Value)).toArray = s.entries by simp]
      exact .nil s
    | @cons kv j kvs js hkv _ ih =>
      obtain ⟨k, v⟩ := kv
      obtain ⟨jk, jv, rfl, hk, hv⟩ := hkv
      rw [List.map_cons, List.nodup_cons] at hnodup
      have hread : Reads (pair s) (s.push k.display k v) (.array [jk, jv]) := by
        have hnew : ¬s.seen.contains k.display = true := by simpa using hseen (k, v) (List.mem_cons_self ..)
        refine reads_pair hk hv fun r => ?_
        show (if s.seen.contains k.display = true then _ else _ : ReadM MapState) r = _
        rw [if_neg hnew]
        rfl
      obtain ⟨seen, hrest⟩ := ih hnodup.2 (s.push k.display k v) fun kv' hkv' => by
        rw [MapState.push, List.mem_cons, not_or]
        refine ⟨?_, hseen kv' (List.mem_cons_of_mem _ hkv')⟩
        rintro heq
        exact hnodup.1 (List.mem_map.2 ⟨kv', hkv', heq⟩)
      refine ⟨seen, ?_⟩
      have heq : s.entries ++ ((k, v) :: kvs).toArray = (s.push k.display k v).entries ++ kvs.toArray := by
        simp [MapState.push]
      rw [heq]
      exact .cons hread hrest
  obtain ⟨seen, hfold⟩ := hfolds .empty (by simp [MapState.empty])
  rw [MapState.empty, Array.empty_append] at hfold
  exact reads_array hfold fun r => rfl

/-- What reads a string reads a text that was quoted for it. -/
theorem onText_of_reads {α : Type} {m : ReadM α} {a : α} {name : String} (h : Reads m a (.string name.toList))
    (r : Reader) : onText (quote name.toList) m r = .ok a r := by
  have hpeek : peek (ofText (quote name.toList)) =
      .ok .string ⟨⟨quote name.toList ++ [], 0⟩, true, [], some .string⟩ := by
    rw [List.append_nil]
    exact peek_document (c := '"') rfl
  obtain ⟨o', hread⟩ := h (ofText (quote name.toList)) 0 true [] [] hpeek (fun c hc => by cases hc) (Nat.zero_le _)
  unfold onText
  rw [show m.run (ofText (quote name.toList)) = _ from hread]
  rfl

end Reader

end Marshal
