import Mathlib.Data.List.Nodup
import Marshal.Proofs.Converter.Deciding
import Marshal.Proofs.Stream.Compact

/-!
# What codecs make of documents

The value that a codec reads off a document, as a function of the document (`Codec.ofDocument?`): `none` if the
document is refused, `some none` if it reads as absent.  Reading decides every value so (`Codec.decides_readWith`),
wherever it stands and however it is spelled.
-/

namespace Marshal

open Effect Reader

/-! ### Values of any shape -/

/-- The entries of a map, each with what its key is told by, if no two of them are told by the same. -/
def distinct? (es : List (String × Value × Value)) : Option (List (Value × Value)) :=
  if (es.map (·.1)).Nodup then some (es.map (·.2)) else none

namespace Value

/-- The value of a number of unknown type. -/
def ofLexeme? (lexeme : String) : Option Value :=
  match int64Text? lexeme.toList with
  | some n => some (.int n)
  | none => if isIntegerLexeme lexeme.toList then some (.bigInt lexeme) else (floatText? lexeme.toList).map .float

mutual

/-- The value of a document by its own shape. -/
def ofDocument? : Document → Option (Option Value)
  | .null => some none
  | .bool b => some (some (.bool b))
  | .string s => some (some (.str s))
  | .number lexeme => (ofLexeme? lexeme).map some
  | .array items => (ofItems? items).map fun vs => some (.list vs)
  | .object entries => ((ofEntries? entries).bind distinct?).map fun kvs => some (.map kvs)

def ofItems? : List Document → Option (List Value)
  | [] => some []
  | j :: js => do
    let v ← ofDocument? j
    let vs ← ofItems? js
    some (orNull v :: vs)

def ofEntries? : List (String × Document) → Option (List (String × Value × Value))
  | [] => some []
  | (name, j) :: es => do
    let v ← ofDocument? j
    let kvs ← ofEntries? es
    some ((name, .str name, orNull v) :: kvs)

end

end Value

/-! ### Natives -/

namespace NativeKind

/-- The value of the text of a string or of a number. -/
def ofText? (kind : NativeKind) (text : String) : Option Value :=
  match kind with
  | bool =>
    let lower := text.toList.map Char.toLower
    if lower = ['t', 'r', 'u', 'e'] then some (.bool true)
    else if lower = ['f', 'a', 'l', 's', 'e'] then some (.bool false)
    else none
  | i8 | i16 | i32 | i64 => (integralText? text.toList).bind fun n => if kind.fits n then some (.int n) else none
  | f32 | f64 => (floatText? (Text.trim text.toList)).map .float
  | char =>
    match text.toList with
    | [c] => some (.char c)
    | _ => none
  | string => some (.str text)
  | bigInt => if isIntegerLexeme text.toList then some (.bigInt text) else none
  | bigDecimal => if (floatText? text.toList).isSome then some (.decimal text) else none
  | number => if (floatText? text.toList).isSome then some (.number text) else none
  | path => some (.path (.ofText text))
  | ipAddr => (Address.ofText? text.toList).map .ip
  | json => none

/-- The values that a kind makes of texts. -/
inductive FromText : NativeKind → Value → Prop
  | bool (b : Bool) : FromText bool (.bool b)
  | int {kind : NativeKind} {n : Int64} (hkind : kind = i8 ∨ kind = i16 ∨ kind = i32 ∨ kind = i64)
    (hfits : kind.fits n = true) : FromText kind (.int n)
  | float {kind : NativeKind} (hkind : kind = f32 ∨ kind = f64) (x : Binary64) : FromText kind (.float x)
  | char (c : Char) : FromText char (.char c)
  | string (text : String) : FromText string (.str text)
  | bigInt {lexeme : String} (h : isIntegerLexeme lexeme.toList = true) : FromText bigInt (.bigInt lexeme)
  | bigDecimal {lexeme : String} (h : (floatText? lexeme.toList).isSome = true) : FromText bigDecimal
      (.decimal lexeme)
  | number {lexeme : String} (h : (floatText? lexeme.toList).isSome = true) : FromText number (.number lexeme)
  | path (text : String) : FromText path (.path (.ofText text))
  | ipAddr (a : Address) : FromText ipAddr (.ip a)

theorem fromText_of_ofText? {kind : NativeKind} {text : String} {v : Value} (h : kind.ofText? text = some v) :
    kind.FromText v := by
  have hint (hkind : kind = i8 ∨ kind = i16 ∨ kind = i32 ∨ kind = i64)
      (hv : ((integralText? text.toList).bind fun n => if kind.fits n then some (.int n) else none) = some v) :
      kind.FromText v := by
    obtain ⟨n, -, hn⟩ := Option.bind_eq_some_iff.1 hv
    obtain ⟨hfits, heq⟩ := Option.ite_none_right_eq_some.1 hn
    exact Option.some.inj heq ▸ .int hkind hfits
  cases kind with
  | i8 => exact hint (.inl rfl) h
  | i16 => exact hint (.inr (.inl rfl)) h
  | i32 => exact hint (.inr (.inr (.inl rfl))) h
  | i64 => exact hint (.inr (.inr (.inr rfl))) h
  | bool =>
    unfold ofText? at h
    dsimp only at h
    split at h
    · exact Option.some.inj h ▸ .bool true
    · split at h
      · exact Option.some.inj h ▸ .bool false
      · cases h
  | f32 | f64 =>
    obtain ⟨x, -, rfl⟩ := Option.map_eq_some_iff.1 h
    exact .float (by simp) x
  | char =>
    unfold ofText? at h
    dsimp only at h
    split at h
    · exact Option.some.inj h ▸ .char _
    · cases h
  | string => exact Option.some.inj h ▸ .string text
  | path => exact Option.some.inj h ▸ .path text
  | bigInt =>
    obtain ⟨hlexeme, heq⟩ := Option.ite_none_right_eq_some.1 h
    exact Option.some.inj heq ▸ .bigInt hlexeme
  | bigDecimal =>
    obtain ⟨hlexeme, heq⟩ := Option.ite_none_right_eq_some.1 h
    exact Option.some.inj heq ▸ .bigDecimal hlexeme
  | number =>
    obtain ⟨hlexeme, heq⟩ := Option.ite_none_right_eq_some.1 h
    exact Option.some.inj heq ▸ .number hlexeme
  | ipAddr =>
    obtain ⟨a, -, rfl⟩ := Option.map_eq_some_iff.1 h
    exact .ipAddr a
  | json => cases h

/-- The value of a document of a native kind. -/
def ofDocument? : NativeKind → Document → Option (Option Value)
  | _, .null => some none
  | json, j => Value.ofDocument? j
  | bool, .bool b => some (some (.bool b))
  | kind, j => (j.text?.bind kind.ofText?).map some

theorem ofDocument?_null (kind : NativeKind) : kind.ofDocument? .null = some none := by
  cases kind <;> rfl

end NativeKind

/-! ### Codecs -/

/-- The elements of an array. -/
def items? (item : Document → Option (Option Value)) (js : List Document) : Option (List Value) :=
  js.mapM fun j => (item j).map Value.orNull

/-- A key, which is told by its text, and a value. -/
def keyed (k v : Option Value) : String × Value × Value := ((Value.orNull k).display, Value.orNull k, Value.orNull v)

/-- The entries of an object, with keys that are read off the names as strings. -/
def named? (key value : Document → Option (Option Value)) (es : List (String × Document)) :
    Option (List (Value × Value)) :=
  (es.mapM fun (e : String × Document) => (key (.string e.1)).bind fun k => (value e.2).map (keyed k)).bind distinct?

/-- The entries of an array of pairs. -/
def pairs? (key value : Document → Option (Option Value)) (js : List Document) : Option (List (Value × Value)) :=
  (js.mapM (pair? key value fun k v => some (keyed k v))).bind distinct?

namespace Codec

/-- The value of a document; `call` gives what a binding makes of it. -/
def ofDocument? (call : Nat → Document → Option (Option Value)) : Codec → Document → Option (Option Value)
  | native kind, j => kind.ofDocument? j
  | binding index, j => call index j
  | dynamic, j => Value.ofDocument? j
  | attached index nullSafe, j => if nullSafe && j.kind = .null then some none else call index j
  | split _ read, j => read.ofDocument? call j
  | runtimeType declared, j => declared.ofDocument? call j
  | sequence element _, .array js => (items? (element.ofDocument? call) js).map fun vs => some (.list vs)
  | objectMap key value _, .object es => (named? key.ofDocument? (value.ofDocument? call) es).map fun kvs =>
    some (.map kvs)
  | objectMap key value _, .array js => (pairs? key.ofDocument? (value.ofDocument? call) js).map fun kvs =>
    some (.map kvs)
  | pairMap key value _, .array js =>
    (pairs? (key.ofDocument? call) (value.ofDocument? call) js).map fun kvs => some (.map kvs)
  | pairMap key value _, .object es =>
    (named? (key.ofDocument? call) (value.ofDocument? call) es).map fun kvs => some (.map kvs)
  | sequence .., _ | objectMap .., _ | pairMap .., _ => some none

end Codec

/-! ### Lists and maps -/

/-- A loop that collects elements collects those of the array. -/
private theorem foldlM_push {item : Document → Option (Option Value)} (js : List Document) (read : Array Value) :
    (js.foldlM (fun (read : Array Value) j => (item j).map fun v => read.push (Value.orNull v)) read).map
      Array.toList = (items? item js).map (read.toList ++ ·) := by
  induction js generalizing read with
  | nil => simp [items?]
  | cons j js ih =>
    rw [List.foldlM_cons, items?, List.mapM_cons]
    cases item j with
    | none => rfl
    | some v =>
      have hrest := ih (read.push (Value.orNull v))
      simp only [Option.map_some, Option.bind_eq_bind, Option.bind_some]
      rw [hrest]
      unfold items?
      cases js.mapM (fun j => (item j).map Value.orNull) <;> simp

/-- A loop that collects entries, and refuses one whose key is told by the same as that of an earlier one, collects
the entries of a map. -/
private theorem foldlM_distinct {α : Type} {g : α → Option (String × Value × Value)}
    {f : MapState → α → Option MapState}
    (hf : ∀ s a, f s a = (g a).bind fun e => if s.seen.contains e.1 then none else some (s.push e.1 e.2.1 e.2.2))
    (as : List α) (s : MapState) : (as.foldlM f s).map (·.entries.toList) = (as.mapM g).bind fun es =>
      if (es.map (·.1)).Nodup ∧ ∀ e ∈ es, e.1 ∉ s.seen then some (s.entries.toList ++ es.map (·.2)) else none := by
  induction as generalizing s with
  | nil => simp
  | cons a as ih =>
    rw [List.foldlM_cons, List.mapM_cons, hf]
    cases g a with
    | none => rfl
    | some e =>
      simp only [Option.bind_eq_bind, Option.bind_some]
      by_cases hseen : e.1 ∈ s.seen
      · rw [if_pos (by simpa using hseen)]
        cases as.mapM g with
        | none => rfl
        | some es => simp [hseen]
      · rw [if_neg (by simpa using hseen), Option.bind_some, ih]
        cases as.mapM g with
        | none => rfl
        | some es =>
          have hiff : ((es.map (·.1)).Nodup ∧ ∀ e' ∈ es, e'.1 ∉ (s.push e.1 e.2.1 e.2.2).seen) ↔
              ((e :: es).map (·.1)).Nodup ∧ ∀ e' ∈ e :: es, e'.1 ∉ s.seen := by
            simp only [MapState.push, List.mem_cons, not_or, List.map_cons, List.nodup_cons, List.mem_map, not_exists,
              not_and, forall_eq_or_imp]
            grind
          simp only [Option.bind_some, hiff]
          simp [MapState.push]

private theorem foldlM_distinct_empty {α : Type} {g : α → Option (String × Value × Value)}
    {f : MapState → α → Option MapState}
    (hf : ∀ s a, f s a = (g a).bind fun e => if s.seen.contains e.1 then none else some (s.push e.1 e.2.1 e.2.2))
    (as : List α) : (as.foldlM f .empty).map (·.entries.toList) = (as.mapM g).bind distinct? := by
  rw [foldlM_distinct hf]
  congr 1
  funext es
  simp [MapState.empty, distinct?]

namespace Reader

variable {item key value : ReadM (Option Value)} {itemOf keyOf valueOf : Document → Option (Option Value)}

private theorem decides_readItems {js : List Document} (h : ∀ j ∈ js, Decides item j (itemOf j)) :
    Decides (readItems item) (.array js) (items? itemOf js) := by
  have hloop := decides_array_map (fun (read : Array Value) j hj => (h j hj).map fun v => read.push (Value.orNull v))
    Array.toList #[]
  have hitems : (items? itemOf js).map (#[].toList ++ ·) = items? itemOf js := by simp
  rw [foldlM_push, hitems] at hloop
  exact hloop

/-- An object is read into the entries of a map, if every name is read into a key. -/
private theorem decides_readNamed {key : String → ReadM (String × Value)} {keyOf : String → Option (String × Value)}
    {es : List (String × Document)} (hkey : ∀ name, Settles (key name) (keyOf name))
    (hvalue : ∀ e ∈ es, Decides value e.2 (valueOf e.2)) :
    Decides (readNamed key value) (.object es) ((es.mapM fun (e : String × Document) =>
      (keyOf e.1).bind fun k => (valueOf e.2).map fun v => (k.1, k.2, Value.orNull v)).bind distinct?) := by
  let entry (s : MapState) (name : String) : ReadM MapState := do
    let k ← key name
    if s.seen.contains k.1 then throw (.duplicateKey name) else return s.push k.1 k.2 (.orNull (← value))
  let entryOf (s : MapState) (name : String) (j : Document) : Option MapState := (keyOf name).bind fun k =>
    if s.seen.contains k.1 then none else (valueOf j).map fun v => s.push k.1 k.2 (Value.orNull v)
  have hentry (s : MapState) (e : String × Document) (he : e ∈ es) : Decides (entry s e.1) e.2 (entryOf s e.1 e.2) :=
    (hkey e.1).decides fun k => decides_ite (settles_throw _).decides_none ((hvalue e he).map _)
  have hloop := decides_object_map hentry (·.entries.toList) .empty
  have hdistinct := foldlM_distinct_empty (g := fun (e : String × Document) =>
      (keyOf e.1).bind fun k => (valueOf e.2).map fun v => (k.1, k.2, Value.orNull v))
    (f := fun s e => entryOf s e.1 e.2) (fun s e => by
      unfold entryOf
      cases keyOf e.1 with
      | none => rfl
      | some k => cases valueOf e.2 <;> simp) es
  rw [hdistinct] at hloop
  exact hloop

/-- An array of pairs is read into the entries of a map. -/
private theorem decides_readPairs (hkey : ∀ j, Decides key j (keyOf j)) (hvalue : ∀ j, Decides value j (valueOf j))
    (framed_key : Framed key) (framed_value : Framed value) (js : List Document) :
    Decides (readPairs key value) (.array js) (pairs? keyOf valueOf js) := by
  let entryOf (s : MapState) (k v : Option Value) : Option MapState :=
    if s.seen.contains (Value.orNull k).display then none
    else some (s.push (Value.orNull k).display (Value.orNull k) (Value.orNull v))
  have hpair (s : MapState) (j : Document) (_ : j ∈ js) := decides_pair (f := fun (k v : Option Value) => do
      let identity := Value.display (Value.orNull k)
      if s.seen.contains identity then throw (.duplicateKey identity)
      else return s.push identity (Value.orNull k) (Value.orNull v))
    (k := entryOf s) hkey hvalue (fun k v => settles_ite (settles_throw _) (settles_pure _)) framed_key framed_value j
  have hloop := decides_array_map hpair (·.entries.toList) .empty
  have hdistinct := foldlM_distinct_empty (g := pair? keyOf valueOf fun k v => some (keyed k v))
    (f := fun s j => pair? keyOf valueOf (entryOf s) j) (fun s j => by
      unfold pair?
      split
      · next i j =>
        cases keyOf i with
        | none => rfl
        | some k => cases valueOf j <;> rfl
      · rfl) js
  rw [hdistinct] at hloop
  exact hloop

/-- A text that was quoted is read as the string that it spells. -/
private theorem settles_onText {α : Type} {m : ReadM α} {o : Option α} {name : String}
    (h : Decides m (.string name) o) : Settles (onText (Text.quote name.toList) m) o := by
  intro r
  have hquote : Text.quote name.toList = '"' :: (name.toList.flatMap Text.escape ++ ['"']) := by simp [Text.quote]
  have hpeek : peek (ofText (Text.quote name.toList)) =
      .ok .string ⟨⟨'"' :: (name.toList.flatMap Text.escape ++ ['"']) ++ [], 0⟩, true, [], some .string⟩ := by
    rw [hquote, List.append_nil]
    exact peek_document (c := '"') rfl
  have hat : At ⟨[], true, []⟩ (.string name) (ofText (Text.quote name.toList)) :=
    ⟨⟨.standard, _, 0, .string (Dialect.spellsText_escape _), hpeek⟩, (fun c hc => by cases hc), Nat.zero_le _⟩
  have hgives := h _ _ hat
  unfold onText
  cases o with
  | none =>
    obtain ⟨e, r', hm⟩ := hgives
    rw [show m.run (ofText (Text.quote name.toList)) = _ from hm]
    exact ⟨e, r, rfl⟩
  | some a =>
    obtain ⟨r', hm, -⟩ := hgives
    rw [show m.run (ofText (Text.quote name.toList)) = _ from hm]
    exact ⟨r, rfl, rfl⟩

end Reader

/-! ### Reading values of any shape -/

namespace Value

private theorem settles_ofLexeme (lexeme : String) : Settles (ofLexeme lexeme) (ofLexeme? lexeme) := by
  unfold ofLexeme ofLexeme?
  cases int64Text? lexeme.toList with
  | some n => exact settles_pure _
  | none =>
    refine settles_ite (settles_pure _) ?_
    cases floatText? lexeme.toList with
    | some x => exact settles_pure _
    | none => exact settles_throw _

theorem ofItems?_eq (js : List Document) : ofItems? js = items? ofDocument? js := by
  induction js with
  | nil => simp [ofItems?, items?]
  | cons j js ih =>
    rw [ofItems?, ih, items?, items?, List.mapM_cons]
    cases ofDocument? j <;> rfl

theorem ofEntries?_eq (es : List (String × Document)) : ofEntries? es = es.mapM fun (e : String × Document) =>
    (some (e.1, str e.1)).bind fun k => (ofDocument? e.2).map fun v => (k.1, k.2, orNull v) := by
  induction es with
  | nil => simp [ofEntries?]
  | cons e es ih =>
    obtain ⟨name, j⟩ := e
    rw [ofEntries?, ih, List.mapM_cons]
    cases ofDocument? j <;> rfl

/-- The fuel is enough for the containers in each other. -/
private theorem decides_readWith :
    ∀ (fuel : Nat) (j : Document), j.depth < fuel → Decides (readWith fuel) j (ofDocument? j)
  | 0, _, h => absurd h (Nat.not_lt_zero _)
  | fuel + 1, j, h => by
    refine decides_peek ?_
    cases j with
    | null => exact decides_nextNull.bind fun _ => settles_pure none
    | bool b => exact (decides_nextBool (.bool b)).map fun b => some (Value.bool b)
    | string s => exact (decides_nextString (.string s)).map fun s => some (str s)
    | number lexeme =>
      rw [ofDocument?]
      exact (decides_nextNumber (.number lexeme)).bind fun s => (settles_ofLexeme s).map some
    | array js =>
      rw [Document.depth] at h
      rw [ofDocument?, ofItems?_eq]
      refine (decides_readItems fun j hj => decides_readWith fuel j ?_).map fun vs => some (list vs)
      have := Document.itemsDepth_le_iff.1 le_rfl j hj
      omega
    | object es =>
      rw [Document.depth] at h
      rw [ofDocument?, ofEntries?_eq]
      refine (decides_readNamed (fun name => settles_pure (name, str name)) fun e he =>
        decides_readWith fuel e.2 ?_).map fun kvs => some (map kvs)
      have := Document.entriesDepth_le_iff.1 le_rfl e he
      omega

theorem decides_readAny (j : Document) : Decides readAny j (ofDocument? j) := fun p r hr =>
  decides_readWith _ j (by have := hr.depth_le; omega) p r hr

end Value

/-! ### Reading natives -/

namespace NativeKind

private theorem settles_integerOf (text : String) : Settles (integerOf text) (integralText? text.toList) := by
  unfold integerOf
  cases integralText? text.toList with
  | some n => exact settles_pure n
  | none => exact settles_throw _

private theorem settles_boolOf (text : String) :
    Settles (do return some (.bool (← boolOf text))) (((bool).ofText? text).map some) := by
  unfold boolOf ofText?
  dsimp only
  split
  · exact settles_pure _
  · split
    · exact settles_pure _
    · exact settles_throw _

private theorem decides_readInt (kind : NativeKind) (j : Document) : Decides kind.readInt j (j.text?.bind fun text =>
    (integralText? text.toList).bind fun n => if kind.fits n then some (.int n) else none) :=
  (decides_nextNumber j).bind fun text => (settles_integerOf text).bind fun _ => settles_ite (settles_pure _)
    (settles_throw _)

private theorem decides_nextFloat (j : Document) : Decides nextFloat j (j.text?.bind fun text =>
    floatText? (Text.trim text.toList)) := by
  refine (decides_nextNumber j).bind fun text => ?_
  cases floatText? (Text.trim text.toList) with
  | some x => exact settles_pure x
  | none => exact settles_throw _

private theorem decides_readLexeme (j : Document) : Decides readLexeme j (j.text?.bind fun text =>
    if (floatText? text.toList).isSome then some text else none) :=
  (decides_nextNumber j).bind fun _ => settles_ite (settles_pure _) (settles_throw _)

private theorem settles_charOf (text : String) : Settles (charOf text) (match text.toList with
    | [c] => some c
    | _ => none) := by
  unfold charOf
  rcases text.toList with _ | ⟨c, _ | ⟨c', s⟩⟩
  · exact settles_throw _
  · exact settles_pure c
  · exact settles_throw _

private theorem decides_readAddress (j : Document) : Decides readAddress j (j.text?.bind fun text =>
    Address.ofText? text.toList) := by
  refine (decides_nextString j).bind fun text => ?_
  cases Address.ofText? text.toList with
  | some a => exact settles_pure a
  | none => exact settles_throw _

private theorem decides_readBigInt (j : Document) : Decides readBigInt j (j.text?.bind fun text =>
    if isIntegerLexeme text.toList then some text else none) :=
  (decides_nextNumber j).bind fun _ => settles_ite (settles_pure _) (settles_throw _)

/-- Texts decide all values but nulls, values of any shape, and truth values that are written as such. -/
theorem ofDocument?_eq {kind : NativeKind} {j : Document} (hj : j ≠ .null) (hjson : kind ≠ json)
    (hbool : kind = bool → j.flag? = none) : kind.ofDocument? j = (j.text?.bind kind.ofText?).map some := by
  cases kind <;> cases j <;> simp_all [ofDocument?, Document.flag?]

private theorem decides_of_text {kind : NativeKind} {j : Document} {m : ReadM (Option Value)} (hj : j ≠ .null)
    (hkind : kind ≠ json ∧ kind ≠ bool) (h : Decides m j ((j.text?.bind kind.ofText?).map some)) :
    Decides m j (kind.ofDocument? j) :=
  h.congr (ofDocument?_eq hj hkind.1 fun hbool => absurd hbool hkind.2).symm

private theorem decides_readBool {j : Document} (hj : j ≠ .null) :
    Decides (bool).readValue j ((bool).ofDocument? j) := by
  refine decides_peek ?_
  cases j with
  | null => exact absurd rfl hj
  | bool b => exact (decides_nextBool (.bool b)).map fun b => some (Value.bool b)
  | string _ | number _ | array _ | object _ =>
    rw [ofDocument?_eq hj (by decide) fun _ => rfl, Option.map_bind]
    exact (decides_nextString _).bind settles_boolOf

private theorem decides_readValue {kind : NativeKind} {j : Document} (hj : j ≠ .null) :
    Decides kind.readValue j (kind.ofDocument? j) := by
  cases kind
  case json =>
    have hjson : (json).ofDocument? j = Value.ofDocument? j := by cases j <;> simp_all [ofDocument?]
    rw [hjson]
    exact Value.decides_readAny j
  case bool => exact decides_readBool hj
  all_goals refine decides_of_text hj (by decide) ?_
  case i8 | i16 | i32 | i64 => exact (decides_readInt _ j).map some
  case f32 | f64 => exact ((decides_nextFloat j).map _).congr (by cases j.text? <;> simp [ofText?, Function.comp_def])
  case char =>
    refine ((decides_nextString j).bind fun text => (settles_charOf text).map _).congr ?_
    cases j.text? with
    | none => rfl
    | some text => simp only [Option.bind_some, ofText?]; split <;> rfl
  case string => exact ((decides_nextString j).map _).congr (by cases j.text? <;> simp [ofText?])
  case path => exact ((decides_nextString j).map _).congr (by cases j.text? <;> simp [ofText?])
  case bigInt =>
    refine ((decides_readBigInt j).map _).congr ?_
    cases j.text? with
    | none => rfl
    | some text => simp only [Option.bind_some, ofText?]; split <;> rfl
  case bigDecimal | number =>
    refine ((decides_readLexeme j).map _).congr ?_
    cases j.text? with
    | none => rfl
    | some text => simp only [Option.bind_some, ofText?]; split <;> rfl
  case ipAddr => exact ((decides_readAddress j).map _).congr (by cases j.text? <;> simp [ofText?, Function.comp_def])

theorem decides_read (kind : NativeKind) (j : Document) : Decides kind.read j (kind.ofDocument? j) := by
  refine decides_peek ?_
  by_cases hj : j = .null
  · subst hj
    rw [kind.ofDocument?_null]
    exact decides_nextNull.bind fun _ => settles_pure none
  · rw [if_neg (by cases j <;> simp_all [Document.kind])]
    exact decides_readValue hj

end NativeKind

/-! ### Reading with codecs -/

/-- A key that is read off a name. -/
private theorem settles_key {key : ReadM (Option Value)} {keyOf : Document → Option (Option Value)}
    (h : ∀ j, Decides key j (keyOf j)) (name : String) :
    Settles (do
      let k := Value.orNull (← onText (Text.quote name.toList) key)
      return (k.display, k)) ((keyOf (.string name)).map fun k => ((Value.orNull k).display, Value.orNull k)) :=
  (settles_onText (h (.string name))).map fun k => ((Value.orNull k).display, Value.orNull k)

/-- An object is read into the entries of a map with keys of one kind. -/
private theorem decides_named {key value : ReadM (Option Value)} {keyOf valueOf : Document → Option (Option Value)}
    {es : List (String × Document)} (hkey : ∀ j, Decides key j (keyOf j))
    (hvalue : ∀ j, Decides value j (valueOf j)) : Decides (readNamed (fun name => do
      let k := Value.orNull (← onText (Text.quote name.toList) key)
      return (k.display, k)) value) (.object es) (named? keyOf valueOf es) := by
  refine (decides_readNamed (settles_key hkey) fun e _ => hvalue e.2).congr ?_
  unfold named? keyed
  congr 2
  funext e
  cases keyOf (.string e.1) <;> rfl

theorem Codec.decides_readWith {call : Nat → ReadM (Option Value)} {callOf : Nat → Document → Option (Option Value)}
    (hcall : ∀ i j, Decides (call i) j (callOf i j)) (hframed : ∀ i, Framed (call i)) (c : Codec) (j : Document) :
    Decides (c.readWith call) j (c.ofDocument? callOf j) := by
  induction c generalizing j with
  | native kind => exact kind.decides_read j
  | binding index => exact hcall index j
  | dynamic => exact Value.decides_readAny j
  | runtimeType declared ih => exact ih j
  | split write read _ ih => exact ih j
  | attached index nullSafe =>
    cases nullSafe with
    | false => exact hcall index j
    | true =>
      refine decides_peek ?_
      cases j with
      | null => exact decides_nextNull.bind fun _ => settles_pure none
      | bool _ | string _ | number _ | array _ | object _ => exact hcall index _
  | sequence element i ih =>
    refine decides_peek ?_
    cases j with
    | array js => exact (decides_readItems fun j _ => ih j).map fun vs => some (Value.list vs)
    | null | bool _ | string _ | number _ | object _ => exact decides_skipMismatched _
  | objectMap key value i ih =>
    refine decides_peek ?_
    cases j with
    | object es => exact (decides_named key.decides_read ih).map fun kvs => some (Value.map kvs)
    | array js =>
      exact (decides_readPairs key.decides_read ih key.framed_read (framed_readWith hframed value) js).map
        fun kvs => some (Value.map kvs)
    | null | bool _ | string _ | number _ => exact decides_skipMismatched _
  | pairMap key value i ihk ihv =>
    refine decides_peek ?_
    cases j with
    | object es => exact (decides_named ihk ihv).map fun kvs => some (Value.map kvs)
    | array js =>
      exact (decides_readPairs ihk ihv (framed_readWith hframed key) (framed_readWith hframed value) js).map
        fun kvs => some (Value.map kvs)
    | null | bool _ | string _ | number _ => exact decides_skipMismatched _

end Marshal
