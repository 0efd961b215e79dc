import Marshal.Proofs.Converter.Keys
import Marshal.Proofs.Converter.Maps
import Marshal.Proofs.Converter.Parts

/-!
# Maps under the names of their keys

An object map writes its entries under the texts of the keys, whatever keys they are, and reads its keys off the names
with the native kind of the keys.  So what is written reads back with as many entries exactly if the kind reads a key
off each of the texts, and no two of these keys are the same (`Converter.fromJson_written_names`).  The keys that a
kind has read have texts that it reads back, a null apart, which has none: a map that was read is written, and reads
back, unless a null is among its keys (`Converter.toJson_read_names`).
-/

namespace Marshal

open Effect Reader WriteM
open Dialect (loose)
open Text (quote)

/-! ### Texts -/

/-- A text, or none. -/
inductive Value.OptText : Value → Prop
  | null : OptText .null
  | str (t : String) : OptText (.str t)

/-- How an optional text is written and read. -/
structure Value.SpelledText (s : Store) (v : Value) (x : List Char × Document) : Prop where
  writes : ∀ call, Appends s ((Codec.native .string).writeWith call none (some v)) x.1
  spells : loose.SpellsDocument x.2 x.1
  reads : (NativeKind.string.ofDocument? x.2).map Value.orNull = some v
  flat : x.2.depth = 0

private theorem Value.OptText.exists_spelledText {v : Value} (h : v.OptText) (s : Store) :
    ∃ x, v.SpelledText s x := by
  cases h with
  | null => exact ⟨(_, .null), fun _ => appends_value "null", Dialect.Spells.null.document, rfl, rfl⟩
  | str t =>
    have hspells := Json.spellsDocument_text (.string t.toList)
    rw [String.toList_ofList, Json.document, String.ofList_toList] at hspells
    have hwrites : Writes s (token (Writer.string t)) (.string t.toList) := writes_string t
    exact ⟨(_, .string t), fun _ => hwrites, hspells.loose, rfl, rfl⟩

private theorem Value.optText_of_read {j : Document} {u : Option Value}
    (h : NativeKind.string.ofDocument? j = some u) : (Value.orNull u).OptText := by
  cases j with
  | null =>
    obtain rfl := Option.some.inj h
    exact .null
  | string t | number t =>
    obtain rfl := Option.some.inj h
    exact .str t
  | bool _ | array _ | object _ => cases h

/-! ### Maps of texts -/

/-- An object map of texts. -/
abbrev Codec.texts (kind : NativeKind) (i : Instantiator) : Codec := .objectMap kind (.native .string) i

section Names

variable {reg : Registry} {fuel : Nat} {s : Store} {kind : NativeKind} {entries kvs : List (Value × Value)}

/-- How an entry of a map of texts is written. -/
structure Named (s : Store) (e : Value × Value) (x : String × List Char × Document) : Prop where
  keyText : e.1.keyText? = some x.1
  value : e.2.SpelledText s x.2

/-- The value of an entry under the key that its name stands for. -/
def NativeKind.Rereads (kind : NativeKind) (e e' : Value × Value) : Prop :=
  ∃ name, e.1.keyText? = some name ∧ kind.ofName? name = some e'.1 ∧ e'.2 = e.2

private theorem exists_named (s : Store) : ∀ (entries : List (Value × Value)), (∀ e ∈ entries, e.2.OptText) →
    (∀ e ∈ entries, e.1.keyText? ≠ none) → ∃ xs, List.Forall₂ (Named s) entries xs
  | [], _, _ => ⟨[], .nil⟩
  | e :: entries, hvalues, hkeys => by
    rw [List.forall_mem_cons] at hvalues hkeys
    obtain ⟨xs, hxs⟩ := exists_named s entries hvalues.2 hkeys.2
    obtain ⟨name, hname⟩ := Option.ne_none_iff_exists'.1 hkeys.1
    obtain ⟨x, hx⟩ := hvalues.1.exists_spelledText s
    exact ⟨(name, x) :: xs, .cons ⟨hname, hx⟩ hxs⟩

/-- A map of texts is written if every key has a text.  The names and the values of what is written are those of the
map. -/
private theorem exists_written (hvalues : ∀ e ∈ entries, e.2.OptText) (hkeys : ∀ e ∈ entries, e.1.keyText? ≠ none)
    (reg : Registry) (fuel id : Nat) (s : Store) (kind : NativeKind) (i : Instantiator) : ∃ text xs,
      (Converter.codec id (.texts kind i) []).toJson reg (fuel + 1) (some (.map entries)) s = .ok text s ∧
        List.Forall₂ (Named s) entries xs ∧
        loose.SpellsDocument (.object (xs.map fun x => (x.1, x.2.2))) text.toList := by
  obtain ⟨xs, hxs⟩ := exists_named s entries hvalues hkeys
  have happends : Appends s ((Converter.codec id (.texts kind i) []).write reg (fuel + 1) (some (.map entries))) _ :=
    appends_objectMap (xs.map fun x => (x.1, x.2.1))
      (List.forall₂_map_right_iff.2 (hxs.imp fun _ _ hx => ⟨hx.keyText, hx.value.writes _⟩)) kind i
  have hspells : ∀ x ∈ xs, loose.SpellsDocument x.2.2 x.2.1 := by
    intro x hx
    obtain ⟨e, -, he⟩ := forall₂_of_mem_right hxs hx
    exact he.value.spells
  have hobject := (Dialect.Spells.object (Dialect.spells_joined_entries xs hspells true loose.blank_nil)).document
  refine ⟨_, xs, Converter.toJson_of_appends happends, hxs, ?_⟩
  rw [String.toList_ofList, List.map_map]
  exact hobject

/-- The first key without a text is refused, and with it the map. -/
private theorem toJson_unnamed (hvalues : ∀ e ∈ entries, e.2.OptText) {e : Value × Value}
    (he : entries.find? (fun e => e.1.keyText?.isNone) = some e) (reg : Registry) (fuel id : Nat) (s : Store)
    (kind : NativeKind) (i : Instantiator) :
    (Converter.codec id (.texts kind i) []).toJson reg (fuel + 1) (some (.map entries)) s =
      .error (.valueMismatch kind.typePath e.1.kindName) s := by
  obtain ⟨hnone, before, behind, rfl, hnamed⟩ := List.find?_eq_some_iff_append.1 he
  have hbefore : ∀ e ∈ before, e.1.keyText? ≠ none := by
    intro e he hkey
    simpa [hkey] using hnamed e he
  obtain ⟨xs, hxs⟩ := exists_named s before (fun e he => hvalues e (List.mem_append_left _ he)) hbefore
  have hkey : e.1.keyText? = none := by simpa using hnone
  have hfails : ∃ w, (Converter.codec id (.texts kind i) []).write reg (fuel + 1)
      (some (.map (before ++ e :: behind))) ⟨.empty, s⟩ = .error (.valueMismatch kind.typePath e.1.kindName) ⟨w, s⟩ :=
    objectMap_of_unnamed (xs.map fun x => (x.1, x.2.1))
      (List.forall₂_map_right_iff.2 (hxs.imp fun _ _ hx => ⟨hx.keyText, hx.value.writes _⟩)) hkey behind kind i
  obtain ⟨w, hw⟩ := hfails
  unfold Converter.toJson
  simp only [hw]

/-- What is read off the names and the values is what was written, under the keys that the names stand for. -/
private theorem named?_written {xs : List (String × List Char × Document)} (hxs : List.Forall₂ (Named s) entries xs) :
    named? kind.ofDocument? ((Codec.native .string).ofDocument? unbound) (xs.map fun x => (x.1, x.2.2)) = some kvs ↔
      List.Forall₂ kind.Rereads entries kvs ∧ (kvs.map (·.1.display)).Nodup := by
  rw [named?_eq_some, List.forall₂_map_left_iff]
  refine and_congr ?_ Iff.rfl
  -- one by one, the names and the values are those of the entries
  induction hxs generalizing kvs with
  | nil => exact List.forall₂_nil_left_iff.trans List.forall₂_nil_left_iff.symm
  | @cons e x entries xs hx _ ih =>
    have hiff (kv : Value × Value) : NamedReadAs kind.ofDocument? ((Codec.native .string).ofDocument? unbound)
        (x.1, x.2.2) kv ↔ kind.Rereads e kv := by
      obtain ⟨u, hu, hvalue⟩ := Option.map_eq_some_iff.1 hx.value.reads
      constructor
      · rintro ⟨⟨k, hk, hkey⟩, ⟨w, hw, hv⟩⟩
        obtain rfl := Option.some.inj (hw.symm.trans hu)
        exact ⟨x.1, hx.keyText, Option.map_eq_some_iff.2 ⟨k, hk, hkey.symm⟩, hv.trans hvalue⟩
      · rintro ⟨name, hname, hkey, hv⟩
        obtain rfl := Option.some.inj (hname.symm.trans hx.keyText)
        obtain ⟨k, hk, hkey⟩ := Option.map_eq_some_iff.1 hkey
        exact ⟨⟨k, hk, hkey.symm⟩, ⟨u, hu, hv.trans hvalue.symm⟩⟩
    rw [List.forall₂_cons_left_iff, List.forall₂_cons_left_iff]
    simp only [hiff, ih]

private theorem exists_reread (hvalues : ∀ e ∈ entries, e.2.OptText) (hkeys : ∀ e ∈ entries, e.1.keyText? ≠ none)
    (reg : Registry) (fuel id : Nat) (s : Store) (kind : NativeKind) (i : Instantiator) :
    ∃ text, (Converter.codec id (.texts kind i) []).toJson reg (fuel + 1) (some (.map entries)) s = .ok text s ∧
      ∀ (ds : Delegates) (fuel : Nat) (v : Option Value), (Converter.codec id (.texts kind i) []).fromJson ds
        (fuel + 1) text = .ok v ↔
        ∃ kvs, v = some (.map kvs) ∧ List.Forall₂ kind.Rereads entries kvs ∧ (kvs.map (·.1.display)).Nodup := by
  obtain ⟨text, xs, hwrite, hxs, hspells⟩ := exists_written hvalues hkeys reg fuel id s kind i
  refine ⟨text, hwrite, fun ds fuel v => ?_⟩
  -- an object of texts is not nested
  have hflat : Document.entriesDepth (xs.map fun x => (x.1, x.2.2)) ≤ 0 := by
    refine Document.entriesDepth_le_iff.2 (List.forall_mem_map.2 fun x hx => ?_)
    obtain ⟨e, -, he⟩ := forall₂_of_mem_right hxs hx
    exact he.value.flat.le
  have hdepth : (Document.object (xs.map fun x => (x.1, x.2.2))).depth ≤ maxDepth := by
    rw [Document.depth]
    exact Nat.succ_le_of_lt (Nat.lt_of_le_of_lt hflat (by decide))
  rw [fromJson_eq_ok_codec hspells, and_iff_right hdepth]
  constructor
  · intro hread
    obtain ⟨kvs, hkvs, rfl⟩ := Option.map_eq_some_iff.1 hread
    exact ⟨kvs, rfl, (named?_written hxs).1 hkvs⟩
  · rintro ⟨kvs, rfl, hkvs⟩
    exact Option.map_eq_some_iff.2 ⟨kvs, (named?_written hxs).2 hkvs, rfl⟩

end Names

namespace Converter

variable {reg : Registry} {fuel id : Nat} {s s' : Store} {ds : Delegates} {kind : NativeKind} {i : Instantiator}
  {entries : List (Value × Value)} {text : String}

/-- A map of texts that was written as an object is read back with as many entries exactly if the kind of the keys
makes a key of the text of each of them, and no two of these keys are the same. -/
theorem fromJson_written_names (hvalues : ∀ e ∈ entries, ∃ t, e.2 = .str t)
    (hwrite : (codec id (.texts kind i) []).toJson reg fuel (some (.map entries)) s = .ok text s') (ds : Delegates)
    (fuel' : Nat) (v : Option Value) :
    (codec id (.texts kind i) []).fromJson ds (fuel' + 1) text = .ok v ↔
      ∃ kvs, v = some (.map kvs) ∧ kvs.length = entries.length ∧ List.Forall₂ kind.Rereads entries kvs ∧
        (kvs.map (·.1.display)).Nodup := by
  have htexts : ∀ e ∈ entries, e.2.OptText := by
    intro e he
    obtain ⟨t, ht⟩ := hvalues e he
    exact ht ▸ .str t
  cases fuel with
  | zero => cases hwrite
  | succ fuel =>
    -- a key without a text would have been refused
    have hkeys : ∀ e ∈ entries, e.1.keyText? ≠ none := by
      cases hfind : entries.find? (fun e => e.1.keyText?.isNone) with
      | none => simpa using hfind
      | some e => cases (toJson_unnamed htexts hfind reg fuel id s kind i).symm.trans hwrite
    obtain ⟨text', hwrite', hread⟩ := exists_reread htexts hkeys reg fuel id s kind i
    obtain ⟨rfl, -⟩ := ok_inj.1 (hwrite'.symm.trans hwrite)
    rw [hread]
    refine exists_congr fun kvs => and_congr_right fun _ => ?_
    exact ⟨fun h => ⟨h.1.length_eq.symm, h⟩, And.right⟩

/-- Numbers by words: one of the words is a number, and the other one a truth value. -/
def wordsByName : List (Value × Value) := [(.int 1, .str "one"), (.bool true, .str "yes")]

private theorem wordsByName_values : ∀ e ∈ wordsByName, ∃ t, e.2 = .str t :=
  List.forall_mem_cons.2 ⟨⟨"one", rfl⟩, List.forall_mem_singleton.2 ⟨"yes", rfl⟩⟩

theorem fromJson_written_names_words : (∀ e ∈ wordsByName, ∃ t, e.2 = .str t) ∧ ∃ text,
    (codec 0 (.texts .string .vec) []).toJson (.ofModules [] []) 1 (some (.map wordsByName)) .empty =
    .ok text .empty ∧
      (codec 0 (.texts .string .vec) []).fromJson [] 1 text =
        .ok (some (.map [(.str "1", .str "one"), (.str "true", .str "yes")])) := by
  have hvalues := wordsByName_values
  have htexts : ∀ e ∈ wordsByName, e.2.OptText :=
    List.forall_mem_cons.2 ⟨.str _, List.forall_mem_singleton.2 (.str _)⟩
  obtain ⟨text, hwrite, -⟩ :=
    exists_reread htexts (by simp [wordsByName, Value.keyText?]) (.ofModules [] []) 0 0 .empty .string .vec
  refine ⟨hvalues, text, hwrite, (fromJson_written_names hvalues hwrite [] 0 _).2 ⟨_, rfl, rfl, ?_, by decide⟩⟩
  exact .cons ⟨"1", rfl, rfl, rfl⟩ (.cons ⟨"true", rfl, rfl, rfl⟩ .nil)

/-- A text that is no number is written as the name of one, which is not read. -/
theorem not_forall_fromJson_written_names : ¬∀ (kind : NativeKind) (i : Instantiator) (entries : List (Value × Value))
    (text : String), (entries.map (·.1)).Nodup → (∀ e ∈ entries, ∃ t, e.2 = .str t) →
      (codec 0 (.texts kind i) []).toJson (.ofModules [] []) 1 (some (.map entries)) .empty = .ok text .empty →
        ∃ kvs, (codec 0 (.texts kind i) []).fromJson [] 1 text = .ok (some (.map kvs)) ∧
          kvs.length = entries.length := by
  intro hall
  let entries : List (Value × Value) := [(.str "abc", .str "x")]
  have htexts : ∀ e ∈ entries, e.2.OptText := List.forall_mem_singleton.2 (.str "x")
  have hkeys : ∀ e ∈ entries, e.1.keyText? ≠ none := List.forall_mem_singleton.2 nofun
  obtain ⟨text, hwrite, hread⟩ := exists_reread htexts hkeys (.ofModules [] []) 0 0 .empty .i32 .vec
  obtain ⟨kvs, hkvs, -⟩ :=
    hall .i32 .vec entries text (List.nodup_singleton _) (List.forall_mem_singleton.2 ⟨"x", rfl⟩) hwrite
  obtain ⟨_, -, hrereads, -⟩ := (hread [] 0 _).1 hkvs
  obtain ⟨kv, _, ⟨name, hname, hkey, -⟩, -, -⟩ := List.forall₂_cons_left_iff.1 hrereads
  obtain rfl := Option.some.inj hname
  rw [NativeKind.ofName?_eq rfl] at hkey
  exact absurd hkey nofun

/-! ### Maps that were read -/

private theorem entered_names {j : Document}
    (h : (Codec.texts kind i).ofDocument? unbound j = some (some (.map entries))) :
    (∀ e ∈ entries, Entered kind.ofDocument? (NativeKind.string).ofDocument? e) ∧
      (entries.map (·.1.display)).Nodup := by
  rw [Codec.texts, Codec.ofDocument?_objectMap] at h
  obtain ⟨kvs, heq, hread⟩ := (eq_none_or_exists_of_map? h).resolve_left nofun
  cases heq
  exact ⟨fun e he => hread.entered he, hread.nodup⟩

/-- A map of texts that was read, with keys of a native kind that is no kind of floats, is written, and read again
from what is written, unless a null is among its keys.  Then it is refused. -/
theorem toJson_read_names (hkind : kind.isKey = true) (hfloat : kind.isFloat = false)
    (hread : (codec id (.texts kind i) []).fromJson ds fuel text = .ok (some (.map entries))) (reg : Registry)
    (fuel' : Nat) (s : Store) :
    ((∀ e ∈ entries, e.1 ≠ .null) → ∃ text',
      (codec id (.texts kind i) []).toJson reg (fuel' + 1) (some (.map entries)) s = .ok text' s ∧
        (codec id (.texts kind i) []).fromJson ds fuel text' = .ok (some (.map entries))) ∧
    ((∃ e ∈ entries, e.1 = .null) →
      (codec id (.texts kind i) []).toJson reg (fuel' + 1) (some (.map entries)) s =
        .error (.valueMismatch kind.typePath "null") s) := by
  cases fuel with
  | zero => cases hread
  | succ fuel =>
    obtain ⟨j, -, hj⟩ := exists_spelled_of_fromJson_codec hread
    obtain ⟨hentered, hdistinct⟩ := entered_names hj
    have hvalues : ∀ e ∈ entries, e.2.OptText := by
      intro e he
      obtain ⟨j', u, hu, heq⟩ := (hentered e he).value
      exact heq ▸ Value.optText_of_read hu
    have hkeys : ∀ e ∈ entries, e.1 = .null ∨ kind.Rereads e e := by
      intro e he
      obtain ⟨j', u, hu, heq⟩ := (hentered e he).key
      rcases NativeKind.eq_null_or_exists_name hkind hfloat hu with hnull | ⟨name, hname, hkey⟩
      · exact .inl (heq.trans hnull)
      · rw [← heq] at hname hkey
        exact .inr ⟨name, hname, hkey, rfl⟩
    constructor
    · intro hnull
      have hrereads : ∀ e ∈ entries, kind.Rereads e e := fun e he => (hkeys e he).resolve_left (hnull e he)
      have hnamed : ∀ e ∈ entries, e.1.keyText? ≠ none := by
        intro e he
        obtain ⟨name, hname, -⟩ := hrereads e he
        exact hname ▸ nofun
      obtain ⟨text', hwrite, hreread⟩ := exists_reread hvalues hnamed reg fuel' id s kind i
      exact ⟨text', hwrite, (hreread ds fuel _).2 ⟨entries, rfl, List.forall₂_same.2 hrereads, hdistinct⟩⟩
    · rintro ⟨e, he, hnull⟩
      -- the first key without a text is a null
      obtain ⟨e', hfind⟩ : ∃ e', entries.find? (fun e => e.1.keyText?.isNone) = some e' := by
        refine Option.isSome_iff_exists.1 (List.find?_isSome.2 ⟨e, he, ?_⟩)
        rw [hnull]
        rfl
      have hnull' : e'.1 = .null := by
        refine (hkeys e' (List.mem_of_find?_eq_some hfind)).resolve_right ?_
        rintro ⟨name, hname, -⟩
        have hnone := List.find?_some hfind
        rw [hname] at hnone
        cases hnone
      rw [toJson_unnamed hvalues hfind reg fuel' id s kind i, hnull']
      rfl

/-- Two numbers, spelled at length, in front of a text and of none. -/
private def spelledAtLength : Json := .object [("+7", .string ['x']), ("008", .null)]

theorem toJson_read_names_numbers :
    let c := codec 0 (.texts .i32 .vec) []
    let entries : List (Value × Value) := [(.int 7, .str "x"), (.int 8, .null)]
    c.fromJson [] 1 (String.ofList spelledAtLength.text) = .ok (some (.map entries)) ∧ (∀ e ∈ entries, e.1 ≠ .null) ∧
      ∃ text, c.toJson (.ofModules [] []) 1 (some (.map entries)) .empty = .ok text .empty ∧
        c.fromJson [] 1 text = .ok (some (.map entries)) := by
  intro c entries
  have hread : c.fromJson [] 1 (String.ofList spelledAtLength.text) = .ok (some (.map entries)) :=
    (fromJson_eq_ok_codec spelledAtLength.spellsDocument_text.loose).2 ⟨by decide, by rfl⟩
  have hnull : ∀ e ∈ entries, e.1 ≠ .null := List.forall_mem_cons.2 ⟨nofun, List.forall_mem_singleton.2 nofun⟩
  exact ⟨hread, hnull, (toJson_read_names rfl rfl hread _ 0 .empty).1 hnull⟩

/-- A null in front of a text. -/
private def nullPair : Json := .array [.array [.null, .string ['x']]]

/-- The key that is read off a null has no text. -/
theorem not_forall_toJson_read_names : ¬∀ (kind : NativeKind) (i : Instantiator) (entries : List (Value × Value))
    (text : String), kind.isKey = true → kind ≠ .f32 ∧ kind ≠ .f64 →
      (codec 0 (.texts kind i) []).fromJson [] 1 text = .ok (some (.map entries)) →
        ∃ text', (codec 0 (.texts kind i) []).toJson (.ofModules [] []) 1 (some (.map entries)) .empty =
          .ok text' .empty ∧ (codec 0 (.texts kind i) []).fromJson [] 1 text' = .ok (some (.map entries)) := by
  intro hall
  let entries : List (Value × Value) := [(.null, .str "x")]
  have hread :
      (codec 0 (.texts .i32 .vec) []).fromJson [] 1 (String.ofList nullPair.text) = .ok (some (.map entries)) :=
    (fromJson_eq_ok_codec nullPair.spellsDocument_text.loose).2 ⟨by decide, rfl⟩
  obtain ⟨text, hwrite, -⟩ := hall .i32 .vec entries _ rfl (by decide) hread
  have hvalues : ∀ e ∈ entries, e.2.OptText := List.forall_mem_singleton.2 (.str "x")
  have hfind : entries.find? (fun e => e.1.keyText?.isNone) = some (.null, .str "x") := rfl
  cases (toJson_unnamed hvalues hfind (.ofModules [] []) 0 0 .empty .i32 .vec).symm.trans hwrite

end Converter

end Marshal
