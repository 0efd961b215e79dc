import Marshal.Proofs.Adapter.Decoding
import Marshal.Proofs.Converter.Appending
import Marshal.Proofs.Converter.Encoding
import Marshal.Proofs.Converter.Entries
import Marshal.Proofs.Stream.Acceptance
import Marshal.Value.Equality

/-!
# The two encodings of a map

A map with native keys is written as an object, under the texts of its keys, or as an array of pairs.  Both codecs
read both encodings, so what one of them writes the other reads back (`Converter.fromJson_map_written`).
-/

namespace Marshal

open Effect Reader WriteM
open Text (quote)

/-! ### Joined texts -/

namespace Dialect

variable {d : Dialect}

/-- Nothing has to stand around the value of a document. -/
theorem Spells.document {j : Document} {s : List Char} (h : d.Spells (.value j) s) : d.SpellsDocument j s := by
  simpa using SpellsDocument.mk d.blank_nil h d.blank_nil

/-- Texts that spell documents, joined, spell the rest of an array.  The blanks in front are those behind the element
before. -/
private theorem spells_joined_items : ∀ (xs : List (List Char × Document)), (∀ x ∈ xs, d.SpellsDocument x.2 x.1) →
    ∀ (first : Bool) {b : List Char}, d.Blank b →
      d.Spells (.items first (xs.map (·.2))) (b ++ (joined first (xs.map (·.1)) ++ [']']))
  | [], _, first, _, hb => .endArray first hb
  | (t, j) :: xs, h, first, b, hb => by
    obtain ⟨hx, hxs⟩ := List.forall_mem_cons.1 h
    obtain ⟨hb₁, hj, hb₂⟩ : d.SpellsDocument j t := hx
    have hrest := spells_joined_items xs hxs false hb₂
    cases first with
    | true => simpa [joined] using Spells.item (.first (List.forall_mem_append.2 ⟨hb, hb₁⟩)) hj hrest
    | false => simpa [joined] using Spells.item (.next hb hb₁) hj hrest

theorem spells_joined_entries :
    ∀ (xs : List (String × List Char × Document)), (∀ x ∈ xs, loose.SpellsDocument x.2.2 x.2.1) →
    ∀ (first : Bool) {b : List Char}, loose.Blank b →
      loose.Spells (.entries first (xs.map fun x => (x.1, x.2.2)))
        (b ++ (joined first (xs.map fun x => quote x.1.toList ++ ':' :: x.2.1) ++ ['\x7d']))
  | [], _, first, _, hb => .endObject first hb
  | (name, t, j) :: xs, h, first, b, hb => by
    obtain ⟨hx, hxs⟩ := List.forall_mem_cons.1 h
    obtain ⟨hb₁, hj, hb₂⟩ : loose.SpellsDocument j t := hx
    have hrest := spells_joined_entries xs hxs false hb₂
    have hname := (spellsText_escape name.toList).loose
    cases first with
    | true => simpa [joined, quote] using Spells.entry (.first hb) hname loose.blank_nil hb₁ hj hrest
    | false => simpa [joined, quote] using Spells.entry (.next hb loose.blank_nil) hname loose.blank_nil hb₁ hj hrest

end Dialect

open Dialect (loose)

/-! ### Keys -/

/-- What a computation reads off the compact text of a document without containers is what it decides of the
document. -/
private theorem eq_some_of_reads {α : Type} {m : ReadM α} {a : α} {j : Json} {o : Option α} (h : Reads m a j)
    (hm : Decides m j.document o) (hj : j.document.depth = 0) (hj' : j.depth = 0) : o = some a := by
  obtain ⟨c, t, htext, hkind⟩ := head_text j
  have hpeek : peek (ofText j.text) = .ok j.kind ⟨⟨j.text ++ [], 0⟩, true, [], some j.kind⟩ := by
    rw [List.append_nil, htext]
    exact peek_document hkind
  have hkinds : j.document.kind = j.kind := by cases j <;> rfl
  have hat : At ⟨[], true, []⟩ j.document (ofText j.text) :=
    ⟨⟨.standard, j.text, 0, j.spells_text, by rw [hkinds]; exact hpeek⟩, nofun, by simp [hj]⟩
  obtain ⟨o', hread⟩ := h _ _ _ _ _ hpeek nofun (by simp [hj'])
  have hgives := hm _ _ hat
  cases o with
  | none =>
    obtain ⟨e, r', hfail⟩ := hgives
    cases hfail.symm.trans hread
  | some b =>
    obtain ⟨r', hok, -⟩ := hgives
    rw [(ok_inj.1 (hok.symm.trans hread)).1]

namespace NativeKind

variable {kind : NativeKind} {k : Value}

/-- A key is written as a document of its kind. -/
private theorem Carries.exists_spelled (h : kind.Carries k) (htext : k.PathsAreText) (s : Store)
    (call : Nat → Option Value → WriteM Unit) : ∃ text j,
    Appends s ((Codec.native kind).writeWith call none (some k)) text ∧ loose.SpellsDocument j text ∧
      kind.ofDocument? j = some (some k) := by
  obtain ⟨j, hwrites, hreads, haccepted⟩ := h.exists_encodes htext s
  have hspells := j.spellsDocument_text.loose
  rw [String.toList_ofList] at hspells
  have hleaf : j.document.depth = 0 ∧ j.depth = 0 := by
    cases j with
    | array | object => cases kind <;> simp [acceptedTokens, Json.kind] at haccepted
    | null | bool | string | number => exact ⟨rfl, rfl⟩
  have hread := reads_read (not_null_of_mem_acceptedTokens haccepted) hreads
  have hpresent : Value.present? (some k) = some k := by cases h <;> rfl
  refine ⟨j.text, j.document, ?_, hspells, eq_some_of_reads hread (kind.decides_read _) hleaf.1 hleaf.2⟩
  rw [Codec.writeWith, NativeKind.write, hpresent, hpresent]
  exact hwrites

/-- The name of a key is read as the key. -/
private theorem Carries.exists_named (h : kind.Carries k) (htext : k.PathsAreText) :
    ∃ name, k.keyText? = some name ∧ kind.ofDocument? (.string name) = some (some k) := by
  obtain ⟨name, hname, hreads⟩ := h.exists_keyText htext
  have hdecides := kind.decides_read (Json.string name.toList).document
  have hread := eq_some_of_reads (reads_read (by simp [Json.kind]) hreads) hdecides rfl rfl
  rw [Json.document, String.ofList_toList] at hread
  exact ⟨name, hname, hread⟩

end NativeKind

/-! ### Values -/

/-- What the codec, by itself, writes of the value it reads back. -/
def Codec.Restores (reg : Registry) (fuel : Nat) (s : Store) (c : Codec) (v : Value) : Prop :=
  ∃ text s', (Converter.codec 0 c []).toJson reg fuel (some v) s = .ok text s' ∧
    (Converter.codec 0 c []).fromJson s.delegates fuel text = .ok (some v)

/-- What is appended to nothing is the document. -/
theorem Converter.toJson_of_appends {reg : Registry} {fuel : Nat} {s : Store} {c : Converter} {v : Option Value}
    {text : List Char} (h : Appends s (c.write reg fuel v) text) :
    c.toJson reg fuel v s = .ok (String.ofList text) s := by
  have hout := h .empty "" true [] rfl
  rw [String.empty_append] at hout
  unfold toJson
  simp only [hout]
  rfl

section Values

variable {reg : Registry} {fuel : Nat} {s : Store}

/-- What a codec without bindings makes of a text that spells a document. -/
theorem fromJson_eq_ok_codec {ds : Delegates} {id : Nat} {c : Codec} {j : Document} {text : String}
    (h : loose.SpellsDocument j text.toList) {v : Option Value} :
    (Converter.codec id c []).fromJson ds (fuel + 1) text = .ok v ↔ j.depth ≤ maxDepth ∧
    c.ofDocument? unbound j = some v :=
  (Converter.Leaf.codec id c).fromJson_eq_ok h

/-- What a codec without bindings reads off a text it reads off a document that the text spells. -/
theorem exists_spelled_of_fromJson_codec {ds : Delegates} {id : Nat} {c : Codec} {text : String} {v : Option Value}
    (h : (Converter.codec id c []).fromJson ds (fuel + 1) text = .ok v) :
    ∃ j, loose.SpellsDocument j text.toList ∧ c.ofDocument? unbound j = some v := by
  obtain ⟨j, hj, -, hv⟩ := (Converter.Leaf.codec id c).exists_spelled h
  exact ⟨j, hj, hv⟩

/-- A value that is restored is written as the same text wherever it stands, and the text spells what it is read
from. -/
private theorem Codec.Restores.exists_spelled {c : Codec} {v : Value} (h : c.Restores reg (fuel + 1) s v) :
    ∃ text j, Appends s (c.writeWith (Converter.writeBinding (Converter.write reg fuel) []) none (some v)) text ∧
      loose.SpellsDocument j text ∧ c.ofDocument? unbound j = some (some v) := by
  obtain ⟨text, s', hwrite, hread⟩ := h
  have hrepeats : Repeats s (c.writeWith (Converter.writeBinding (Converter.write reg fuel) []) none (some v)) :=
    repeats_codec (fun _ _ => repeats_throw _) c (some v)
  -- it was written once, as a document
  obtain ⟨text', htext'⟩ : ∃ text', Appends s ((Converter.codec 0 c []).write reg (fuel + 1) (some v)) text' := by
    unfold Converter.toJson at hwrite
    split at hwrite
    · next hrun => exact hrepeats .empty "" true [] _ rfl hrun
    · cases hwrite
  obtain ⟨rfl, -⟩ := ok_inj.1 ((Converter.toJson_of_appends htext').symm.trans hwrite)
  obtain ⟨j, hj, hread⟩ := exists_spelled_of_fromJson_codec hread
  exact ⟨text', j, htext', by rwa [String.toList_ofList] at hj, hread⟩

end Values

/-! ### Maps -/

/-- What stands for an entry of a map: its name, and the texts of its key and of its value, with the documents that
they spell. -/
structure Encoded where
  name : String
  key : List Char × Document
  value : List Char × Document

namespace Encoded

/-- The text of the entry of an object. -/
def entryText (x : Encoded) : List Char := quote x.name.toList ++ ':' :: x.value.1

def pairText (x : Encoded) : List Char := '[' :: (joined true [x.key.1, x.value.1] ++ [']'])

def entry (x : Encoded) : String × Document := (x.name, x.value.2)

def pair (x : Encoded) : Document := .array [x.key.2, x.value.2]

end Encoded

section Maps

variable {reg : Registry} {fuel : Nat} {s : Store} {kind : NativeKind} {value : Codec}
  {entries : List (Value × Value)} {xs : List Encoded}

/-- The entry is written and read so. -/
structure Encoded.Encodes (reg : Registry) (fuel : Nat) (s : Store) (kind : NativeKind) (value : Codec)
    (e : Value × Value) (x : Encoded) : Prop where
  keyText : e.1.keyText? = some x.name
  named : kind.ofDocument? (.string x.name) = some (some e.1)
  writes_key : Appends s
    ((Codec.native kind).writeWith (Converter.writeBinding (Converter.write reg fuel) []) none (some e.1)) x.key.1
  spells_key : loose.SpellsDocument x.key.2 x.key.1
  reads_key : kind.ofDocument? x.key.2 = some (some e.1)
  writes_value :
    Appends s (value.writeWith (Converter.writeBinding (Converter.write reg fuel) []) none (some e.2)) x.value.1
  spells_value : loose.SpellsDocument x.value.2 x.value.1
  reads_value : value.ofDocument? unbound x.value.2 = some (some e.2)

private theorem exists_encoded : ∀ (entries : List (Value × Value)), (∀ e ∈ entries, kind.Carries e.1) →
    (∀ e ∈ entries, e.1.PathsAreText) → (∀ e ∈ entries, value.Restores reg (fuel + 1) s e.2) →
      ∃ xs, List.Forall₂ (Encoded.Encodes reg fuel s kind value) entries xs
  | [], _, _, _ => ⟨[], .nil⟩
  | e :: entries, hkeys, htext, hvalues => by
    rw [List.forall_mem_cons] at hkeys htext hvalues
    obtain ⟨xs, hxs⟩ := exists_encoded entries hkeys.2 htext.2 hvalues.2
    obtain ⟨name, hname, hnamed⟩ := hkeys.1.exists_named htext.1
    obtain ⟨kt, kj, hkw, hks, hkr⟩ := hkeys.1.exists_spelled htext.1 s _
    obtain ⟨vt, vj, hvw, hvs, hvr⟩ := hvalues.1.exists_spelled
    exact ⟨⟨name, (kt, kj), (vt, vj)⟩ :: xs, .cons ⟨hname, hnamed, hkw, hks, hkr, hvw, hvs, hvr⟩ hxs⟩

/-- An object is written under the texts of the keys, whatever the kind of the keys. -/
theorem appends_objectMap {call : Nat → Option Value → WriteM Unit} (xs : List (String × List Char))
    (h : List.Forall₂ (fun e x => e.1.keyText? = some x.1 ∧ Appends s (value.writeWith call none (some e.2)) x.2)
      entries xs)
    (kind : NativeKind) (i : Instantiator) :
    Appends s ((Codec.objectMap kind value i).writeWith call none (some (.map entries)))
      ('\x7b' :: (joined true (xs.map fun x => quote x.1.toList ++ ':' :: x.2) ++ ['\x7d'])) := by
  refine AppendsParts.object (appendsParts_writeEach (List.forall₂_map_right_iff.2 (h.imp ?_)))
  rintro ⟨k, v⟩ x ⟨hname, hvalue⟩
  have hentry := hvalue.entry x.1
  dsimp only
  rw [hname]
  exact hentry

/-- The first key without a text is refused. -/
theorem objectMap_of_unnamed {call : Nat → Option Value → WriteM Unit} {before : List (Value × Value)}
    {e : Value × Value} (xs : List (String × List Char))
    (h : List.Forall₂ (fun e x => e.1.keyText? = some x.1 ∧ Appends s (value.writeWith call none (some e.2)) x.2)
      before xs)
    (he : e.1.keyText? = none) (behind : List (Value × Value)) (kind : NativeKind) (i : Instantiator) :
    ∃ w, (Codec.objectMap kind value i).writeWith call none (some (.map (before ++ e :: behind))) ⟨.empty, s⟩ =
      .error (.valueMismatch kind.typePath e.1.kindName) ⟨w, s⟩ := by
  have hbegin : token Writer.beginObject ⟨.empty, s⟩ = .ok ⟨⟩ ⟨⟨"\x7b", true, [.object true false]⟩, s⟩ := rfl
  have hparts (write : Value × Value → WriteM Unit) (hwrite : ∀ e name, e.1.keyText? = some name →
      write e = do
        token (Writer.name name)
        value.writeWith call none (some e.2)) :
      List.Forall₂ (fun e t => AppendsParts entries s (write e) [t]) before
        (xs.map fun x => quote x.1.toList ++ ':' :: x.2) := by
    refine List.forall₂_map_right_iff.2 (h.imp fun e x hx => ?_)
    rw [hwrite e x.1 hx.1]
    exact hx.2.entry x.1
  refine ⟨_, (bind_of_ok hbegin).trans
    (bind_of_error (writeEach_of_throw (hparts _ ?_) ?_ behind "\x7b" true true []))⟩
  · intro e name hname
    simp only [hname]
  · simp only [he]
    rfl

private theorem appends_entries (h : List.Forall₂ (Encoded.Encodes reg fuel s kind value) entries xs)
    (i : Instantiator) :
    Appends s ((Codec.objectMap kind value i).writeWith (Converter.writeBinding (Converter.write reg fuel) []) none
      (some (.map entries))) ('\x7b' :: (joined true (xs.map Encoded.entryText) ++ ['\x7d'])) := by
  have hobject := appends_objectMap (xs.map fun x => (x.name, x.value.1))
    (List.forall₂_map_right_iff.2 (h.imp fun _ _ hx => ⟨hx.keyText, hx.writes_value⟩)) kind i
  rw [List.map_map] at hobject
  exact hobject

private theorem appends_pairMap (h : List.Forall₂ (Encoded.Encodes reg fuel s kind value) entries xs)
    (i : Instantiator) :
    Appends s
      ((Codec.pairMap (.native kind) value i).writeWith (Converter.writeBinding (Converter.write reg fuel) []) none
      (some (.map entries))) ('[' :: (joined true (xs.map Encoded.pairText) ++ [']'])) := by
  refine AppendsParts.array (appendsParts_writeEach (List.forall₂_map_right_iff.2 (h.imp ?_)))
  rintro ⟨k, v⟩ x hx
  exact hx.writes_key.pair hx.writes_value

variable (h : List.Forall₂ (Encoded.Encodes reg fuel s kind value) entries xs)

include h

private theorem spells_encoded :
    ∀ x ∈ xs, loose.SpellsDocument x.key.2 x.key.1 ∧ loose.SpellsDocument x.value.2 x.value.1 :=
  ((List.forall₂_and_left xs entries).1 (h.flip.imp fun _ _ he => ⟨⟨he.spells_key, he.spells_value⟩, he⟩)).1

private theorem spells_entries : loose.SpellsDocument (.object (xs.map Encoded.entry))
    ('\x7b' :: (joined true (xs.map Encoded.entryText) ++ ['\x7d'])) := by
  have hxs : ∀ x ∈ xs.map fun x => (x.name, x.value), loose.SpellsDocument x.2.2 x.2.1 :=
    List.forall_mem_map.2 fun x hx => (spells_encoded h x hx).2
  have hspells := Dialect.spells_joined_entries _ hxs true loose.blank_nil
  rw [List.map_map, List.map_map] at hspells
  exact (Dialect.Spells.object hspells).document

private theorem spells_pairs : loose.SpellsDocument (.array (xs.map Encoded.pair))
    ('[' :: (joined true (xs.map Encoded.pairText) ++ [']'])) := by
  have hxs : ∀ x ∈ xs.map fun x => (x.pairText, x.pair), loose.SpellsDocument x.2 x.1 := by
    refine List.forall_mem_map.2 fun x hx => ?_
    have hparts : ∀ y ∈ [x.key, x.value], loose.SpellsDocument y.2 y.1 := by
      simpa using spells_encoded h x hx
    exact (Dialect.Spells.array (Dialect.spells_joined_items _ hparts true loose.blank_nil)).document
  have hspells := Dialect.spells_joined_items _ hxs true loose.blank_nil
  rw [List.map_map, List.map_map] at hspells
  exact (Dialect.Spells.array hspells).document

variable (hdistinct : (entries.map (·.1.display)).Nodup)

include hdistinct

/-- Both codecs read the entries off an object. -/
private theorem named?_encoded :
    named? kind.ofDocument? (value.ofDocument? unbound) (xs.map Encoded.entry) = some entries := by
  refine named?_eq_some.2 ⟨(List.forall₂_map_right_iff.2 (h.imp fun e x hx => ?_)).flip, hdistinct⟩
  exact ⟨⟨_, hx.named, rfl⟩, ⟨_, hx.reads_value, rfl⟩⟩

/-- Both codecs read the entries off an array of pairs. -/
private theorem pairs?_encoded :
    pairs? kind.ofDocument? (value.ofDocument? unbound) (xs.map Encoded.pair) = some entries := by
  refine pairs?_eq_some.2 ⟨(List.forall₂_map_right_iff.2 (h.imp fun e x hx => ?_)).flip, hdistinct⟩
  exact .mk ⟨_, hx.reads_key, rfl⟩ ⟨_, hx.reads_value, rfl⟩

end Maps

namespace Converter

variable {reg : Registry} {s : Store} {fuel : Nat} {kind : NativeKind} {value : Codec}
  {entries : List (Value × Value)}

/-- Both encodings of a map are read by both codecs.  A map whose keys are of the kind, with texts of their own, and
whose values the codec for values restores, is written by either codec, and what is written, unless it nests too deep,
is read as the map by either. -/
theorem fromJson_map_written (hkeys : ∀ e ∈ entries, kind.Carries e.1) (htext : ∀ e ∈ entries, e.1.PathsAreText)
    (hdistinct : (entries.map (·.1.display)).Nodup) (hvalues : ∀ e ∈ entries, value.Restores reg (fuel + 1) s e.2)
    (i i' : Instantiator) (id id' : Nat) :
    let codecs : List Codec := [.objectMap kind value i, .pairMap (.native kind) value i']
    ∀ c ∈ codecs, ∃ text j, (codec id c []).toJson reg (fuel + 1) (some (.map entries)) s = .ok text s ∧
      loose.SpellsDocument j text.toList ∧ (j.depth ≤ maxDepth → ∀ c' ∈ codecs,
        (codec id' c' []).fromJson s.delegates (fuel + 1) text = .ok (some (.map entries))) := by
  intro codecs c hc
  obtain ⟨xs, hxs⟩ := exists_encoded entries hkeys htext hvalues
  obtain ⟨text, j, happends, hspells, hread⟩ :
      ∃ text j, Appends s ((codec id c []).write reg (fuel + 1) (some (.map entries))) text ∧
      loose.SpellsDocument j text ∧ ∀ c' ∈ codecs, c'.ofDocument? unbound j = some (some (.map entries)) := by
    rcases List.mem_pair.1 hc with rfl | rfl
    · refine ⟨_, .object (xs.map Encoded.entry), appends_entries hxs i, spells_entries hxs, ?_⟩
      have hnamed := named?_encoded hxs hdistinct
      have hread := congrArg (Option.map fun kvs => some (Value.map kvs)) hnamed
      exact List.forall_mem_cons.2 ⟨hread, List.forall_mem_singleton.2 hread⟩
    · refine ⟨_, .array (xs.map Encoded.pair), appends_pairMap hxs i', spells_pairs hxs, ?_⟩
      have hpairs := pairs?_encoded hxs hdistinct
      have hread := congrArg (Option.map fun kvs => some (Value.map kvs)) hpairs
      exact List.forall_mem_cons.2 ⟨hread, List.forall_mem_singleton.2 hread⟩
  have hspells' : loose.SpellsDocument j (String.ofList text).toList := by rwa [String.toList_ofList]
  refine ⟨String.ofList text, j, toJson_of_appends happends, hspells', fun hdepth c' hc' => ?_⟩
  exact (fromJson_eq_ok_codec hspells').2 ⟨hdepth, hread c' hc'⟩

/-- What a text spells does not nest too deep if something that it spells does not: else an enumeration, which makes
something of every value, would not read the text. -/
private theorem depth_le_of_spells {d d' : Dialect} {j j' : Document} {text : String}
    (h : d.SpellsDocument j text.toList) (h' : d'.SpellsDocument j' text.toList) (hj : j.depth ≤ maxDepth) :
    j'.depth ≤ maxDepth := by
  have hread := toOption_fromJson (List.forall_mem_nil _) (.enum 0 default) 1 h
  rw [toOption_fromJson (List.forall_mem_nil _) (.enum 0 default) 1 h', if_pos hj] at hread
  by_contra hj'
  rw [if_neg hj'] at hread
  cases hread

/-! Names by number: texts in lists, under numbers. -/

def names : Codec := .sequence (.native .string) .vec

def namesByNumber : List (Value × Value) := [(.int (-7), .list [.str "a", .str "b"]), (.int 12, .list [])]

private theorem writes_names (call : Nat → Option Value → WriteM Unit) (s : Store) (ts : List String) :
    Writes s (names.writeWith call none (some (.list (ts.map .str)))) (.array (ts.map fun t => .string t.toList)) :=
  writes_array <| writesItems_writeEach <| List.forall₂_map_left_iff.2 <| List.forall₂_map_right_iff.2 <|
    List.forall₂_same.2 fun t _ => writes_string t

private theorem writes_number_key (call : Nat → Option Value → WriteM Unit) (s : Store) {n : Int64}
    (hn : NativeKind.i8.fits n = true) : Writes s ((Codec.native .i8).writeWith call none (some (.int n)))
      (.number _ (NativeKind.isNumber_toString n.toInt)) := by
  have hint : (Codec.native .i8).writeWith call none (some (.int n)) = token (Writer.int n) := if_pos hn
  rw [hint]
  exact writes_number (NativeKind.isNumber_toString n.toInt)

theorem fromJson_map_written_names :
    let codecs : List Codec := [.objectMap .i8 names .bTreeMap, .pairMap (.native .i8) names .bTreeMap]
    ∀ c ∈ codecs, ∃ text, (codec 0 c []).toJson (.ofModules [] []) 1 (some (.map namesByNumber)) .empty =
      .ok text .empty ∧ ∀ c' ∈ codecs, (codec 0 c' []).fromJson [] 1 text = .ok (some (.map namesByNumber)) := by
  intro codecs c hc
  have hkeys : ∀ e ∈ namesByNumber, NativeKind.i8.Carries e.1 :=
    List.forall_mem_cons.2 ⟨.int (.inl rfl) (by decide), List.forall_mem_singleton.2 (.int (.inl rfl) (by decide))⟩
  have htext : ∀ e ∈ namesByNumber, e.1.PathsAreText :=
    List.forall_mem_cons.2 ⟨nofun, List.forall_mem_singleton.2 nofun⟩
  have hrestores (ts : List String)
      (hdepth : (Json.array (ts.map fun t => .string t.toList)).document.depth ≤ maxDepth)
      (h : names.ofDocument? unbound (Json.array (ts.map fun t => .string t.toList)).document =
        some (some (.list (ts.map .str)))) :
      names.Restores (.ofModules [] []) 1 .empty (.list (ts.map .str)) :=
    ⟨_, _, toJson_of_appends (writes_names _ .empty ts),
      (fromJson_eq_ok_codec (Json.spellsDocument_text _).loose).2 ⟨hdepth, h⟩⟩
  have hvalues : ∀ e ∈ namesByNumber, names.Restores (.ofModules [] []) 1 .empty e.2 :=
    List.forall_mem_cons.2 ⟨hrestores ["a", "b"] (by decide) rfl,
      List.forall_mem_singleton.2 (hrestores [] (by decide) rfl)⟩
  obtain ⟨text, j, hwrite, hspells, hread⟩ :=
    fromJson_map_written hkeys htext (by decide) hvalues .bTreeMap .bTreeMap 0 0 c hc
  refine ⟨text, hwrite, hread ?_⟩
  have hwrites (ts : List String) := writes_names (writeBinding (write (.ofModules [] []) 0) []) .empty ts
  rcases List.mem_pair.1 hc with rfl | rfl
  · have hobject : Writes .empty ((codec 0 (.objectMap .i8 names .bTreeMap) []).write (.ofModules [] []) 1
        (some (.map namesByNumber))) (.object _) :=
      writes_object (writesEntries_writeEach
        (.cons ((hwrites ["a", "b"]).entry _) (.cons ((hwrites []).entry _) .nil)))
    obtain ⟨rfl, -⟩ := ok_inj.1 ((toJson_of_appends hobject).symm.trans hwrite)
    exact depth_le_of_spells (Json.spellsDocument_text _) hspells (by decide)
  · have hpair (n : Int64) (hn : NativeKind.i8.fits n = true) (ts : List String) :=
      writes_array ((writes_number_key (writeBinding (write (.ofModules [] []) 0) []) .empty hn).item.append
        (hwrites ts).item)
    simp only [bind_assoc] at hpair
    have hpairs : Writes .empty ((codec 0 (.pairMap (.native .i8) names .bTreeMap) []).write (.ofModules [] []) 1
        (some (.map namesByNumber))) (.array _) :=
      writes_array (writesItems_writeEach
        (.cons (hpair (-7) (by decide) ["a", "b"]) (.cons (hpair 12 (by decide) []) .nil)))
    obtain ⟨rfl, -⟩ := ok_inj.1 ((toJson_of_appends hpairs).symm.trans hwrite)
    exact depth_le_of_spells (Json.spellsDocument_text _) hspells (by decide)

end Converter

/-! Maps with a path that is no text, and maps that nest as deep as they may. -/

namespace Value

mutual

/-- The number of containers that are nested in each other in a value. -/
def nesting : Value → Nat
  | .list items => nestingItems items + 1
  | .map entries => nestingEntries entries + 1
  | .object _ fields => nestingFields fields + 1
  | _ => 0
termination_by structural v => v

def nestingItems : List Value → Nat
  | [] => 0
  | v :: vs => max v.nesting (nestingItems vs)
termination_by structural vs => vs

def nestingEntries : List (Value × Value) → Nat
  | [] => 0
  | (k, v) :: es => max (max k.nesting v.nesting) (nestingEntries es)
termination_by structural es => es

def nestingFields : List (String × Value) → Nat
  | [] => 0
  | (_, v) :: fs => max v.nesting (nestingFields fs)
termination_by structural fs => fs

end

end Value

namespace Converter

/-- Maps whose keys are as wanted, and which do not nest too deep, are written by the codecs for maps, and both codecs
read equal maps off what is written, if it is as wanted. -/
def MapsRereadIf (wantedKey : Value → Prop) (wanted : Document → Prop) : Prop :=
  ∀ (kind : NativeKind) (value : Codec) (entries : List (Value × Value)) (s : Store) (fuel : Nat),
    (∀ e ∈ entries, kind.Carries e.1 ∧ wantedKey e.1) → (entries.map (·.1.display)).Nodup →
      (∀ e ∈ entries, value.Restores (.ofModules [] []) (fuel + 1) s e.2) → (Value.map entries).nesting ≤ maxDepth →
        let codecs : List Codec := [.objectMap kind value .vec, .pairMap (.native kind) value .vec]
        ∀ c ∈ codecs, ∃ text j, (codec 0 c []).toJson (.ofModules [] []) (fuel + 1) (some (.map entries)) s =
          .ok text s ∧ loose.SpellsDocument j text.toList ∧ (wanted j → ∀ c' ∈ codecs, ∃ v,
            (codec 0 c' []).fromJson s.delegates (fuel + 1) text = .ok (some v) ∧ (v == .map entries) = true)

private theorem writes_zero (call : Nat → Option Value → WriteM Unit) (s : Store) :
    Writes s ((Codec.native .i32).writeWith call none (some (.int 0))) .zero :=
  writes_number (show IsNumber "0".toList from .plain (.mk .zero .none .none))

/-- A zero in so many lists, with its codec and its document. -/
private def zeros : Nat → Codec × Value × Json
  | 0 => (.native .i32, .int 0, .zero)
  | n + 1 => (.sequence (zeros n).1 .vec, .list [(zeros n).2.1], .array [(zeros n).2.2])

private theorem writes_zeros (call : Nat → Option Value → WriteM Unit) (s : Store) : ∀ n,
    Writes s ((zeros n).1.writeWith call none (some (zeros n).2.1)) (zeros n).2.2
  | 0 => writes_zero call s
  | n + 1 => writes_array (writesItems_writeEach (.cons (writes_zeros call s n) .nil))

private theorem ofDocument?_zeros : ∀ n,
    (zeros n).1.ofDocument? unbound (zeros n).2.2.document = some (some (zeros n).2.1)
  | 0 => rfl
  | n + 1 => by
    have hitems : items? ((zeros n).1.ofDocument? unbound) [(zeros n).2.2.document] = some [(zeros n).2.1] :=
      items?_eq_some.2 (.cons ⟨_, ofDocument?_zeros n, rfl⟩ .nil)
    exact congrArg (Option.map fun vs => some (Value.list vs)) hitems

private theorem nesting_zeros : ∀ n, (zeros n).2.1.nesting = n ∧ (zeros n).2.2.document.depth = n
  | 0 => ⟨rfl, rfl⟩
  | n + 1 => by
    obtain ⟨hvalue, hdocument⟩ := nesting_zeros n
    constructor
    · rw [zeros, Value.nesting, Value.nestingItems, hvalue, Value.nestingItems, Nat.max_zero]
    · exact (congrArg (max · 0 + 1) hdocument).trans (by rw [Nat.max_zero])

private theorem restores_zeros (s : Store) {n : Nat} (hn : n ≤ maxDepth) :
    (zeros n).1.Restores (.ofModules [] []) 1 s (zeros n).2.1 := by
  refine ⟨_, s, toJson_of_appends (writes_zeros (writeBinding (write (.ofModules [] []) 0) []) s n), ?_⟩
  exact (fromJson_eq_ok_codec (Json.spellsDocument_text _).loose).2
    ⟨(nesting_zeros n).2.le.trans hn, ofDocument?_zeros n⟩

/-- A path that is no text comes back as another path.  The pairs of a map stand in lists of their own, so that a map
that nests as deep as it may is written as pairs that nest too deep. -/
theorem not_forall_fromJson_map_written :
    ¬MapsRereadIf (fun _ => True) (·.depth ≤ maxDepth) ∧ ¬MapsRereadIf Value.PathsAreText (fun _ => True) := by
  constructor
  · intro hall
    obtain ⟨text, j, hwrite, hspells, hread⟩ := hall .path (.native .i32) [(.path ⟨[0xFF]⟩, .int 0)] .empty 0
      (List.forall_mem_singleton.2 ⟨.path _, trivial⟩) (List.nodup_singleton _)
      (List.forall_mem_singleton.2 (restores_zeros .empty (Nat.zero_le _))) (by decide) _ (List.mem_cons_self ..)
    have hobject : Writes .empty ((codec 0 (.objectMap .path (.native .i32) .vec) []).write (.ofModules [] []) 1
        (some (.map [(.path ⟨[0xFF]⟩, .int 0)]))) (.object [("\uFFFD", .zero)]) :=
      writes_object (writesEntries_writeEach (.cons ((writes_zero _ .empty).entry _) .nil))
    obtain ⟨rfl, -⟩ := ok_inj.1 ((toJson_of_appends hobject).symm.trans hwrite)
    have hdepth := depth_le_of_spells (Json.spellsDocument_text _) hspells (by decide)
    obtain ⟨v, hv, heq⟩ := hread hdepth _ (List.mem_cons_self ..)
    have hvalue := ((fromJson_eq_ok_codec (Json.spellsDocument_text _).loose).1 hv).2
    obtain rfl : Value.map [(.path (.ofText "\uFFFD"), .int 0)] = v := Option.some.inj (Option.some.inj hvalue)
    exact absurd heq (by decide)
  · intro hall
    obtain ⟨hvalue, hdocument⟩ := nesting_zeros 127
    have hnesting : (Value.map [(.str "", (zeros 127).2.1)]).nesting ≤ maxDepth := by
      change max (max 0 (zeros 127).2.1.nesting) 0 + 1 ≤ maxDepth
      rw [hvalue]
      decide
    obtain ⟨text, j, hwrite, hspells, hread⟩ := hall .string (zeros 127).1 [(.str "", (zeros 127).2.1)] .empty 0
      (List.forall_mem_singleton.2 ⟨.string "", nofun⟩) (List.nodup_singleton _)
      (List.forall_mem_singleton.2 (restores_zeros .empty (by decide))) hnesting _
      (List.mem_cons_of_mem _ (List.mem_singleton_self _))
    have hpair := writes_array ((writes_string "").item.append
      (writes_zeros (writeBinding (write (.ofModules [] []) 0) []) .empty 127).item)
    simp only [bind_assoc] at hpair
    have hpairs :
        Writes .empty ((codec 0 (.pairMap (.native .string) (zeros 127).1 .vec) []).write (.ofModules [] []) 1
          (some (.map [(.str "", (zeros 127).2.1)]))) (.array _) :=
      writes_array (writesItems_writeEach (.cons hpair .nil))
    obtain ⟨rfl, -⟩ := ok_inj.1 ((toJson_of_appends hpairs).symm.trans hwrite)
    obtain ⟨v, hv, -⟩ := hread trivial _ (List.mem_cons_self ..)
    have hdepth := ((fromJson_eq_ok_codec (Json.spellsDocument_text _).loose).1 hv).1
    have hdeep : max (max 0 (max (zeros 127).2.2.document.depth 0) + 1) 0 + 1 ≤ maxDepth := hdepth
    rw [hdocument] at hdeep
    exact absurd hdeep (by decide)

end Converter

end Marshal
