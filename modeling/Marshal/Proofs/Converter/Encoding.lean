import Marshal.Converter.Read
import Marshal.Proofs.Converter.Natives
import Marshal.Proofs.Lists

/-!
# Encodings

A converter encodes a value as a value of a document if it writes it so and reads it back (`Converter.Encodes`), given
enough fuel.  What is written is never null, since null reads as an absent value.  A codec over converters that encode
the parts of a value encodes the value.
-/

namespace Marshal

open Effect Reader WriteM

variable {reg : Registry} {s : Store} {bs : List Converter} {v : Value} {j : Json}

/-- The converter writes the value as a value of a document and reads it back. -/
def Converter.Encodes (reg : Registry) (s : Store) (c : Converter) (v : Value) (j : Json) : Prop :=
  j.kind ≠ .null ∧ ∃ n, ∀ fuel, n ≤ fuel →
    Writes s (c.write reg fuel (some v)) j ∧ Reads (c.read s.delegates fuel) (some v) j

/-- The codec over converters writes the value as a token that it accepts and reads it back. -/
def Codec.Encodes (reg : Registry) (s : Store) (bs : List Converter) (k : Codec) (v : Value) (j : Json) : Prop :=
  j.kind ≠ .null ∧ (k.acceptedTokens ≠ [] → j.kind ∈ k.acceptedTokens) ∧ ∃ n, ∀ fuel, n ≤ fuel →
    (∀ typed, Writes s (k.writeWith (Converter.writeBinding (Converter.write reg fuel) bs) typed (some v)) j) ∧
      Reads (k.readWith (Converter.callBinding (Converter.read s.delegates fuel) bs)) (some v) j

/-! ### Codecs -/

namespace Codec

theorem encodes_native {kind : NativeKind} (h : kind.Carries v) (htext : v.PathsAreText) :
    ∃ j, Codec.Encodes reg s bs (.native kind) v j := by
  obtain ⟨j, henc⟩ := h.exists_encodes htext s
  have hnull := NativeKind.not_null_of_mem_acceptedTokens henc.accepted
  have hpresent : Value.present? (some v) = some v := by cases h <;> rfl
  refine ⟨j, hnull, fun _ => henc.accepted, 0, fun fuel _ =>
    ⟨fun typed => ?_, NativeKind.reads_read hnull henc.reads⟩⟩
  rw [writeWith, NativeKind.write, hpresent, hpresent]
  exact henc.writes

theorem encodes_binding {i : Nat} {c : Converter} (hc : bs[i]? = some c) (hv : v.isNull = false)
    (h : c.Encodes reg s v j) : Codec.Encodes reg s bs (.binding i) v j := by
  obtain ⟨hnull, n, h⟩ := h
  have hpresent : Value.present? (some v) = some v := by cases v <;> first | rfl | cases hv
  refine ⟨hnull, fun hne => absurd rfl hne, n, fun fuel hfuel => ⟨fun typed => ?_, ?_⟩⟩
  · rw [writeWith, hpresent, Converter.writeBinding, hc]
    exact (h fuel hfuel).1
  · rw [readWith, Converter.callBinding, hc]
    exact (h fuel hfuel).2

/-- The elements of a list are encoded one by one. -/
theorem encodes_sequence {element : Codec} {i : Instantiator} {items : List Value}
    (h : ∀ item ∈ items, ∃ j, Codec.Encodes reg s bs element item j) :
    ∃ j, Codec.Encodes reg s bs (.sequence element i) (.list items) j := by
  obtain ⟨js, n, hjs⟩ := exists_forall₂_of_le (P := fun fuel item j =>
      (∀ typed, Writes s (element.writeWith (Converter.writeBinding (Converter.write reg fuel) bs) typed (some item))
        j) ∧
        Reads (element.readWith (Converter.callBinding (Converter.read s.delegates fuel) bs)) (some item) j) items
    fun item hitem => by
      obtain ⟨j, -, -, n, hj⟩ := h item hitem
      exact ⟨j, n, hj⟩
  refine ⟨.array js, by simp [Json.kind], fun _ => by simp [acceptedTokens, Json.kind], n, fun fuel hfuel =>
    ⟨fun typed => ?_, ?_⟩⟩
  · exact writes_array (writesItems_writeEach ((hjs fuel hfuel).imp fun item j hj => hj.1 typed))
  · rw [readWith]
    refine reads_peek ?_
    exact (reads_readItems ((hjs fuel hfuel).imp fun item j hj => hj.2)).map fun items => some (Value.list items)

/-- The entries of a map with native keys are written under the texts of their keys. -/
theorem encodes_objectMap {key : NativeKind} {value : Codec} {i : Instantiator} {entries : List (Value × Value)}
    (hkeys : ∀ e ∈ entries, key.Carries e.1 ∧ e.1.PathsAreText)
    (hvalues : ∀ e ∈ entries, ∃ j, Codec.Encodes reg s bs value e.2 j)
    (hnodup : (entries.map (·.1.display)).Nodup) :
    ∃ j, Codec.Encodes reg s bs (.objectMap key value i) (.map entries) j := by
  obtain ⟨es, n, hes⟩ := exists_forall₂_of_le (P := fun fuel (e : Value × Value) (entry : String × Json) =>
      e.1.keyText? = some entry.1 ∧ (∀ r, key.readKey entry.1 r = .ok (e.1.display, e.1) r) ∧
      (∀ typed, Writes s (value.writeWith (Converter.writeBinding (Converter.write reg fuel) bs) typed (some e.2))
        entry.2) ∧
        Reads (value.readWith (Converter.callBinding (Converter.read s.delegates fuel) bs)) (some e.2) entry.2)
          entries
    fun e he => by
      obtain ⟨j, -, -, n, hj⟩ := hvalues e he
      obtain ⟨name, hname, hread⟩ := (hkeys e he).1.exists_keyText (hkeys e he).2
      have hkey (r : Reader) : key.readKey name r = .ok (e.1.display, e.1) r := by
        unfold NativeKind.readKey
        rw [bind_of_ok (onText_of_reads (NativeKind.reads_read (by simp [Json.kind]) hread) r)]
        rfl
      exact ⟨(name, j), n, fun fuel hfuel => ⟨hname, hkey, hj fuel hfuel⟩⟩
  refine ⟨.object es, by simp [Json.kind], fun _ => by simp [acceptedTokens, Json.kind], n, fun fuel hfuel =>
    ⟨fun typed => ?_, ?_⟩⟩
  · refine writes_object (writesEntries_writeEach ((hes fuel hfuel).imp ?_))
    rintro ⟨k, v⟩ ⟨name, j⟩ ⟨hname, -, hwrites, -⟩
    have hentry := (hwrites typed).entry name
    simpa only [hname] using hentry
  · rw [readWith]
    refine reads_peek ?_
    exact (reads_readNamed ((hes fuel hfuel).imp fun e entry h => ⟨h.2.1, h.2.2.2⟩) hnodup).map fun m =>
      some (Value.map m)

/-- The entries of other maps are written as pairs. -/
theorem encodes_pairMap {key value : Codec} {i : Instantiator} {entries : List (Value × Value)}
    (hkeys : ∀ e ∈ entries, ∃ j, Codec.Encodes reg s bs key e.1 j)
    (hvalues : ∀ e ∈ entries, ∃ j, Codec.Encodes reg s bs value e.2 j) (hnodup : (entries.map (·.1.display)).Nodup) :
    ∃ j, Codec.Encodes reg s bs (.pairMap key value i) (.map entries) j := by
  obtain ⟨js, n, hjs⟩ :=
    exists_forall₂_of_le (P := fun fuel (e : Value × Value) (j : Json) => ∃ jk jv, j = .array [jk, jv] ∧
      ((∀ typed, Writes s (key.writeWith (Converter.writeBinding (Converter.write reg fuel) bs) typed (some e.1))
        jk) ∧ Reads (key.readWith (Converter.callBinding (Converter.read s.delegates fuel) bs)) (some e.1) jk) ∧
      (∀ typed, Writes s (value.writeWith (Converter.writeBinding (Converter.write reg fuel) bs) typed (some e.2))
        jv) ∧
        Reads (value.readWith (Converter.callBinding (Converter.read s.delegates fuel) bs)) (some e.2) jv) entries
    fun e he => by
      obtain ⟨jk, -, -, n, hk⟩ := hkeys e he
      obtain ⟨jv, -, -, n', hv⟩ := hvalues e he
      exact ⟨.array [jk, jv], max n n', fun fuel hfuel => ⟨jk, jv, rfl, hk fuel (by omega), hv fuel (by omega)⟩⟩
  refine ⟨.array js, by simp [Json.kind], fun _ => by simp [acceptedTokens, Json.kind], n, fun fuel hfuel =>
    ⟨fun typed => ?_, ?_⟩⟩
  · refine writes_array (writesItems_writeEach ((hjs fuel hfuel).imp ?_))
    rintro ⟨k, v⟩ j ⟨jk, jv, rfl, ⟨hk, -⟩, hv, -⟩
    have hpair := writes_array ((hk typed).item.append (hv typed).item)
    simpa only [bind_assoc, List.singleton_append] using hpair
  · rw [readWith]
    refine reads_peek ?_
    refine (reads_readPairs ((hjs fuel hfuel).imp ?_) hnodup).map fun m => some (Value.map m)
    rintro e j ⟨jk, jv, rfl, ⟨-, hk⟩, -, hv⟩
    exact ⟨jk, jv, rfl, hk, hv⟩

end Codec

/-! ### Converters -/

namespace Converter

/-- A converter spends one call of the fuel on itself. -/
theorem Encodes.of_succ {c : Converter} (n : Nat) (hkind : j.kind ≠ .null)
    (h : ∀ fuel, n ≤ fuel → Writes s (c.write reg (fuel + 1) (some v)) j ∧ Reads (c.read s.delegates (fuel + 1))
      (some v) j) :
    c.Encodes reg s v j := by
  refine ⟨hkind, n + 1, fun fuel hfuel => ?_⟩
  obtain ⟨fuel, rfl⟩ := Nat.exists_eq_succ_of_ne_zero (Nat.ne_zero_of_lt hfuel)
  exact h fuel (Nat.le_of_succ_le_succ hfuel)

theorem encodes_of_native (id : Nat) {kind : NativeKind} (h : kind.Carries v) (htext : v.PathsAreText) :
    ∃ j, (Converter.native id kind).Encodes reg s v j := by
  obtain ⟨j, hkind, -, n, hj⟩ : ∃ j, Codec.Encodes reg s [] (.native kind) v j := Codec.encodes_native h htext
  refine ⟨j, .of_succ n hkind fun fuel hfuel => ?_⟩
  obtain ⟨hwrite, hread⟩ := hj fuel hfuel
  have hpresent : Value.present? (some v) = some v := by cases h <;> rfl
  have hw := hwrite none
  rw [Codec.writeWith, hpresent] at hw
  exact ⟨hw, hread⟩

theorem encodes_of_codec (id : Nat) {k : Codec} (h : Codec.Encodes reg s bs k v j) :
    (Converter.codec id k bs).Encodes reg s v j := by
  obtain ⟨hkind, -, n, hj⟩ := h
  refine .of_succ n hkind fun fuel hfuel => ?_
  obtain ⟨hwrite, hread⟩ := hj fuel hfuel
  exact ⟨hwrite none, hread⟩

/-- A placeholder encodes what the converter that it stands for encodes. -/
theorem encodes_of_delegate {id : Nat} {ty : TypeRef} {c : Converter} (hc : s.delegates.find? id = some c)
    (h : c.Encodes reg s v j) : (Converter.placeholder id ty).Encodes reg s v j := by
  obtain ⟨hkind, n, hj⟩ := h
  refine .of_succ n hkind fun fuel hfuel => ?_
  obtain ⟨hwrite, hread⟩ := hj fuel hfuel
  constructor
  · intro w out started scopes hw
    rw [write, bind_of_ok (get_apply _)]
    simp only [hc]
    exact hwrite w out started scopes hw
  · rw [read]
    simp only [hc]
    exact hread

/-- What a converter encodes it writes as a document, which it reads back if the document is not nested too deep. -/
theorem Encodes.document {c : Converter} (h : c.Encodes reg s v j) :
    ∃ n, ∀ fuel, n ≤ fuel → c.toJson reg fuel (some v) s = .ok (String.ofList j.text) s ∧
      (j.depth ≤ maxDepth → c.fromJson s.delegates fuel (String.ofList j.text) = .ok (some v)) := by
  obtain ⟨-, n, hj⟩ := h
  refine ⟨n, fun fuel hfuel => ?_⟩
  obtain ⟨hwrite, hread⟩ := hj fuel hfuel
  constructor
  · have hout : c.write reg fuel (some v) ⟨.empty, s⟩ = .ok ⟨⟩ ⟨⟨"" ++ String.ofList j.text, true, []⟩, s⟩ :=
      hwrite .empty "" true [] rfl
    rw [String.empty_append] at hout
    unfold toJson
    simp only [hout]
    rfl
  · intro hdepth
    obtain ⟨ch, t, htext, hkind⟩ := head_text j
    have hpeek : peek (ofText j.text) = .ok j.kind ⟨⟨j.text ++ [], 0⟩, true, [], some j.kind⟩ := by
      rw [List.append_nil, htext]
      exact peek_document hkind
    obtain ⟨o, hvalue⟩ := hread (ofText j.text) 0 true [] [] hpeek (fun c hc => by cases hc) (by simpa using hdepth)
    have hdocument : readDocument s.delegates fuel c (ofText j.text) =
        .ok (some v) ⟨⟨[], o⟩, true, [], some .endDocument⟩ := by
      unfold readDocument
      rw [bind_of_ok hvalue, bind_of_ok peek_endDocument]
      rfl
    unfold fromJson
    rw [String.toList_ofList, show (readDocument s.delegates fuel c).run (ofText j.text) = _ from hdocument]

end Converter

end Marshal
