import Marshal.Proofs.Converter.Keys
import Marshal.Proofs.Converter.Maps

/-!
# Keys that are met twice

An array of pairs is refused for a key that was met before, which is told by its text.  As texts tell keys up to maps
in the place of lists, the pairs are refused exactly if two keys are the same up to that (`Converter.fromJson_pairs`):
if the types of the keys are known, exactly if two keys are the same, and if there are no paths among them, exactly if
two keys are equal.
-/

namespace Marshal

open Effect
open Dialect (loose)

/-! ### Reading pairs -/

namespace Reader

section Pairs

variable {key value : ReadM (Option Value)} {keyOf valueOf : Document → Option (Option Value)} {p : Place}
  {r : Reader} {js : List Document} {kvs : List (Value × Value)}

/-- What is done with a pair that was read. -/
private def addPair (s : MapState) (k v : Option Value) : ReadM MapState := do
  let identity := Value.display (Value.orNull k)
  if s.seen.contains identity then throw (.duplicateKey identity)
  else return s.push identity (Value.orNull k) (Value.orNull v)

variable (hkey : ∀ j, Decides key j (keyOf j)) (hvalue : ∀ j, Decides value j (valueOf j)) (framed_key : Framed key)
  (framed_value : Framed value)

include hkey hvalue framed_key framed_value

/-- The key and the value of a pair are read, and then it is seen what is done with them. -/
private theorem exists_pair {j : Document} {e : Value × Value} (hj : PairReadAs keyOf valueOf j e) (hr : At p j r)
    (s : MapState) : ∃ k v r', p.Behind r' ∧ e = (Value.orNull k, Value.orNull v) ∧ (do
      beginArray
      let k ← key
      let v ← value
      endArray
      addPair s k v) r = addPair s k v r' := by
  obtain ⟨⟨k, hk, hkv⟩, ⟨v, hv, hvv⟩⟩ := hj
  have hpair := decides_pair (f := fun k v => pure (k, v)) (k := fun k v => some (k, v)) hkey hvalue
    (fun _ _ => settles_pure _) framed_key framed_value _ p r hr
  rw [pair?, hk, Option.bind_some, hv, Option.bind_some] at hpair
  obtain ⟨r', hread, hbehind⟩ := hpair
  refine ⟨k, v, r', hbehind, by rw [hkv, hvv], ?_⟩
  have hadd := bind_of_ok (f := fun e => addPair s e.1 e.2) hread
  simpa only [bind_assoc, pure_bind] using hadd

/-- A loop over pairs stops at a key whose text was met before. -/
private theorem foldNext_duplicate (hjs : List.Forall₂ (PairReadAs keyOf valueOf) js kvs) :
    ∀ (s : MapState) (r : Reader) (first : Bool) (fuel : Nat), InItems p first js r → r.cursor.rest.length < fuel →
      ¬((kvs.map (·.1.display)).Nodup ∧ ∀ e ∈ kvs, e.1.display ∉ s.seen) →
        ∃ name r', foldNext fuel (fun s => do
          beginArray
          let k ← key
          let v ← value
          endArray
          addPair s k v) s r = .error (.duplicateKey name) r' := by
  induction hjs with
  | nil => exact fun s r first fuel _ _ h => absurd ⟨List.nodup_nil, nofun⟩ h
  | @cons j e js kvs hj _ ih =>
    intro s r first fuel hr hfuel hdup
    obtain ⟨fuel, rfl⟩ := Nat.exists_eq_succ_of_ne_zero (Nat.ne_zero_of_lt hfuel)
    obtain ⟨q, hat, hrest⟩ := hr.cons
    obtain ⟨r₁, hnext, hat⟩ := hasNext_at hat
    obtain ⟨k, v, r₂, hbehind, rfl, hpair⟩ := exists_pair hkey hvalue framed_key framed_value hj hat s
    obtain ⟨hjs, hlt⟩ := hrest r₂ hbehind
    rw [foldNext, bind_of_ok hnext, if_pos rfl]
    by_cases hseen : (Value.orNull k).display ∈ s.seen
    · refine ⟨(Value.orNull k).display, r₂, bind_of_error (hpair.trans ?_)⟩
      rw [addPair, if_pos (by simpa using hseen)]
      rfl
    · have hpush : addPair s k v r₂ = .ok (s.push (Value.orNull k).display (Value.orNull k) (Value.orNull v)) r₂ := by
        rw [addPair, if_neg (by simpa using hseen)]
        rfl
      rw [bind_of_ok (hpair.trans hpush)]
      refine ih _ _ _ _ hjs (by omega) fun hdistinct => hdup ?_
      -- the key is new, and none of the others is the same
      rw [List.map_cons, List.nodup_cons, List.forall_mem_cons]
      simp only [MapState.push, List.mem_cons, not_or] at hdistinct
      refine ⟨⟨fun hmem => ?_, hdistinct.1⟩, hseen, fun e he => (hdistinct.2 e he).2⟩
      obtain ⟨e, he, heq⟩ := List.mem_map.1 hmem
      exact (hdistinct.2 e he).1 heq

/-- Pairs with two keys of one text are refused for a key. -/
private theorem readPairs_duplicate (hjs : List.Forall₂ (PairReadAs keyOf valueOf) js kvs)
    (hdup : ¬(kvs.map (·.1.display)).Nodup) (hr : At p (.array js) r) :
    ∃ name r', readPairs key value r = .error (.duplicateKey name) r' := by
  obtain ⟨r₁, hbegin, hr₁⟩ := hr.beginArray
  obtain ⟨name, r₂, hloop⟩ := foldNext_duplicate hkey hvalue framed_key framed_value hjs .empty r₁ true _ hr₁
    (Nat.lt_succ_self _) fun hdistinct => hdup hdistinct.1
  exact ⟨name, r₂, (bind_of_ok hbegin).trans (bind_of_error hloop)⟩

end Pairs

end Reader

/-! ### Codecs for pairs -/

/-- The value, or null, is read off a text of the document by the codec alone. -/
def Codec.Decodes (c : Codec) (j : Document) (v : Value) : Prop :=
  ∃ text u, loose.SpellsDocument j text.toList ∧ (Converter.codec 0 c []).fromJson [] 1 text = .ok u ∧ v = .orNull u

private theorem Codec.Decodes.readAs {c : Codec} {j : Document} {v : Value} (h : c.Decodes j v) :
    ReadAs (c.ofDocument? unbound) j v := by
  obtain ⟨text, u, hspells, hread, heq⟩ := h
  exact ⟨u, ((fromJson_eq_ok_codec hspells).1 hread).2, heq⟩

/-- The document of the pairs. -/
def Document.ofPairs (ps : List (Document × Document)) : Document := .array (ps.map fun p => .array [p.1, p.2])

/-- What is read of keys and values by themselves. -/
structure Codec.DecodesPair (key value : Codec) (p : Document × Document) (e : Value × Value) : Prop where
  key : key.Decodes p.1 e.1
  value : value.Decodes p.2 e.2

section Pairs

variable {key value : Codec} {ps : List (Document × Document)} {kvs : List (Value × Value)} {text : String}

private theorem nodup_map_congr {α β γ : Type} {f : α → β} {g : α → γ} {as : List α}
    (h : ∀ a ∈ as, ∀ b ∈ as, f a = f b ↔ g a = g b) : (as.map f).Nodup ↔ (as.map g).Nodup := by
  rw [List.Nodup, List.Nodup, List.pairwise_map, List.pairwise_map]
  exact List.Pairwise.iff_of_mem fun {a b} ha hb => not_congr (h a ha b hb)

private theorem forall₂_pairs (hps : List.Forall₂ (key.DecodesPair value) ps kvs) :
    List.Forall₂ (PairReadAs (key.ofDocument? unbound) (value.ofDocument? unbound))
      (ps.map fun p => .array [p.1, p.2]) kvs :=
  List.forall₂_map_left_iff.2 (hps.imp fun _ _ h => .mk h.key.readAs h.value.readAs)

/-- Pairs are refused exactly if two keys have the same text, and are read otherwise. -/
private theorem fromJson_display (hps : List.Forall₂ (key.DecodesPair value) ps kvs)
    (hspells : loose.SpellsDocument (.ofPairs ps) text.toList)
    (hdepth : (Document.ofPairs ps).depth ≤ Reader.maxDepth) (id : Nat) (i : Instantiator) (ds : Delegates)
    (fuel : Nat) :
    ((∃ name, (Converter.codec id (.pairMap key value i) []).fromJson ds (fuel + 1) text =
      .error (.duplicateKey name)) ↔ ¬(kvs.map (·.1.display)).Nodup) ∧
    ((kvs.map (·.1.display)).Nodup →
      (Converter.codec id (.pairMap key value i) []).fromJson ds (fuel + 1) text = .ok (some (.map kvs))) := by
  have hok (hdistinct : (kvs.map (·.1.display)).Nodup) :
      (Converter.codec id (.pairMap key value i) []).fromJson ds (fuel + 1) text = .ok (some (.map kvs)) :=
    (fromJson_eq_ok_codec hspells).2
      ⟨hdepth, Option.map_eq_some_iff.2 ⟨kvs, pairs?_eq_some.2 ⟨forall₂_pairs hps, hdistinct⟩, rfl⟩⟩
  refine ⟨⟨?_, fun hdup => ?_⟩, hok⟩
  · rintro ⟨name, herror⟩ hdistinct
    cases (hok hdistinct).symm.trans herror
  · obtain ⟨b, -, hat⟩ := Converter.at_ofText hspells hdepth
    obtain ⟨r, hpeek, hat⟩ := hat.peek_eq
    -- nothing is read with a binding
    let call := Converter.callBinding (Converter.read ds fuel) []
    have hcall (index : Nat) (j : Document) : Reader.Decides (call index) j (unbound index j) :=
      (Reader.settles_throw _).decides_none
    have hframed (index : Nat) : Framed (call index) := Converter.framed_callBinding (List.forall_mem_nil _) index
    obtain ⟨name, r', hpairs⟩ := Reader.readPairs_duplicate (key.decides_readWith hcall hframed)
      (value.decides_readWith hcall hframed) (Codec.framed_readWith hframed key) (Codec.framed_readWith hframed value)
      (forall₂_pairs hps) hdup hat
    refine ⟨name, ?_⟩
    have hread : (Converter.codec id (.pairMap key value i) []).read ds (fuel + 1) (Reader.ofText text.toList) =
        .error (.duplicateKey name) r' := (bind_of_ok hpeek).trans (bind_of_error hpairs)
    unfold Converter.fromJson Converter.readDocument
    rw [EStateM.run, bind_of_error hread]

private theorem display_eq_iff (hfloat : key.any Codec.isFloat = false) {v w : Value}
    (hv : ReadOff (key.ofDocument? unbound) v) (hw : ReadOff (key.ofDocument? unbound) w) :
    v.display = w.display ↔ v.listed = w.listed := by
  constructor
  · exact ((Codec.tells hfloat).told hv hw).listed_eq
  · intro heq
    rw [← v.display_listed, heq, w.display_listed]

/-- Keys that equal only themselves are all different if no two of them are equal. -/
private theorem nodup_iff_pairwise {ks : List Value} (h : ∀ k ∈ ks, k.Exact) :
    ks.Nodup ↔ ks.Pairwise fun k k' => (k == k') = false := by
  refine List.Pairwise.iff_of_mem fun {k k'} hk _ => ?_
  rw [← Bool.not_eq_true, h k hk k']

/-- An array of pairs whose keys and values are read by themselves, the keys without floats, is refused for a key that
was met before exactly if two keys are the same up to maps in the place of lists, and is read otherwise.  If the types
of the keys are known, it is refused exactly if two keys are the same, which means, unless there are paths in them, if
two are equal. -/
theorem Converter.fromJson_pairs (hfloat : key.any Codec.isFloat = false)
    (hps : List.Forall₂ (key.DecodesPair value) ps kvs) (hintegral : ∀ p ∈ ps, p.1.Integral)
    (hspells : loose.SpellsDocument (.ofPairs ps) text.toList)
    (hdepth : (Document.ofPairs ps).depth ≤ Reader.maxDepth) (id : Nat) (i : Instantiator) (ds : Delegates)
    (fuel : Nat) :
    let answer := (codec id (.pairMap key value i) []).fromJson ds (fuel + 1) text
    let refused := ∃ name, answer = .error (.duplicateKey name)
    (refused ↔ ¬(kvs.map (·.1.listed)).Nodup) ∧
    ((kvs.map (·.1.listed)).Nodup → answer = .ok (some (.map kvs))) ∧
    (key.any Codec.isUntyped = false → (refused ↔ ¬(kvs.map (·.1)).Nodup)) ∧
    (key.any Codec.isUntyped = false → key.any Codec.isPath = false →
      (refused ↔ ¬(kvs.map (·.1)).Pairwise fun k k' => (k == k') = false)) := by
  intro answer refused
  have hread : ∀ e ∈ kvs, ReadOff (key.ofDocument? unbound) e.1 := by
    intro e he
    obtain ⟨p, hp, hdecodes⟩ := forall₂_of_mem_right hps he
    exact ⟨p.1, hintegral p hp, hdecodes.key.readAs⟩
  have hlisted : (kvs.map (·.1.display)).Nodup ↔ (kvs.map (·.1.listed)).Nodup :=
    nodup_map_congr fun e he f hf => display_eq_iff hfloat (hread e he) (hread f hf)
  obtain ⟨hdup, hok⟩ := fromJson_display hps hspells hdepth id i ds fuel
  -- keys of known types are the same if they are up to maps in the place of lists
  have hsame (huntyped : key.any Codec.isUntyped = false) : refused ↔ ¬(kvs.map (·.1)).Nodup := by
    refine hdup.trans
      (not_congr (hlisted.trans (nodup_map_congr fun e he f hf => ⟨?_, fun heq => congrArg Value.listed heq⟩)))
    exact Codec.parts hfloat huntyped (hread e he) (hread f hf)
  refine ⟨hdup.trans (not_congr hlisted), fun hdistinct => hok (hlisted.2 hdistinct), hsame, fun huntyped hpath => ?_⟩
  have hexact : ∀ k ∈ kvs.map (·.1), k.Exact :=
    List.forall_mem_map.2 fun e he => Codec.exact hfloat hpath (hread e he)
  exact (hsame huntyped).trans (not_congr (nodup_iff_pairwise hexact))

end Pairs

/-! Keys of unknown type. -/

private theorem decodes_json {c : Codec} (j : Json) {u : Option Value} (hdepth : j.document.depth ≤ Reader.maxDepth)
    (h : c.ofDocument? unbound j.document = some u) : c.Decodes j.document (.orNull u) :=
  ⟨_, u, j.spellsDocument_text.loose, (fromJson_eq_ok_codec j.spellsDocument_text.loose).2 ⟨hdepth, h⟩, rfl⟩

private theorem decodes_zero : (Codec.native .i32).Decodes Json.zero.document (.int 0) :=
  decodes_json (u := some (.int 0)) .zero (Nat.zero_le _) rfl

private theorem decodesPair_zero {c : Codec} (key : Json) {k : Value} (hdepth : key.document.depth ≤ Reader.maxDepth)
    (h : c.ofDocument? unbound key.document = some (some k)) :
    c.DecodesPair (.native .i32) (key.document, Json.zero.document) (k, .int 0) :=
  ⟨decodes_json (u := some k) key hdepth h, decodes_zero⟩

/-- Two keys, each with the value zero. -/
private def twoPairs (key key' : Json) : Json := .array [.array [key, .zero], .array [key', .zero]]

private theorem spells_twoPairs (key key' : Json) : loose.SpellsDocument
    (.ofPairs [(key.document, Json.zero.document), (key'.document, Json.zero.document)])
      (String.ofList (twoPairs key key').text).toList :=
  (twoPairs key key').spellsDocument_text.loose

/-- Documents of pairs whose numbers are integers are refused for a key that was met before exactly if two keys are
equal. -/
def Codec.RefusesEqual (key value : Codec) : Prop :=
  ∀ (i : Instantiator) (ps : List (Document × Document)) (kvs : List (Value × Value)) (text : String),
    List.Forall₂ (key.DecodesPair value) ps kvs → (∀ p ∈ ps, p.1.Integral ∧ p.2.Integral) →
      loose.SpellsDocument (.ofPairs ps) text.toList → (Document.ofPairs ps).depth ≤ Reader.maxDepth →
        ((∃ name, (Converter.codec 0 (.pairMap key value i) []).fromJson [] 1 text = .error (.duplicateKey name)) ↔
          ¬(kvs.map (·.1)).Pairwise fun k k' => (k == k') = false)

private theorem integral_twoPairs {j j' : Document} (hj : j.Integral) (hj' : j'.Integral) :
    ∀ p ∈ [(j, Json.zero.document), (j', Json.zero.document)], p.1.Integral ∧ p.2.Integral :=
  List.forall_mem_cons.2 ⟨⟨hj, .number rfl⟩, List.forall_mem_singleton.2 ⟨hj', .number rfl⟩⟩

namespace Converter

/-- A number is another key than its text. -/
theorem fromJson_pairs_zero : ∃ text, (codec 0 (.pairMap .dynamic (.native .i32) .vec) []).fromJson [] 1 text =
    .ok (some (.map [(.str "0", .int 0), (.int 0, .int 0)])) := by
  have hps := List.Forall₂.cons (decodesPair_zero (c := .dynamic) (.string ['0']) (k := .str "0") (Nat.zero_le _) rfl)
    (.cons (decodesPair_zero .zero (k := .int 0) (Nat.zero_le _) rfl) .nil)
  have hzero : Json.zero.document.Integral := .number rfl
  have hintegral := integral_twoPairs (.string "0") hzero
  exact ⟨_,
    (fromJson_pairs rfl hps (fun p hp => (hintegral p hp).1) (spells_twoPairs _ _) (by decide) 0 .vec [] 0).2.1
      (by simp [Value.listed])⟩

/-- Keys of unknown type are refused though they are not equal, as an empty list and an empty map, and paths are not
refused though they are equal, as paths with one slash and with two. -/
theorem not_forall_fromJson_pairs :
    (¬∀ key value : Codec, (Codec.pairMap key value .vec).any Codec.isFloat = false →
      key.any Codec.isPath = false → key.RefusesEqual value) ∧
    ¬∀ key value : Codec, (Codec.pairMap key value .vec).any Codec.isFloat = false →
      key.any Codec.isUntyped = false → key.RefusesEqual value := by
  constructor
  · intro hall
    have hps := List.Forall₂.cons (decodesPair_zero (c := .dynamic) (.array []) (k := .list []) (by decide) rfl)
      (.cons (decodesPair_zero (.object []) (k := .map []) (by decide) rfl) .nil)
    have hiff := hall .dynamic (.native .i32) rfl rfl .vec _ _ _ hps
      (integral_twoPairs (.array nofun) (.object nofun)) (spells_twoPairs _ _) (by decide)
    have hdup := (fromJson_display hps (spells_twoPairs _ _) (by decide) 0 .vec [] 0).1.2 (by decide)
    exact hiff.1 hdup (by decide)
  · intro hall
    have hps := List.Forall₂.cons
      (decodesPair_zero (c := .native .path) (.string "a//b".toList) (k := .path "a//b") (by decide) rfl)
      (.cons (decodesPair_zero (.string "a/b".toList) (k := .path "a/b") (by decide) rfl) .nil)
    have hiff := hall (.native .path) (.native .i32) rfl rfl .vec _ _ _ hps
      (integral_twoPairs (.string _) (.string _)) (spells_twoPairs _ _) (by decide)
    have hok := (fromJson_display hps (spells_twoPairs _ _) (by decide) 0 .vec [] 0).2 (by decide)
    obtain ⟨name, herror⟩ := hiff.2 (by decide)
    cases hok.symm.trans herror

end Converter

end Marshal
