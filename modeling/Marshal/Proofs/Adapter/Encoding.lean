import Marshal.Proofs.Adapter.Generated
import Marshal.Proofs.Converter.Encoding
import Marshal.Proofs.Value.Fields

/-!
# Encodings by adapters

The adapter of an enumeration encodes its constants, and the adapter of a structure encodes the objects whose fields
the codecs of its fields encode.
-/

namespace Marshal

open Effect Reader WriteM

variable {reg : Registry} {s : Store} {bs : List Converter}

/-! ### Enumerations -/

/-- A constant of an enumeration is encoded by its name on the wire. -/
theorem encodes_enum (id : Nat) {a : EnumAdapter} (hnodup : (a.entries.map (·.serializedName)).Nodup)
    {constant : String} (hc : constant ∈ a.entries.map (·.constant)) :
    ∃ j, (Converter.enum id a).Encodes reg s (.enum a.target constant) j := by
  obtain ⟨name, hname⟩ := EnumAdapter.exists_serializedName? hc
  refine ⟨.string name.toList, .of_succ 0 (by simp [Json.kind]) fun fuel _ => ?_⟩
  constructor
  · have hwrite :
        (Converter.enum id a).write reg (fuel + 1) (some (.enum a.target constant)) = token (Writer.string name) := by
      rw [Converter.write]
      show a.write (some (.enum a.target constant)) = _
      unfold EnumAdapter.write
      simp [Value.present?, Value.nonNull?, hname]
    rw [hwrite]
    exact writes_string name
  · have hread : (Converter.enum id a).read s.delegates (fuel + 1) = a.read := rfl
    rw [hread]
    refine reads_peek ?_
    refine (NativeKind.reads_string name).bind_of_state fun r => ?_
    rw [EnumAdapter.constant?_of_serializedName? hnodup hname]
    rfl

/-! ### Structures -/

namespace StructAdapter

/-- What becomes of a field of an object: the entry that a value that is present is encoded as. -/
def FieldEncodes (reg : Registry) (s : Store) (bs : List Converter) (fields : Fields) (fuel : Nat) (p : Field × Codec)
    (entry : Option (String × Json)) : Prop :=
  match fields.get? p.1.name with
  | none => entry = none ∧ p.1.isNonNull = false ∧ p.2.writesNull = false
  | some v => ∃ j, entry = some (p.1.serializedName, j) ∧ j.kind ≠ .null ∧
      (p.2.acceptedTokens ≠ [] → j.kind ∈ p.2.acceptedTokens) ∧
      (∀ typed, Writes s (p.2.writeWith (Converter.writeBinding (Converter.write reg fuel) bs) typed (some v)) j) ∧
      Reads (p.2.readWith (Converter.callBinding (Converter.read s.delegates fuel) bs)) (some v) j

variable {fields : Fields} {fuel : Nat} {ps : List (Field × Codec)} {entries : List (Option (String × Json))}

/-- A write procedure writes its fields one by one and closes the object. -/
theorem runOps_fields (write : Codec → Option Value → WriteM Unit) (target : TypeRef) (fields : Fields)
    (fs : List FieldWrite) : runOps write target (some fields) (fs.map .field ++ [.endObject]) = (do
      Codec.writeEach (writeField write target fields) fs
      token Writer.endObject) := by
  induction fs with
  | nil => simp [runOps, Codec.writeEach]
  | cons f fs ih =>
    rw [List.map_cons, List.cons_append, runOps, ih, Codec.writeEach]
    simp only [bind_assoc]

private theorem writesEntries_fields (accessor : Accessor) (target : TypeRef) (typed : TypedWriter)
    (h : List.Forall₂ (FieldEncodes reg s bs fields fuel) ps entries) :
    WritesEntries s (Codec.writeEach
        (writeField (fun c => c.writeWith (Converter.writeBinding (Converter.write reg fuel) bs) typed) target fields)
        (ps.map fun p => ⟨p.1.name, p.1.serializedName, accessor p.1, p.2, p.1.isNonNull⟩))
          (entries.filterMap id) := by
  induction h with
  | nil => exact writesEntries_nil
  | @cons p entry ps entries hp _ ih =>
    rw [List.map_cons, Codec.writeEach]
    unfold FieldEncodes at hp
    have hfield : WritesEntries s
        (writeField (fun c => c.writeWith (Converter.writeBinding (Converter.write reg fuel) bs) typed) target fields
          ⟨p.1.name, p.1.serializedName, accessor p.1, p.2, p.1.isNonNull⟩) entry.toList := by
      unfold writeField
      cases hv : fields.get? p.1.name with
      | none =>
        simp only [hv] at hp
        obtain ⟨rfl, hnonNull, hwritesNull⟩ := hp
        simp only [hnonNull, hwritesNull, Bool.false_eq_true, if_false]
        exact writesEntries_nil
      | some v =>
        simp only [hv] at hp
        obtain ⟨j, rfl, -, -, hwrites, -⟩ := hp
        exact (hwrites typed).entry p.1.serializedName
    have hentries : (entry :: entries).filterMap id = entry.toList ++ entries.filterMap id := by
      cases entry <;> simp
    rw [hentries]
    exact hfield.append ih

/-- What is read behind the name of an entry. -/
def readValue (p : ReadProcedure) (call : Nat → ReadM (Option Value)) (fields : Fields) (name : String) :
    ReadM Fields := do
  match p.field? name with
  | none =>
    skipValue
    return fields
  | some f =>
    let token ← peek
    if token = .null && !f.codec.readsNull then
      nextNull
      return fields.remove f.name
    else if !f.accepts.isEmpty && !f.accepts.contains token then
      skipValue
      return fields
    else
      match ← f.codec.readWith call with
      | some v => return fields.set f.name v
      | none => return fields.remove f.name

private theorem readEntry_eq (p : ReadProcedure) (call : Nat → ReadM (Option Value)) (fields : Fields) :
    p.readEntry call fields = nextName >>= readValue p call fields := rfl

/-- A field that is present is set to its value. -/
private theorem reads_readValue {p : ReadProcedure} {call : Nat → ReadM (Option Value)} {f : FieldRead}
    {name : String} {v : Value} {j : Json} (hf : p.field? name = some f) (hnull : j.kind ≠ .null)
    (haccepts : f.accepts ≠ [] → j.kind ∈ f.accepts) (hread : Reads (f.codec.readWith call) (some v) j)
    (fields : Fields) : Reads (readValue p call fields name) (fields.set f.name v) j := by
  have hkind : ¬(decide (j.kind = .null) && !f.codec.readsNull) = true := by simp [hnull]
  have haccept : ¬(!f.accepts.isEmpty && !f.accepts.contains j.kind) = true := by
    simpa using haccepts
  unfold readValue
  simp only [hf]
  refine reads_peek ?_
  rw [if_neg hkind, if_neg haccept]
  exact hread.bind_of_state fun r => rfl

/-- The fields that are present are set in their order. -/
private theorem foldsEntries_fields (accessor : Accessor) {all : List (Field × Codec)}
    (hserialized : (all.map (·.1.serializedName)).Nodup)
    (h : List.Forall₂ (FieldEncodes reg s bs fields fuel) ps entries) (hall : ps ⊆ all)
    (hnames : (ps.map (·.1.name)).Nodup) (read : Fields) (hread : ∀ p ∈ ps, p.1.name ∉ read.map (·.1)) :
    FoldsEntries (readValue (Declaration.readProcedure accessor all)
        (Converter.callBinding (Converter.read s.delegates fuel) bs)) read (entries.filterMap id)
      (read ++ (ps.map (·.1.name)).filterMap fun n => (fields.get? n).map (n, ·)) := by
  induction h generalizing read with
  | nil =>
    rw [List.map_nil, List.filterMap_nil, List.filterMap_nil, List.append_nil]
    exact .nil read
  | @cons p entry ps entries hp _ ih =>
    have hrest := ih (fun q hq => hall (List.mem_cons_of_mem _ hq)) (List.nodup_cons.1 hnames).2
    have hnew : ∀ q ∈ ps, q.1.name ≠ p.1.name := fun q hq heq =>
      (List.nodup_cons.1 hnames).1 (List.mem_map.2 ⟨q, hq, heq⟩)
    unfold FieldEncodes at hp
    rw [List.map_cons]
    cases hv : fields.get? p.1.name with
    | none =>
      simp only [hv] at hp
      obtain ⟨rfl, -, -⟩ := hp
      simp only [List.filterMap_cons, hv, Option.map_none, id_eq]
      exact hrest read fun q hq => hread q (List.mem_cons_of_mem _ hq)
    | some v =>
      simp only [hv] at hp
      obtain ⟨j, rfl, hnull, haccepts, -, hreads⟩ := hp
      have hfield : (Declaration.readProcedure accessor all).field? p.1.serializedName =
          some ⟨p.1.name, p.1.serializedName, accessor p.1, p.2.acceptedTokens, p.2⟩ :=
        Declaration.field?_readProcedure accessor hserialized (hall (List.mem_cons_self ..))
      have hset := reads_readValue hfield hnull haccepts hreads read
      rw [Fields.set_of_notMem (hread p (List.mem_cons_self ..))] at hset
      have htail := hrest (read ++ [(p.1.name, v)]) fun q hq => by
        rw [List.map_append, List.mem_append, not_or]
        exact ⟨hread q (List.mem_cons_of_mem _ hq), by simpa using hnew q hq⟩
      simp only [List.filterMap_cons, hv, Option.map_some, id_eq]
      rw [← List.append_cons] at htail
      exact .cons hset htail

/-- The adapter of a structure encodes the objects whose fields stand in declaration order, have every required field,
and are encoded by the codecs of the fields. -/
theorem encodes_struct (i : Nat) {accessor : Accessor} {d : Declaration} {codecs : List Codec} {a : StructAdapter}
    (hserves : a.Serves accessor d codecs) (hwritesNull : ∀ p ∈ d.fields.zip codecs, p.2.writesNull = false)
    (hnames : (d.fields.map (·.name)).Nodup) (hsub : (fields.map (·.1)).Sublist (d.fields.map (·.name)))
    (hnull : ∀ p ∈ fields, p.2.isNull = false)
    (hrequired : ∀ f ∈ d.fields, f.isNonNull = true → f.name ∈ fields.map (·.1))
    (hencodes : ∀ p ∈ d.fields.zip codecs, ∀ v, (p.1.name, v) ∈ fields → ∃ j, Codec.Encodes reg s bs p.2 v j)
    (target : TypeRef) (linked : Bool) :
    ∃ j, (Converter.struct i a target bs linked).Encodes reg s (.object target fields) j := by
  -- every field is present and encoded, or it is left out
  obtain ⟨entries, n, hentries⟩ := exists_forall₂_of_le (P := FieldEncodes reg s bs fields) (d.fields.zip codecs)
    fun p hp => by
      unfold FieldEncodes
      cases hv : fields.get? p.1.name with
      | none =>
        refine ⟨none, 0, fun fuel _ => ⟨rfl, ?_, hwritesNull p hp⟩⟩
        have hmem : p.1 ∈ d.fields := (List.of_mem_zip hp).1
        by_contra hnonNull
        obtain ⟨q, hq, hname⟩ := List.mem_map.1 (hrequired p.1 hmem (by simpa using hnonNull))
        exact Fields.get?_ne_none hnull hq (hname ▸ hv)
      | some v =>
        obtain ⟨j, hj, haccepts, n, hfuel⟩ := hencodes p hp v (Fields.mem_of_get? hv)
        exact ⟨some (p.1.serializedName, j), n, fun fuel hle => ⟨j, rfl, hj, haccepts, hfuel fuel hle⟩⟩
  have hfound : ((d.fields.zip codecs).map (·.1.name)).filterMap (fun n => (fields.get? n).map (n, ·)) = fields := by
    rw [hserves.map_zip Field.name]
    exact Fields.eq_filterMap hnames hsub hnull
  refine ⟨.object (entries.filterMap id), .of_succ n (by simp [Json.kind]) fun fuel hfuel => ?_⟩
  have hall := hentries fuel hfuel
  constructor
  · have hwrites (typed : TypedWriter) := writes_object (writesEntries_fields accessor target typed hall)
    have hops (typed : TypedWriter) : a.writeInstance
        (fun c => c.writeWith (Converter.writeBinding (Converter.write reg fuel) bs) typed) target
          (some (.object target fields)) =
        (do
          token Writer.beginObject
          Codec.writeEach
            (writeField (fun c => c.writeWith (Converter.writeBinding (Converter.write reg fuel) bs) typed)
              target fields)
            ((d.fields.zip codecs).map fun p => ⟨p.1.name, p.1.serializedName, accessor p.1, p.2, p.1.isNonNull⟩)
          token Writer.endObject) := by
      rw [← runOps_fields, List.map_map]
      show runOps _ target (some fields) a.write = _
      rw [hserves.write]
      rfl
    rw [Converter.write]
    dsimp only
    rw [hops]
    exact hwrites _
  · have hread : (Converter.struct i a target bs linked).read s.delegates (fuel + 1) =
        a.read.read target (Converter.callBinding (Converter.read s.delegates fuel) bs) := rfl
    have hfold := foldsEntries_fields accessor hserves.serializedNames_nodup hall (List.Subset.refl _)
      (by rw [hserves.map_zip Field.name]; exact hnames) [] (by simp)
    rw [List.nil_append, hfound] at hfold
    have hmissing : a.read.missing? fields = none := by
      rw [hserves.read, ReadProcedure.missing?, List.find?_eq_none]
      intro name hname
      obtain ⟨p, hp, rfl⟩ := List.mem_map.1 hname
      obtain ⟨hp, hnonNull⟩ := List.mem_filter.1 hp
      have hmem : p.1 ∈ d.fields := (List.of_mem_zip hp).1
      obtain ⟨q, hq, hname⟩ := List.mem_map.1 (hrequired p.1 hmem hnonNull)
      have hsome := Fields.get?_ne_none hnull hq
      rw [hname] at hsome
      simpa using hsome
    rw [← hserves.read] at hfold
    rw [hread]
    unfold ReadProcedure.read
    refine reads_peek ?_
    refine reads_object (readEntry_eq _ _) hfold fun r => ?_
    rw [hmissing]
    rfl

end StructAdapter

end Marshal
