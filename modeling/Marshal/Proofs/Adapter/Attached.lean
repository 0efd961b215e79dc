import Marshal.Proofs.Adapter.Encoding
import Marshal.Proofs.Plan.Unattached

/-!
# Fields with an attached converter

What an adapter does with a field to which a converter is attached, in the directions that the converter takes over:
when it is called, and what happens instead (`FieldConverter.readField`, `FieldConverter.writeField`).  The adapter
decides this in several places, by the tests of the codec for nulls, by the tokens that it accepts and by the codec
itself; they agree (`StructAdapter.Serves.handsOver`).
-/

namespace Marshal

open Effect Reader

open WriteM (token)

namespace FieldConverter

/-- Reads an entry of the field behind its name, where `call` reads with the converter.  A null-safe converter is not
called at a null token, which clears the field. -/
def readField (x : FieldConverter) (f : Field) (call : ReadM (Option Value)) (fields : Fields) : ReadM Fields := do
  if (← peek) = .null ∧ x.nullSafe = true then
    nextNull
    return fields.remove f.name
  else
    return (← call).elim (fields.remove f.name) (fields.set f.name)

/-- Writes the field of an object of the type `owner`, where `call` writes with the converter.  A value that the
object has for the field is never null.  An absent value is refused if the field must be present; otherwise a
null-safe converter is not called for it, and it is left out. -/
def writeField (x : FieldConverter) (owner : TypeRef) (f : Field) (call : Option Value → WriteM Unit)
    (fields : Fields) : WriteM Unit :=
  let entry (v : Option Value) : WriteM Unit := do
    token (Writer.name f.serializedName)
    call v
  (fields.get? f.name).elim
    (if f.isNonNull then throw (.nonNull owner.plain f.name) else if x.nullSafe then return else entry none)
    fun v => entry (some v)

end FieldConverter

/-! ### Reading -/

private theorem readEntry_of_attached {p : ReadProcedure} {call : Nat → ReadM (Option Value)}
    {x : FieldConverter} {f : Field} {g : FieldRead} {i : Nat} (hg : p.field? f.serializedName = some g)
    (hname : g.name = f.name) (haccepts : g.accepts = g.codec.acceptedTokens)
    (hcodec : g.codec.reading = .attached i x.nullSafe) (fields : Fields) {r r₁ : Reader}
    (hr : nextName r = .ok f.serializedName r₁) : p.readEntry call fields r = x.readField f (call i) fields r₁ := by
  have hempty : g.accepts = [] := by rw [haccepts, ← g.codec.acceptedTokens_reading, hcodec]; rfl
  have hnull : g.codec.readsNull = !x.nullSafe := by rw [← g.codec.readsNull_reading, hcodec]; rfl
  rw [ReadProcedure.readEntry, bind_of_ok hr]
  simp only [hg, hempty, hnull, hname, List.isEmpty_nil, Bool.not_true, Bool.false_and, Bool.false_eq_true, if_false,
    Bool.not_not]
  rw [FieldConverter.readField]
  cases hp : peek r₁ with
  | error e r₂ => rw [bind_of_error hp, bind_of_error hp]
  | ok kind r₂ =>
    rw [bind_of_ok hp, bind_of_ok hp]
    by_cases hsafe : kind = .null ∧ x.nullSafe = true
    · rw [if_pos hsafe, if_pos (by simp [hsafe])]
    rw [if_neg hsafe, if_neg (by simpa using hsafe)]
    -- the codec looks at the token once more, which is not a null that it keeps from the converter
    have hread : g.codec.readWith call r₂ = call i r₂ := by
      rw [← g.codec.readWith_reading, hcodec, Codec.readWith]
      cases hx : x.nullSafe with
      | false => rfl
      | true =>
        rw [if_pos rfl, bind_of_ok (peek_idem hp), if_neg fun hk => hsafe ⟨hk, hx⟩]
    cases hv : call i r₂ with
    | error e r₃ => rw [bind_of_error (hread.trans hv), bind_of_error hv]
    | ok v r₃ =>
      rw [bind_of_ok (hread.trans hv), bind_of_ok hv]
      cases v <;> rfl

/-! ### Writing -/

private theorem writeField_of_attached {call : Nat → Option Value → WriteM Unit} {typed : TypedWriter}
    {x : FieldConverter} {f : Field} {k : Codec} {i : Nat} {access : FieldAccess}
    (hcodec : k.writing = .attached i x.nullSafe) (owner : TypeRef) (fields : Fields) :
    StructAdapter.writeField (fun k => k.writeWith call typed) owner fields
      ⟨f.name, f.serializedName, access, k, f.isNonNull⟩ = x.writeField owner f (call i) fields := by
  have hwrite (v : Option Value) :
      k.writeWith call typed v = (Codec.attached i x.nullSafe).writeWith call typed v := by
    rw [← k.writeWith_writing, hcodec]
  have hnull : k.writesNull = !x.nullSafe := by rw [← k.writesNull_writing, hcodec]; rfl
  unfold StructAdapter.writeField FieldConverter.writeField
  cases hv : Fields.get? fields f.name with
  | some v => simp only [hwrite, Codec.writeWith, Value.present?_of_ne (Fields.ne_null_of_get? hv), Option.elim_some]
  | none =>
    simp only [hwrite, hnull, Option.elim_none]
    cases hx : x.nullSafe <;> simp [Codec.writeWith, Value.present?]

/-! ### Adapters -/

/-- The adapter calls the binding at the position for the field where the attachment of the converter says so, in the
directions that the converter takes over, and nothing else is done with the field. -/
structure StructAdapter.HandsOver (a : StructAdapter) (f : Field) (x : FieldConverter) (i : Nat) : Prop where
  /-- What becomes of every entry of the field. -/
  read : x.usage ≠ .write → ∀ (call : Nat → ReadM (Option Value)) (fields : Fields) (r r₁ : Reader),
    nextName r = .ok f.serializedName r₁ → a.read.readEntry call fields r = x.readField f (call i) fields r₁
  /-- A present object is written with the field among others. -/
  write : x.usage ≠ .read → ∃ ws ws',
    ∀ (call : Nat → Option Value → WriteM Unit) (typed : TypedWriter) (owner ty : TypeRef)
    (fields : Fields), a.writeInstance (fun k => k.writeWith call typed) owner (some (.object ty fields)) = (do
      token Writer.beginObject
      Codec.writeEach (writeField (fun k => k.writeWith call typed) owner fields) ws
      x.writeField owner f (call i) fields
      Codec.writeEach (writeField (fun k => k.writeWith call typed) owner fields) ws'
      token Writer.endObject)
  /-- An absent object is written without fields. -/
  absent : ∀ (write : Codec → Option Value → WriteM Unit) (owner : TypeRef), a.writeInstance write owner none = (do
    token Writer.beginObject
    token Writer.endObject)

/-- The codec of a field in the directions that the attached converter takes over. -/
private theorem FieldCodes.attached_sides {bs : List Binding} {f : Field} {k : Codec} (h : FieldCodes bs f k)
    {x : FieldConverter} (hx : f.converter = some x) :
    ∃ i, Attaches bs x i ∧ (x.usage ≠ .write → k.reading = .attached i x.nullSafe) ∧
      (x.usage ≠ .read → k.writing = .attached i x.nullSafe) := by
  have heq {y : FieldConverter} (hy : f.converter = some y) : y = x := Option.some.inj (hy.symm.trans hx)
  cases h with
  | planned hf _ => cases hf.symm.trans hx
  | attached hf _ hb =>
    obtain rfl := heq hf
    exact ⟨_, hb, fun _ => rfl, fun _ => rfl⟩
  | write hf hu hb _ =>
    obtain rfl := heq hf
    exact ⟨_, hb, fun hne => absurd hu hne, fun _ => rfl⟩
  | read hf hu hb _ =>
    obtain rfl := heq hf
    exact ⟨_, hb, fun _ => rfl, fun hne => absurd hu hne⟩

namespace StructAdapter.Serves

variable {accessor : Accessor} {d : Declaration} {codecs : List Codec} {a : StructAdapter}
  (h : a.Serves accessor d codecs)
  {f : Field} {k : Codec} (hfk : (f, k) ∈ d.fields.zip codecs) {x : FieldConverter} {i : Nat}

include h

private theorem writeInstance_none (write : Codec → Option Value → WriteM Unit) (owner : TypeRef) :
    a.writeInstance write owner none = (do
      token Writer.beginObject
      token Writer.endObject) := by
  show runOps write owner none a.write = _
  rw [h.write]
  rfl

include hfk

private theorem readEntry_attached (hcodec : k.reading = .attached i x.nullSafe) (call : Nat → ReadM (Option Value))
    (fields : Fields) {r r₁ : Reader} (hr : nextName r = .ok f.serializedName r₁) :
    a.read.readEntry call fields r = x.readField f (call i) fields r₁ := by
  obtain ⟨access, hg⟩ :
      ∃ access, a.read.field? f.serializedName = some ⟨f.name, f.serializedName, access, k.acceptedTokens, k⟩ :=
    ⟨accessor f, h.read ▸ Declaration.field?_readProcedure accessor h.serializedNames_nodup hfk⟩
  exact readEntry_of_attached hg rfl rfl hcodec fields hr

private theorem writeInstance_attached (hcodec : k.writing = .attached i x.nullSafe) :
    ∃ ws ws',
      ∀ (call : Nat → Option Value → WriteM Unit) (typed : TypedWriter) (owner ty : TypeRef) (fields : Fields),
      a.writeInstance (fun k => k.writeWith call typed) owner (some (.object ty fields)) = (do
        token Writer.beginObject
        Codec.writeEach (writeField (fun k => k.writeWith call typed) owner fields) ws
        x.writeField owner f (call i) fields
        Codec.writeEach (writeField (fun k => k.writeWith call typed) owner fields) ws'
        token Writer.endObject) := by
  obtain ⟨ps, ps', hps⟩ := List.append_of_mem hfk
  let write (p : Field × Codec) : FieldWrite := ⟨p.1.name, p.1.serializedName, accessor p.1, p.2, p.1.isNonNull⟩
  refine ⟨ps.map write, ps'.map write, fun call typed owner ty fields => ?_⟩
  have hops : a.write =
      .beginObject :: .endIfAbsent ::
      ((ps.map write ++ write (f, k) :: ps'.map write).map .field ++ [.endObject]) := by
    rw [h.write, Declaration.writeProcedure, hps]
    simp [write, Function.comp_def]
  show runOps _ owner (some fields) a.write = _
  rw [hops, runOps, runOps, if_neg (by simp), runOps_fields, Codec.writeEach_append, Codec.writeEach]
  simp only [write, writeField_of_attached hcodec, bind_assoc]

/-- Fields to which a converter is attached are handed over to it. -/
theorem handsOver (hx : f.converter = some x) : ∃ i, Attaches a.bindings x i ∧ a.HandsOver f x i := by
  obtain ⟨i, hb, hreading, hwriting⟩ := (h.field_codes hfk).attached_sides hx
  refine ⟨i, hb, ?_, fun hu => h.writeInstance_attached hfk (hwriting hu), h.writeInstance_none⟩
  exact fun hu call fields r r₁ hr => h.readEntry_attached hfk (hreading hu) call fields hr

end StructAdapter.Serves

end Marshal
