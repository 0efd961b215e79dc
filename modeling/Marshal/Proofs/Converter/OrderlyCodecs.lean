import Marshal.Proofs.Adapter.Encoding
import Marshal.Proofs.Converter.Assembling
import Marshal.Proofs.Converter.Orderly

/-!
# Orderly codecs

Values of any shape, natives, codecs and adapters write in order, whatever value they are given and whether it is of
their type or not, if the bindings and the converters of runtime types do that they call.
-/

namespace Marshal

open Effect

namespace WriteM

variable {I : Store → Prop} {V : Prop} {typed : TypedWriter}

private theorem orderly_assembles
    (htyped : ∀ write, typed = some write → ∀ ty v, (V → v.WellSpelled) → Orderly I V (write ty v)) :
    Assembles typed (fun v => V → v.WellSpelled) (Orderly I V) (OrderlyItems I V) (OrderlyEntries I V) where
  part hu hv hV := (hv hV).of_inside hu
  null := orderly_null
  bool := orderly_bool
  int := orderly_int
  float := orderly_float
  string := orderly_string
  number hv hl := orderly_number fun hV => hv hV _ hl
  typed h hv _ := htyped _ h _ _ hv
  refused _ hmisuse := orderly_throw hmisuse
  refusedEntry _ hmisuse := orderlyParts_throw hmisuse
  noItems := orderlyParts_nil content_items
  item := Orderly.item
  items := .append content_items
  array := orderly_array
  noEntries := orderlyParts_nil content_entries
  entry := Orderly.entry
  entries := .append content_entries
  object := orderly_object

private theorem orderly_assembles_none :
    Assembles none (fun v => V → v.WellSpelled) (Orderly I V) (OrderlyItems I V) (OrderlyEntries I V) :=
      orderly_assembles nofun

theorem orderly_writeAny
    (htyped : ∀ write, typed = some write → ∀ ty v, (V → v.WellSpelled) → Orderly I V (write ty v)) (v : Value)
    (hv : V → v.WellSpelled) : Orderly I V (v.writeAny typed) := (orderly_assembles htyped).writeAny v hv

theorem orderly_native (kind : NativeKind) (v : Option Value) (hv : V → Value.WellSpelled? v) :
    Orderly I V (kind.write v) := orderly_assembles_none.native kind fun w hw hV => hv hV w hw

/-- A codec writes in order if its bindings and the converters of runtime types do. -/
theorem orderly_codec {call : Nat → Option Value → WriteM Unit}
    (htyped : ∀ write, typed = some write → ∀ ty v, (V → v.WellSpelled) → Orderly I V (write ty v))
    (hcall : ∀ i v, (V → Value.WellSpelled? v) → Orderly I V (call i v)) (c : Codec) (v : Option Value)
    (hv : V → Value.WellSpelled? v) : Orderly I V (c.writeWith call typed v) := by
  have habsent (i : Nat) (_ : i ∈ c.indices) : Orderly I V (call i none) :=
    hcall i none fun _ => Value.wellSpelled?_none
  cases v with
  | none => exact (orderly_assembles htyped).codec_none c habsent
  | some w =>
    have hw (hV : V) : w.WellSpelled := hv hV w rfl
    have hpart (i : Nat) (u : Value) (hu : c.Hands w i u) : Orderly I V (call i (some u)) :=
      hcall i (some u) fun hV => ((hw hV).of_inside hu.inside).some
    exact (orderly_assembles htyped).codec c habsent hpart hw

theorem orderly_enum (a : EnumAdapter) (v : Option Value) : Orderly I V (a.write v) := orderly_assembles_none.enum a v

section Struct

variable {write : Codec → Option Value → WriteM Unit}
  (hwrite : ∀ c v, (V → Value.WellSpelled? v) → Orderly I V (write c v))

include hwrite

private theorem orderly_writeField (target : TypeRef) {values : Fields}
    (hvalues : ∀ name w, Fields.get? values name = some w → V → w.WellSpelled) (f : FieldWrite) :
    OrderlyEntries I V (StructAdapter.writeField write target values f) := by
  unfold StructAdapter.writeField
  cases hget : Fields.get? values f.name with
  | some w => exact (hwrite f.codec (some w) fun hV => (hvalues f.name w hget hV).some).entry f.serializedName
  | none =>
    dsimp only
    split_ifs
    · exact orderlyParts_throw rfl
    · exact (hwrite f.codec none fun _ => Value.wellSpelled?_none).entry f.serializedName
    · exact orderlyParts_nil content_entries

/-- The write procedure of a declaration writes an object, which is empty for an absent instance. -/
theorem orderly_struct {a : StructAdapter} {accessor : Accessor} {fields : List (Field × Codec)}
    (ha : a.write = Declaration.writeProcedure accessor fields) (target : TypeRef) (v : Option Value)
    (hv : V → Value.WellSpelled? v) : Orderly I V (a.writeInstance write target v) := by
  unfold StructAdapter.writeInstance
  rw [ha, Declaration.writeProcedure]
  cases hp : Value.present? v with
  | none => exact orderly_object (orderlyParts_nil content_entries)
  | some w =>
    cases w with
    | object ty values =>
      have hvalues (name : String) (w : Value) (hget : Fields.get? values name = some w) (hV : V) : w.WellSpelled :=
        ((hv hV).of_present? hp).field (Fields.mem_of_get? hget)
      have hobject := orderly_object (writeEach_of_closed (orderlyParts_nil content_entries) (.append content_entries)
        fun f (_ : f ∈ fields.map fun p => ⟨p.1.name, p.1.serializedName, accessor p.1, p.2, p.1.isNonNull⟩) =>
          orderly_writeField hwrite target hvalues f)
      rw [← StructAdapter.runOps_fields, List.map_map] at hobject
      exact hobject
    | _ => exact orderly_mismatch _ _

end Struct

end WriteM

end Marshal
