import Marshal.Proofs.Converter.OrderlyCodecs
import Marshal.Proofs.Registry.Holdings
import Marshal.Proofs.Registry.RoundTrip
import Marshal.Proofs.Registry.Supplied
import Marshal.Proofs.Stream.Compact

/-!
# Whole documents

What a registry of generated modules gives out writes whole documents, if no converters are attached: it never writes
a token where none may stand, whatever value it is given (`toJson_spells`).  Converters refer to each other in cycles,
and a value may be written with the converter of its own type, which is resolved on the way; the proof is by induction
on the fuel, for all converters without parts of the caller's own (`Converter.Generated`).
-/

namespace Marshal

open Effect Reader WriteM

namespace Converter

/-- A converter without parts of the caller's own, whose adapters write by the procedures of declarations. -/
inductive Generated : Converter → Prop
  | native (id : Nat) (kind : NativeKind) : Generated (.native id kind)
  | dynamic (id : Nat) (linked : Bool) : Generated (.dynamic id linked)
  | codec (id : Nat) (c : Codec) {bs : List Converter} (hbs : ∀ b ∈ bs, Generated b) : Generated (.codec id c bs)
  | enum (id : Nat) (a : EnumAdapter) : Generated (.enum id a)
  | struct (id : Nat) {a : StructAdapter} (target : TypeRef) {bs : List Converter} (linked : Bool)
    {accessor : Accessor}
    {fields : List (Field × Codec)} (ha : a.write = Declaration.writeProcedure accessor fields)
    (hbs : ∀ b ∈ bs, Generated b) : Generated (.struct id a target bs linked)
  | placeholder (id : Nat) (ty : TypeRef) : Generated (.placeholder id ty)

private theorem Generated.of_mem_bindings {b c : Converter} (h : Generated c) (hb : b ∈ c.bindings) :
    Generated b := by
  cases h with
  | codec _ _ hbs => exact hbs b hb
  | struct _ _ _ _ hbs => exact hbs b hb
  | _ => cases hb

end Converter

open Converter (Generated)

namespace Registry

variable {ms : List AdapterModule}

/-- Recipes of generated modules make such converters out of such parts. -/
private theorem generated_assemble (hms : ∀ m ∈ ms, ∃ model : Model, model.Generates m) {ty : TypeRef} {p : Recipe}
    (hp : recipe? ms ty = some p) (id : Nat) {cs : List Converter} (hcs : ∀ c ∈ cs, Generated c) :
    Generated (p.assemble id cs) := by
  rcases recipe?_eq_some hp with ⟨slot, m, hm, hp⟩ | hp
  · obtain ⟨model, hgen⟩ := hms m hm
    obtain ⟨d, -, accessor, a, args, -, hserves, -, ⟨x, rfl, rfl⟩ | ⟨x, i, rfl, rfl⟩⟩ :=
      hgen.declared_of_moduleRecipe? hp
    · cases hserves with
      | struct _ hx => exact .struct id _ _ hx.write hcs
    · exact .enum id x
  · rcases Source.standardRecipe?_eq_some hp with rfl | ⟨kind, rfl⟩ | ⟨element, i, -, rfl⟩ |
      ⟨key, value, i, -, rfl | ⟨kind, rfl⟩⟩
    · exact .dynamic id true
    · exact .native id kind
    · exact .codec id _ hcs
    · exact .codec id _ hcs
    · exact .codec id _ hcs

private theorem hereditary_generated (hms : ∀ m ∈ ms, ∃ model : Model, model.Generates m) :
    Hereditary ms [] Generated where
  placeholder := .placeholder
  native := .native
  attached := nofun
  built id _ hp hcs := generated_assemble hms hp id hcs

/-! ### Whole converters -/

section Writing

variable (hms : ∀ m ∈ ms, ∃ model : Model, model.Generates m) {V : Prop} {fuel : Nat}

/-- Converters that are called with some fuel write in order, while all that the registry holds was generated. -/
def WritesOrderly (ms : List AdapterModule) (V : Prop) (fuel : Nat) : Prop :=
  ∀ c : Converter, Generated c → ∀ v, (V → Value.WellSpelled? v) →
    Orderly (Store.All Generated) V (c.write (ofModules ms []) fuel v)

private theorem orderly_writeBinding (h : WritesOrderly ms V fuel) {bs : List Converter} (hbs : ∀ b ∈ bs, Generated b)
    (i : Nat) (v : Option Value) (hv : V → Value.WellSpelled? v) :
    Orderly (Store.All Generated) V (Converter.writeBinding (Converter.write (ofModules ms []) fuel) bs i v) := by
  unfold Converter.writeBinding
  cases hb : bs[i]? with
  | none => exact orderly_throw rfl
  | some b => exact h b (hbs b (List.mem_of_getElem? hb)) v hv

include hms in
private theorem orderly_writeResolved (h : WritesOrderly ms V fuel) (ty : TypeRef) (v : Value)
    (hv : V → v.WellSpelled) : Orderly (Store.All Generated) V
      (Converter.writeResolved (ofModules ms []) fuel (Converter.write (ofModules ms []) fuel) ty v) := by
  intro w out started scopes hw s hs
  by_cases ha : s.alive = true
  · cases hr : (ofModules ms []).resolve fuel ty s with
    | ok c s' =>
      obtain ⟨hc, hs'⟩ := (hereditary_generated hms).resolve hs hr
      rw [writeResolved_of_ok ha hr]
      exact h c hc (some v) (fun hV => (hv hV).some) w out started scopes hw s' hs'
    | error e s' =>
      obtain ⟨he, hs'⟩ := (hereditary_generated hms).resolve_error hs hr
      rw [writeResolved_of_error ha hr]
      exact ⟨hs', by cases e <;> first | rfl | cases he⟩
  · rw [writeResolved_of_dropped ha]
    exact ⟨hs, rfl⟩

include hms in
private theorem writesOrderly (V : Prop) : ∀ fuel, WritesOrderly ms V fuel := by
  intro fuel
  induction fuel with
  | zero => exact fun c _ v _ => orderly_throw rfl
  | succ fuel ih =>
    intro c hc v hv
    have htyped (linked : Bool) : ∀ write,
        (if linked then some (Converter.writeResolved (ofModules ms []) fuel (Converter.write (ofModules ms []) fuel))
          else none) = some write →
        ∀ ty v, (V → v.WellSpelled) → Orderly (Store.All Generated) V (write ty v) := by
      intro write hw ty v hv
      cases linked with
      | false => cases hw
      | true =>
        obtain rfl := Option.some.inj hw
        exact orderly_writeResolved hms ih ty v hv
    cases hc with
    | native id kind => exact orderly_native kind v hv
    | dynamic id linked =>
      rw [Converter.write]
      cases hp : Value.present? v with
      | none => exact orderly_null
      | some w => exact orderly_writeAny (htyped linked) w fun hV => (hv hV).of_present? hp
    | codec id k hbs => exact orderly_codec (htyped false) (orderly_writeBinding ih hbs) k v hv
    | enum id a => exact orderly_enum a v
    | struct id target linked ha hbs =>
      exact orderly_struct (orderly_codec (htyped linked) (orderly_writeBinding ih hbs)) ha target v hv
    | placeholder id ty =>
      intro w out started scopes hw s hs
      rw [Converter.write, bind_of_ok (get_apply _)]
      cases hd : s.delegates.find? id with
      | none => exact ⟨hs, rfl⟩
      | some d => exact ih d (hs.delegates _ (mem_of_lookup hd)) v hv w out started scopes hw s hs

end Writing

/-! ### Documents -/

/-- However a registry of generated modules is used, and whether it lives on or not: a converter that it has given out
or cached never writes a token where none may stand.  The value that it is given may be of any type.  If the numbers
that are written as they are spelled are well spelled, what is written is a standard document, and if that does not
nest too deep, it is skipped as a whole. -/
theorem toJson_spells (hms : ∀ m ∈ ms, ∃ model : Model, model.Generates m) {s : Store} {cs : List Converter}
    (hrun : Run (ofModules ms []) s cs) {c : Converter} (hc : c ∈ cs ∨ ∃ ty, s.cached? ty = some c) (alive : Bool)
    (fuel : Nat) (v : Option Value) :
    (∀ fault s', c.toJson (ofModules ms []) fuel v { s with alive } ≠ .error (.writerMisuse fault) s') ∧
      ∀ text s', c.toJson (ofModules ms []) fuel v { s with alive } = .ok text s' →
        Value.WellSpelled? v →
        (∃ j, Dialect.standard.Spells (.value j) text.toList) ∧
          ∀ j, Dialect.standard.Spells (.value j) text.toList → j.depth ≤ maxDepth →
            ∃ r r', skipValue (ofText text.toList) = .ok ⟨⟩ r ∧ r.cursor.rest = [] ∧
              peek r = .ok .endDocument r' := by
  have hA := hereditary_generated hms
  obtain ⟨hs, hcs⟩ := hA.of_run (fun _ h _ hb => h.of_mem_bindings hb) hrun
  have hgenerated : Generated c := by
    rcases hc with hc | ⟨ty, hc⟩
    · exact hcs c hc
    · exact hs.cache _ (mem_of_lookup hc)
  have hwrite := writesOrderly hms (Value.WellSpelled? v) fuel c hgenerated v id .empty "" true [] rfl
    { s with alive } ⟨hs.delegates, hs.cache⟩
  unfold Converter.toJson
  cases hout : c.write (ofModules ms []) fuel v ⟨.empty, { s with alive }⟩ with
  | error e w =>
    rw [hout] at hwrite
    dsimp only
    refine ⟨fun fault s' heq => ?_, nofun⟩
    obtain ⟨rfl, -⟩ : e = .writerMisuse fault ∧ w.store = s' := by simpa using heq
    cases hwrite.2
  | ok a w =>
    rw [hout] at hwrite
    obtain ⟨-, text, hw, hspells⟩ := hwrite
    have hfinish : w.writer.finish = .ok text := by
      rw [hw, String.empty_append]
      rfl
    simp only [hfinish]
    refine ⟨nofun, fun text' s' heq hV => ?_⟩
    obtain ⟨rfl, -⟩ := ok_inj.1 heq
    obtain ⟨j, hj⟩ := hspells hV
    exact ⟨⟨j.document, hj ▸ j.spells_text⟩, fun j hj hdepth => skipValue_of_spells hj hdepth⟩

/-- A node with a value of any type. -/
def looseNode (v : Value) : Value := .object (.named "demo::Node" [.any]) [("value", v)]

/-- A node in a node is written as its own type says, once the registry has resolved that type; the number inside is
written as it is spelled. -/
theorem toJson_spells_node : ∃ c s text s', Run (ofModules [nodeModule] []) s [c] ∧
    c.toJson (ofModules [nodeModule] []) 9 (some (looseNode (looseNode (.bigInt "12")))) s = .ok text s' ∧
      ∃ j, Dialect.standard.Spells (.value j) text.toList ∧ (j.depth ≤ maxDepth →
        ∃ r r', skipValue (ofText text.toList) = .ok ⟨⟩ r ∧ r.cursor.rest = [] ∧ peek r = .ok .endDocument r') := by
  have hms : ∀ m ∈ [nodeModule], ∃ model : Model, model.Generates m := by
    intro m hm
    obtain rfl := List.mem_singleton.1 hm
    have hgenerate : nodeModel.generate .standard = .ok nodeModule := by rfl
    exact ⟨nodeModel, .of_generate hgenerate⟩
  have hwrites : succeeds (fun c s => succeeds (fun _ _ => true)
      (c.toJson (ofModules [nodeModule] []) 9 (some (looseNode (looseNode (.bigInt "12")))) s))
      ((ofModules [nodeModule] []).resolve 5 (.named "demo::Node" [.any]) .empty) = true := by decide +kernel
  obtain ⟨c, s, hresolve, hwrites⟩ := succeeds_iff.1 hwrites
  obtain ⟨text, s', htext, -⟩ := succeeds_iff.1 hwrites
  have hrun : Run (ofModules [nodeModule] []) s [c] := .resolved .start hresolve
  have hspelled : Value.WellSpelled? (some (looseNode (looseNode (.bigInt "12")))) := by
    rintro _ ⟨⟩ lexeme hl
    obtain rfl : lexeme = "12" := List.mem_singleton.1 hl
    exact NativeKind.isNumber_toString 12
  obtain ⟨⟨j, hj⟩, hskip⟩ :=
    (toJson_spells hms hrun (.inl (List.mem_singleton_self c)) s.alive 9 _).2 text s' htext hspelled
  exact ⟨c, s, text, s', hrun, htext, j, hj, hskip j hj⟩

end Registry

end Marshal
