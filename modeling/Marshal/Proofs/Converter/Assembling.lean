import Marshal.Proofs.Converter.Faults
import Marshal.Proofs.Value.Lexemes

/-!
# Properties of what is written

Whatever is written is assembled from single tokens into arrays and objects, or is refused.  So a property of
computations that holds of the single tokens and of refusals, and is kept as arrays and objects are assembled
(`WriteM.Assembles`), holds of what is written for a value of any shape, a native, a codec or an enumeration, as soon
as it holds of what is written for the parts that are handed on: to the bindings of a codec (`Codec.Hands`), and to
the converters of runtime types.
-/

namespace Marshal

open Effect

namespace Codec

/-- What a codec is to write a value, it hands the part `u` of the value to the binding at the position `i`. -/
inductive Hands : Codec → Value → Nat → Value → Prop
  | binding {i : Nat} {v : Value} (hv : v ≠ .null) : Hands (.binding i) v i v
  | attached {i : Nat} {nullSafe : Bool} {v : Value} (hv : v ≠ .null) : Hands (.attached i nullSafe) v i v
  | declared {c : Codec} {v u : Value} {i : Nat} (h : Hands c v i u) : Hands (.runtimeType c) v i u
  | item {c : Codec} {inst : Instantiator} {items : List Value} {v u : Value} {i : Nat} (hv : v ∈ items)
    (h : Hands c v i u) :
    Hands (.sequence c inst) (.list items) i u
  | entry {kind : NativeKind} {c : Codec} {inst : Instantiator} {entries : List (Value × Value)}
    {e : Value × Value} {u : Value}
    {i : Nat} (he : e ∈ entries) (h : Hands c e.2 i u) : Hands (.objectMap kind c inst) (.map entries) i u
  | key {k c : Codec} {inst : Instantiator} {entries : List (Value × Value)} {e : Value × Value} {u : Value} {i : Nat}
    (he : e ∈ entries) (h : Hands k e.1 i u) : Hands (.pairMap k c inst) (.map entries) i u
  | value {k c : Codec} {inst : Instantiator} {entries : List (Value × Value)} {e : Value × Value}
    {u : Value} {i : Nat}
    (he : e ∈ entries) (h : Hands c e.2 i u) : Hands (.pairMap k c inst) (.map entries) i u
  | write {w r : Codec} {v u : Value} {i : Nat} (h : Hands w v i u) : Hands (.split w r) v i u

theorem Hands.inside {c : Codec} {v u : Value} {i : Nat} (h : c.Hands v i u) : u.Inside v := by
  induction h with
  | binding _ | attached _ => exact .self
  | declared _ ih | write _ ih => exact ih
  | item hv _ ih => exact .item hv ih
  | key he _ ih => exact .key he ih
  | entry he _ ih | value he _ ih => exact .value he ih

theorem Hands.mem_indices {c : Codec} {v u : Value} {i : Nat} (h : c.Hands v i u) : i ∈ c.indices := by
  induction h with
  | binding _ | attached _ => exact List.mem_singleton_self _
  | declared _ ih | item _ _ ih | entry _ _ ih => exact ih
  | key _ _ ih | write _ ih => exact List.mem_append_left _ ih
  | value _ _ ih => exact List.mem_append_right _ ih

end Codec

namespace WriteM

theorem writeEach_of_closed {α : Type} {S : WriteM Unit → Prop} (hnil : S (pure ⟨⟩))
    (happend : ∀ {m m' : WriteM Unit}, S m → S m' → S (do m; m')) {write : α → WriteM Unit} {l : List α}
    (h : ∀ a ∈ l, S (write a)) : S (Codec.writeEach write l) := by
  induction l with
  | nil => exact hnil
  | cons a l ih =>
    rw [List.forall_mem_cons] at h
    exact happend h.1 (ih h.2)

/-- `P` is a property of what writes a value, `Items` one of what writes elements of an array, and `Entries` one of
what writes entries of an object.  They hold of the single tokens and of refusals, and are kept as arrays and objects
are assembled.  Of the values that are written `Q` is assumed, and so of their parts. -/
structure Assembles (typed : TypedWriter) (Q : Value → Prop) (P Items Entries : WriteM Unit → Prop) : Prop where
  part {u v : Value} (hu : u.Inside v) (hv : Q v) : Q u
  null : P (token Writer.null)
  bool (b : Bool) : P (token (Writer.bool b))
  int (n : Int64) : P (token (Writer.int n))
  float (x : Binary64) : P (token (Writer.float x))
  string (s : String) : P (token (Writer.string s))
  number {v : Value} {lexeme : String} (hv : Q v) (hl : lexeme ∈ v.lexemes) : P (token (Writer.number lexeme))
  /-- What the converter of a runtime type writes. -/
  typed {write : TypeRef → Value → WriteM Unit} {v : Value} (h : typed = some write) (hv : Q v)
    (hany : v.runtimeType.isAny = false) : P (write v.runtimeType v)
  refused {e : Error} (hunwritable : e.isUnwritable = true) (hmisuse : e.isMisuse = false) : P (throw e)
  refusedEntry {e : Error} (hunwritable : e.isUnwritable = true) (hmisuse : e.isMisuse = false) : Entries (throw e)
  noItems : Items (pure ⟨⟩)
  item {m : WriteM Unit} (h : P m) : Items m
  items {m m' : WriteM Unit} (h : Items m) (h' : Items m') : Items (do m; m')
  array {m : WriteM Unit} (h : Items m) : P (do token Writer.beginArray; m; token Writer.endArray)
  noEntries : Entries (pure ⟨⟩)
  entry {m : WriteM Unit} (h : P m) (name : String) : Entries (do token (Writer.name name); m)
  entries {m m' : WriteM Unit} (h : Entries m) (h' : Entries m') : Entries (do m; m')
  object {m : WriteM Unit} (h : Entries m) : P (do token Writer.beginObject; m; token Writer.endObject)

namespace Assembles

variable {typed : TypedWriter} {Q : Value → Prop} {P Items Entries : WriteM Unit → Prop}

private theorem untyped (h : Assembles typed Q P Items Entries) : Assembles none Q P Items Entries :=
  { h with typed := nofun }

variable (h : Assembles typed Q P Items Entries)

include h

private theorem mismatch (expected : String) (v : Value) : P (v.mismatch expected) := h.refused rfl rfl

/-- A pair of values is an array of the two. -/
private theorem pair {m m' : WriteM Unit} (hm : P m) (hm' : P m') :
    Items (do token Writer.beginArray; m; m'; token Writer.endArray) := by
  have harray := h.array (h.items (h.item hm) (h.item hm'))
  simpa only [bind_assoc] using h.item harray

/-! ### Values of any shape -/

private theorem writeTyped {v : Value} (hv : Q v) {otherwise : WriteM Unit} (hotherwise : P otherwise) :
    P (v.writeTyped typed otherwise) := by
  cases typed with
  | none => exact hotherwise
  | some write =>
    cases hany : v.runtimeType.isAny with
    | true => simpa [Value.writeTyped, hany] using hotherwise
    | false => simpa [Value.writeTyped, hany] using h.typed rfl hv hany

mutual

theorem writeAny : ∀ v : Value, Q v → P (v.writeAny typed)
  | .null, _ => h.null
  | .bool b, _ => h.bool b
  | .int n, _ => h.int n
  | .float x, _ => h.float x
  | .bigInt lexeme, hv | .decimal lexeme, hv | .number lexeme, hv => h.number hv (List.mem_singleton_self lexeme)
  | .char c, _ => h.string (String.singleton c)
  | .str s, _ | .path s, _ => h.string s
  | .ip a, _ => h.string a.text
  | .enum _ c, hv => h.writeTyped hv (h.string c)
  | .list items, hv => h.array (writeItems items fun _ hitem => h.part (.item hitem .self) hv)
  | .map entries, hv => by
    have hkeys (e : Value × Value) (he : e ∈ entries) : Q e.1 := h.part (.key he .self) hv
    have hvalues (e : Value × Value) (he : e ∈ entries) : Q e.2 := h.part (.value he .self) hv
    rw [Value.writeAny]
    by_cases ht : Value.haveTexts entries = true
    · rw [if_pos ht]
      exact h.object (writeNamed entries hvalues)
    · rw [if_neg ht]
      exact h.array (writePairs entries hkeys hvalues)
  | .object _ fields, hv => h.writeTyped hv (h.object (writeFields fields fun _ hf => h.part (.field hf .self) hv))

private theorem writeItems : ∀ vs : List Value, (∀ v ∈ vs, Q v) → Items (Value.writeItems typed vs)
  | [], _ => h.noItems
  | v :: vs, hvs => by
    rw [List.forall_mem_cons] at hvs
    exact h.items (h.item (writeAny v hvs.1)) (writeItems vs hvs.2)

private theorem writeNamed : ∀ es : List (Value × Value), (∀ e ∈ es, Q e.2) → Entries (Value.writeNamed typed es)
  | [], _ => h.noEntries
  | (k, v) :: es, hes => by
    rw [List.forall_mem_cons] at hes
    have hentry := h.entry (writeAny v hes.1) (k.keyText?.getD "")
    simpa only [Value.writeNamed, bind_assoc] using h.entries hentry (writeNamed es hes.2)

private theorem writePairs : ∀ es : List (Value × Value), (∀ e ∈ es, Q e.1) → (∀ e ∈ es, Q e.2) →
    Items (Value.writePairs typed es)
  | [], _, _ => h.noItems
  | (k, v) :: es, hkeys, hvalues => by
    rw [List.forall_mem_cons] at hkeys hvalues
    have hpair := h.pair (writeAny k hkeys.1) (writeAny v hvalues.1)
    simpa only [Value.writePairs, bind_assoc] using h.items hpair (writePairs es hkeys.2 hvalues.2)

private theorem writeFields : ∀ fs : List (String × Value), (∀ f ∈ fs, Q f.2) → Entries (Value.writeFields typed fs)
  | [], _ => h.noEntries
  | (name, v) :: fs, hfs => by
    rw [List.forall_mem_cons] at hfs
    have hrest := writeFields fs hfs.2
    rw [Value.writeFields]
    by_cases hnull : v.isNull = true
    · rw [if_neg (by simp [hnull])]
      exact hrest
    · rw [if_pos (by simpa using hnull)]
      simpa only [bind_assoc] using h.entries (h.entry (writeAny v hfs.1) name) hrest

end

/-! ### Natives -/

private theorem writeValue (kind : NativeKind) {v : Value} (hv : Q v) : P (kind.writeValue v) := by
  have hrange (k : NativeKind) (n : Int64) :
      P (if k.fits n then token (Writer.int n) else throw (k.outOfRange n)) := by
    split
    · exact h.int n
    · exact h.refused rfl rfl
  unfold NativeKind.writeValue
  split
  all_goals with_reducible first
    | exact h.bool _
    | exact h.float _
    | exact h.int _
    | exact h.string _
    | exact h.mismatch _ _
    | exact hrange _ _
    | exact h.untyped.writeAny _ hv
    | refine h.number hv ?_
  all_goals exact List.mem_singleton_self _

theorem native (kind : NativeKind) {v : Option Value} (hv : ∀ w, v = some w → Q w) : P (kind.write v) := by
  unfold NativeKind.write
  cases hp : Value.present? v with
  | none => exact h.null
  | some w => exact h.writeValue kind (hv w (Value.present?_eq_some hp))

/-! ### Codecs -/

variable {call : Nat → Option Value → WriteM Unit}

/-- A codec for an absent value at most calls a binding for an absent value. -/
theorem codec_none (c : Codec) (hcall : ∀ i ∈ c.indices, P (call i none)) : P (c.writeWith call typed none) := by
  induction c with
  | native kind => exact h.native kind nofun
  | binding index => exact hcall index (List.mem_singleton_self index)
  | dynamic | sequence _ _ _ | objectMap _ _ _ _ | pairMap _ _ _ _ _ => exact h.null
  | runtimeType declared ih => cases typed <;> exact ih hcall
  | attached index nullSafe =>
    cases nullSafe with
    | true => exact h.null
    | false => exact hcall index (List.mem_singleton_self index)
  | split write read ih _ => exact ih fun i hi => hcall i (List.mem_append_left _ hi)

private theorem codec_of_ne_null (c : Codec) (hnone : ∀ i ∈ c.indices, P (call i none)) {v : Value}
    (hsome : v ≠ .null → P (c.writeWith call typed (some v))) : P (c.writeWith call typed (some v)) := by
  by_cases hv : v = .null
  · -- null is written as an absent value
    have hnull : c.writeWith call typed (some v) = c.writeWith call typed none := by
      subst hv
      cases c <;> rfl
    rw [hnull]
    exact h.codec_none c hnone
  · exact hsome hv

/-- A codec calls its bindings for the parts of the value that it hands to them, and for absent values. -/
theorem codec (c : Codec) (hnone : ∀ i ∈ c.indices, P (call i none)) {v : Value}
    (hcall : ∀ i u, c.Hands v i u → P (call i (some u))) (hv : Q v) : P (c.writeWith call typed (some v)) := by
  refine h.codec_of_ne_null c hnone fun hne => ?_
  induction c generalizing v with
  | native kind =>
    refine h.native kind fun w hw => ?_
    obtain rfl := Option.some.inj (Value.present?_eq_some hw)
    exact hv
  | binding index =>
    rw [Codec.writeWith, Value.present?_of_ne hne]
    exact hcall index v (.binding hne)
  | dynamic =>
    simp only [Codec.writeWith, Value.present?_of_ne hne]
    exact h.writeAny v hv
  | runtimeType declared ih =>
    have hdeclared := ih hnone (fun i u hu => hcall i u (.declared hu)) hv hne
    cases htyped : typed with
    | none => simpa only [Codec.writeWith, Value.present?_of_ne hne, htyped] using hdeclared
    | some write =>
      simp only [Codec.writeWith, Value.present?_of_ne hne]
      split
      · exact htyped ▸ h.writeAny v hv
      · next hany => exact h.typed htyped hv (by simpa using hany)
  | sequence element i ih =>
    cases v with
    | list items =>
      refine h.array (writeEach_of_closed h.noItems h.items fun v hmem =>
        h.item (h.codec_of_ne_null element hnone ?_))
      exact ih hnone (fun i u hu => hcall i u (.item hmem hu)) (h.part (.item hmem .self) hv)
    | null => exact absurd rfl hne
    | _ => exact h.mismatch _ _
  | objectMap key value i ih =>
    cases v with
    | map entries =>
      refine h.object (writeEach_of_closed h.noEntries h.entries fun e he => ?_)
      have hvalue : P (value.writeWith call typed (some e.2)) := h.codec_of_ne_null value hnone
        (ih hnone (fun i u hu => hcall i u (.entry he hu)) (h.part (.value he .self) hv))
      obtain ⟨k, v⟩ := e
      dsimp only
      cases k.keyText? with
      | none => exact h.refusedEntry rfl rfl
      | some name => exact h.entry hvalue name
    | null => exact absurd rfl hne
    | _ => exact h.mismatch _ _
  | pairMap key value i ihk ihv =>
    have hnoneKey (i : Nat) (hi : i ∈ key.indices) := hnone i (List.mem_append_left _ hi)
    have hnoneValue (i : Nat) (hi : i ∈ value.indices) := hnone i (List.mem_append_right _ hi)
    cases v with
    | map entries =>
      refine h.array (writeEach_of_closed h.noItems h.items fun e he => ?_)
      exact h.pair
        (h.codec_of_ne_null key hnoneKey
          (ihk hnoneKey (fun i u hu => hcall i u (.key he hu)) (h.part (.key he .self) hv)))
        (h.codec_of_ne_null value hnoneValue
          (ihv hnoneValue (fun i u hu => hcall i u (.value he hu)) (h.part (.value he .self) hv)))
    | null => exact absurd rfl hne
    | _ => exact h.mismatch _ _
  | attached index nullSafe =>
    simp only [Codec.writeWith, Value.present?_of_ne hne]
    exact hcall index v (.attached hne)
  | split write read ih _ =>
    simp only [Codec.writeWith, Value.present?_of_ne hne]
    exact ih (fun i hi => hnone i (List.mem_append_left _ hi)) (fun i u hu => hcall i u (.write hu)) hv hne

/-! ### Enumerations -/

theorem enum (a : EnumAdapter) (v : Option Value) : P (a.write v) := by
  unfold EnumAdapter.write
  rcases Value.present? v with _ | v
  · exact h.null
  · cases v with
    | enum ty constant =>
      dsimp only
      split
      · exact h.refused rfl rfl
      · cases a.serializedName? constant with
        | some name => exact h.string name
        | none => exact h.refused rfl rfl
    | _ => exact h.mismatch _ _

end Assembles

end WriteM

end Marshal
