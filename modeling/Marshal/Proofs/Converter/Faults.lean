import Marshal.Converter.Read
import Marshal.Converter.Write
import Marshal.Proofs.Stream.Calls

/-!
# Faults of tokens and codecs

A broken invariant is not a fault of a document: no call of a reader or a writer raises one, and neither does a
native.  A codec or an adapter raises one while it reads only if a binding that it refers to does.  A writer raises no
faults but those that say of a value that it cannot be written.  Looking at a token and reading its text raise nothing
but malformed texts (`Textual`).
-/

namespace Marshal

open Effect

/-- Whether a fault means a broken invariant of the resolver. -/
def Error.isViolation : Error → Bool
  | .violation _ => true
  | _ => false

/-- Whether a fault means that tokens were written out of order. -/
def Error.isMisuse : Error → Bool
  | .writerMisuse _ => true
  | _ => false

/-- Whether a fault is one of resolving a type. -/
def Error.isOfResolution : Error → Bool
  | .unsupportedType .. | .unknownConverter _ | .violation _ | .outOfFuel => true
  | _ => false

/-- Whether a fault says that a text is malformed. -/
def Error.isMalformed : Error → Bool
  | .malformed .. => true
  | _ => false

/-- Whether a fault says of a value that it cannot be written, whatever its parts are written with. -/
def Error.isUnwritable : Error → Bool
  | .writerMisuse _ | .nonFinite _ | .invalidValue .. | .valueMismatch .. => true
  | _ => false

/-- Every fault that a run of the computation raises has the property. -/
def Raises {σ α : Type} (E : Error → Prop) (m : EStateM Error σ α) : Prop := ∀ s e s', m s = .error e s' → E e

/-- No run of the computation raises a violation. -/
abbrev Mild {σ α : Type} (m : EStateM Error σ α) : Prop := Raises (fun e => e.isViolation = false) m

/-- Whatever a run of the computation raises says that the text is malformed. -/
abbrev Textual {σ α : Type} (m : EStateM Error σ α) : Prop := Raises (fun e => e.isMalformed = true) m

section Raises

variable {σ α β : Type} {E : Error → Prop}

theorem raises_pure (a : α) : Raises E (pure a : EStateM Error σ α) := by
  intro s e s' h
  cases h

theorem raises_get : Raises E (get : EStateM Error σ σ) := by
  intro s e s' h
  cases h

private theorem raises_set (s : σ) : Raises E (set s : EStateM Error σ PUnit) := by
  intro s e s' h
  cases h

theorem raises_modify (f : σ → σ) : Raises E (modify f : EStateM Error σ PUnit) := by
  intro s e s' h
  cases h

theorem raises_throw {e : Error} (he : E e) : Raises E (throw e : EStateM Error σ α) := by
  intro s e' s' h
  obtain ⟨rfl, rfl⟩ : e = e' ∧ s = s' := by simpa [throw_apply] using h
  exact he

theorem Raises.bind {m : EStateM Error σ α} {f : α → EStateM Error σ β} (hm : Raises E m) (hf : ∀ a, Raises E (f a)) :
    Raises E (m >>= f) := by
  intro s e s' h
  rcases bind_eq_error.1 h with h | ⟨a, s₁, -, h⟩
  · exact hm s e s' h
  · exact hf a s₁ e s' h

theorem raises_ite {p : Prop} [Decidable p] {m m' : EStateM Error σ α} (hm : Raises E m) (hm' : Raises E m') :
    Raises E (if p then m else m') := by
  by_cases hp : p
  · rwa [if_pos hp]
  · rwa [if_neg hp]

private theorem Raises.mono {E' : Error → Prop} {m : EStateM Error σ α} (hE : ∀ e, E e → E' e) (hm : Raises E m) :
    Raises E' m :=
  fun s e s' h => hE e (hm s e s' h)

private theorem Textual.mild {m : EStateM Error σ α} (hm : Textual m) : Mild m := by
  refine hm.mono fun e he => ?_
  cases e with
  | malformed => rfl
  | _ => cases he

end Raises

/-! ### Reading tokens -/

namespace Reader

private theorem textual_fail {α : Type} (fault : SyntaxFault) : Textual (fail fault : ReadM α) :=
  .bind raises_get fun _ => raises_throw rfl

private theorem textual_valueKind : Textual valueKind := by
  refine .bind raises_get fun r => ?_
  cases r.cursor.rest with
  | nil => exact textual_fail _
  | cons c s => repeat' first | exact raises_pure _ | exact textual_fail _ | refine raises_ite ?_ ?_

private theorem textual_nameKind : Textual nameKind := by
  intro r e r' h
  rw [nameKind_apply] at h
  by_cases hq : r.cursor.rest.head? = some '"'
  · simp [hq] at h
  · obtain ⟨rfl, rfl⟩ : .malformed .expectedName r.offset = e ∧ r = r' := by simpa [hq] using h
    rfl

private theorem textual_scan : Textual scan := by
  intro r e r' h
  obtain ⟨m, r₁, hasks⟩ := exists_asks r.skipBlanks
  rw [scan_of_asks hasks] at h
  cases hasks with
  | endDocument | endArray | endObject => cases h
  | trailing | noItem | noName | noColon => exact textual_fail _ _ _ _ h
  | document | firstItem | nextItem | entryValue => exact textual_valueKind _ _ _ h
  | firstName | nextName => exact textual_nameKind _ _ _ h

theorem textual_peek : Textual peek := by
  refine .bind raises_get fun r => ?_
  cases r.peeked with
  | some kind => exact raises_pure _
  | none => exact .bind textual_scan fun kind => .bind (raises_modify _) fun _ => raises_pure _

theorem textual_enter (scope : ReadScope) : Textual (enter scope) :=
  .bind raises_get fun _ => raises_ite (raises_set _) (textual_fail _)

theorem textual_readQuoted : Textual readQuoted := by
  refine .bind raises_get fun r => .bind (raises_set _) fun _ => ?_
  cases (Text.unquote (r.cursor.advance 1) (r.cursor.advance 1).rest (r.cursor.advance 1).offset).1 with
  | ok s => exact raises_pure _
  | error fault => exact raises_throw rfl

theorem textual_readNumber : Textual readNumber :=
  .bind raises_get fun _ => raises_ite (.bind (raises_set _) fun _ => raises_pure _) (textual_fail _)

theorem textual_readLiteral (literal : List Char) : Textual (readLiteral literal) :=
  .bind raises_get fun _ => raises_ite (raises_set _) (textual_fail _)

private theorem mild_unexpected {α : Type} (expected : String) (found : TokenKind) :
    Mild (unexpected expected found : ReadM α) :=
  .bind raises_get fun _ => raises_throw rfl

private theorem mild_take : Mild take := raises_modify _

private theorem mild_expect (kind : TokenKind) : Mild (expect kind) :=
  .bind textual_peek.mild fun _ => raises_ite mild_take (mild_unexpected _ _)

private theorem mild_hasNext : Mild hasNext := by
  refine .bind textual_peek.mild fun kind => ?_
  cases kind
  all_goals exact raises_pure _

private theorem mild_leave : Mild leave := raises_modify _

private theorem mild_beginObject : Mild beginObject := .bind (mild_expect _) fun _ => (textual_enter _).mild

private theorem mild_endObject : Mild endObject := .bind (mild_expect _) fun _ => mild_leave

private theorem mild_beginArray : Mild beginArray := .bind (mild_expect _) fun _ => (textual_enter _).mild

private theorem mild_endArray : Mild endArray := .bind (mild_expect _) fun _ => mild_leave

private theorem mild_nextName : Mild nextName :=
  .bind (mild_expect _) fun _ => .bind textual_readQuoted.mild fun _ => .bind (raises_modify _) fun _ => raises_pure _

private theorem mild_nextString : Mild nextString := by
  refine .bind textual_peek.mild fun kind => ?_
  cases kind with
  | string => exact .bind mild_take fun _ => textual_readQuoted.mild
  | number => exact .bind mild_take fun _ => textual_readNumber.mild
  | _ => exact mild_unexpected _ _

private theorem mild_nextNumber : Mild nextNumber := by
  refine .bind textual_peek.mild fun kind => ?_
  cases kind with
  | number => exact .bind mild_take fun _ => textual_readNumber.mild
  | string => exact .bind mild_take fun _ => textual_readQuoted.mild
  | _ => exact mild_unexpected _ _

private theorem mild_nextBool : Mild nextBool :=
  .bind (mild_expect _) fun _ => .bind raises_get fun _ =>
    raises_ite (.bind (textual_readLiteral _).mild fun _ => raises_pure _)
      (.bind (textual_readLiteral _).mild fun _ => raises_pure _)

private theorem mild_nextNull : Mild nextNull := .bind (mild_expect _) fun _ => (textual_readLiteral _).mild

private theorem mild_whileNext {step : ReadM Unit} (h : Mild step) : ∀ fuel, Mild (whileNext fuel step)
  | 0 => raises_throw rfl
  | fuel + 1 => .bind mild_hasNext fun _ => raises_ite (.bind h fun _ => mild_whileNext h fuel) (raises_pure _)

private theorem mild_skipWith : ∀ fuel, Mild (skipWith fuel)
  | 0 => raises_throw rfl
  | fuel + 1 => by
    refine .bind textual_peek.mild fun kind => ?_
    have hname : Mild (do let _ ← nextName; skipWith fuel) := .bind mild_nextName fun _ => mild_skipWith fuel
    cases kind with
    | beginObject =>
      exact .bind mild_beginObject fun _ => .bind raises_get fun _ => .bind (mild_whileNext hname _) fun _ =>
        mild_endObject
    | beginArray =>
      exact .bind mild_beginArray fun _ => .bind raises_get fun _ =>
        .bind (mild_whileNext (mild_skipWith fuel) _) fun _ => mild_endArray
    | string | number => exact .bind mild_nextString fun _ => raises_pure _
    | boolean => exact .bind mild_nextBool fun _ => raises_pure _
    | null => exact mild_nextNull
    | name => exact .bind mild_nextName fun _ => raises_pure _
    | endObject | endArray | endDocument => exact mild_unexpected _ _

private theorem mild_skipValue : Mild skipValue := mild_skipWith _

/-! ### Reading containers -/

variable {σ : Type} {step : σ → ReadM σ}

private theorem mild_foldNext (h : ∀ s, Mild (step s)) : ∀ fuel s, Mild (foldNext fuel step s)
  | 0, _ => raises_throw rfl
  | fuel + 1, s => .bind mild_hasNext fun _ => raises_ite (.bind (h s) fun s => mild_foldNext h fuel s)
      (raises_pure _)

private theorem mild_overEntries (h : ∀ s, Mild (step s)) (s : σ) : Mild (overEntries step s) :=
  .bind raises_get fun _ => mild_foldNext h _ s

private theorem mild_readItems {item : ReadM (Option Value)} (h : Mild item) : Mild (readItems item) :=
  .bind mild_beginArray fun _ => .bind (mild_overEntries (fun _ => .bind h fun _ => raises_pure _) _) fun _ =>
    .bind mild_endArray fun _ => raises_pure _

private theorem mild_readNamed {key : String → ReadM (String × Value)} {value : ReadM (Option Value)}
    (hkey : ∀ name, Mild (key name)) (hvalue : Mild value) : Mild (readNamed key value) :=
  .bind mild_beginObject fun _ =>
    .bind (mild_overEntries (fun _ => .bind mild_nextName fun name => .bind (hkey name) fun _ =>
      raises_ite (raises_throw (e := .duplicateKey name) rfl) (.bind hvalue fun _ => raises_pure _)) _) fun _ =>
    .bind mild_endObject fun _ => raises_pure _

private theorem mild_readPairs {key value : ReadM (Option Value)} (hkey : Mild key) (hvalue : Mild value) :
    Mild (readPairs key value) :=
  .bind mild_beginArray fun _ =>
    .bind (mild_overEntries (fun _ => .bind mild_beginArray fun _ => .bind hkey fun _ => .bind hvalue fun _ =>
      .bind mild_endArray fun _ => raises_ite (raises_throw (e := .duplicateKey _) rfl) (raises_pure _)) _) fun _ =>
    .bind mild_endArray fun _ => raises_pure _

private theorem mild_onText {α : Type} {m : ReadM α} (s : List Char) (h : Mild m) : Mild (onText s m) := by
  unfold onText
  cases hm : m.run (ofText s) with
  | ok a r => exact raises_pure a
  | error e r => exact raises_throw (h _ _ _ hm)

private theorem mild_skipMismatched (found : TokenKind) : Mild (skipMismatched found) :=
  raises_ite (.bind mild_nextNull fun _ => raises_pure _) (.bind mild_skipValue fun _ => raises_pure _)

end Reader

open Reader

/-! ### Natives -/

private theorem mild_ofLexeme (lexeme : String) : Mild (Value.ofLexeme lexeme) := by
  unfold Value.ofLexeme
  cases int64Text? lexeme.toList with
  | some n => exact raises_pure _
  | none =>
    refine raises_ite (raises_pure _) ?_
    cases floatText? lexeme.toList with
    | some x => exact raises_pure _
    | none => exact raises_throw rfl

private theorem mild_readWith : ∀ fuel, Mild (Value.readWith fuel)
  | 0 => raises_throw rfl
  | fuel + 1 => by
    refine .bind textual_peek.mild fun kind => ?_
    cases kind with
    | null => exact .bind mild_nextNull fun _ => raises_pure _
    | boolean => exact .bind mild_nextBool fun _ => raises_pure _
    | string => exact .bind mild_nextString fun _ => raises_pure _
    | number => exact .bind mild_nextNumber fun _ => .bind (mild_ofLexeme _) fun _ => raises_pure _
    | beginArray => exact .bind (mild_readItems (mild_readWith fuel)) fun _ => raises_pure _
    | beginObject =>
      exact .bind (mild_readNamed (fun _ => raises_pure _) (mild_readWith fuel)) fun _ => raises_pure _
    | endObject | endArray | name | endDocument => exact mild_unexpected _ _

theorem mild_readAny : Mild Value.readAny := mild_readWith _

private theorem mild_integerOf (text : String) : Mild (integerOf text) := by
  unfold integerOf
  cases integralText? text.toList with
  | some n => exact raises_pure _
  | none => exact raises_throw rfl

private theorem mild_nextFloat : Mild nextFloat := by
  refine .bind mild_nextNumber fun text => ?_
  cases floatText? (Text.trim text.toList) with
  | some x => exact raises_pure _
  | none => exact raises_throw rfl

namespace NativeKind

private theorem mild_boolOf (text : String) : Mild (boolOf text) :=
  raises_ite (raises_pure _) (raises_ite (raises_pure _) (raises_throw rfl))

private theorem mild_charOf (text : String) : Mild (charOf text) := by
  unfold charOf
  rcases text.toList with _ | ⟨c, _ | ⟨d, s⟩⟩
  · exact raises_throw rfl
  · exact raises_pure _
  · exact raises_throw rfl

private theorem mild_readInt (kind : NativeKind) : Mild kind.readInt :=
  .bind mild_nextNumber fun _ => .bind (mild_integerOf _) fun _ => raises_ite (raises_pure _) (raises_throw rfl)

private theorem mild_readLexeme : Mild readLexeme :=
  .bind mild_nextNumber fun _ => raises_ite (raises_pure _) (raises_throw rfl)

private theorem mild_readBigInt : Mild readBigInt :=
  .bind mild_nextNumber fun _ => raises_ite (raises_pure _) (raises_throw rfl)

private theorem mild_readAddress : Mild readAddress := by
  refine .bind mild_nextString fun text => ?_
  cases Address.ofText? text.toList with
  | some a => exact raises_pure _
  | none => exact raises_throw rfl

private theorem mild_readValue (kind : NativeKind) : Mild kind.readValue := by
  cases kind with
  | bool =>
    exact .bind textual_peek.mild fun _ => raises_ite (.bind mild_nextBool fun _ => raises_pure _)
      (.bind mild_nextString fun _ => .bind (mild_boolOf _) fun _ => raises_pure _)
  | i8 | i16 | i32 | i64 => exact .bind (mild_readInt _) fun _ => raises_pure _
  | f32 | f64 => exact .bind mild_nextFloat fun _ => raises_pure _
  | char => exact .bind mild_nextString fun _ => .bind (mild_charOf _) fun _ => raises_pure _
  | string | path => exact .bind mild_nextString fun _ => raises_pure _
  | bigInt => exact .bind mild_readBigInt fun _ => raises_pure _
  | bigDecimal | number => exact .bind mild_readLexeme fun _ => raises_pure _
  | ipAddr => exact .bind mild_readAddress fun _ => raises_pure _
  | json => exact mild_readAny

theorem mild_read (kind : NativeKind) : Mild kind.read :=
  .bind textual_peek.mild fun _ => raises_ite (.bind mild_nextNull fun _ => raises_pure _) (mild_readValue kind)

private theorem mild_readKey (kind : NativeKind) (name : String) : Mild (kind.readKey name) :=
  .bind (mild_onText _ (mild_read kind)) fun _ => raises_pure _

end NativeKind

/-! ### Codecs and adapters -/

/-- The positions of the bindings that a codec refers to. -/
def Codec.indices : Codec → List Nat
  | .native _ | .dynamic => []
  | .binding index | .attached index _ => [index]
  | .runtimeType declared => declared.indices
  | .sequence element _ => element.indices
  | .objectMap _ value _ => value.indices
  | .pairMap key value _ => key.indices ++ value.indices
  | .split write read => write.indices ++ read.indices

/-- The positions of the bindings that an adapter refers to. -/
def StructAdapter.indices (a : StructAdapter) : List Nat :=
  (a.write.flatMap fun op => match op with
    | .field f => f.codec.indices
    | _ => []) ++ a.read.fields.flatMap (·.codec.indices)

theorem Codec.mild_readWith {call : Nat → ReadM (Option Value)} (c : Codec) (h : ∀ i ∈ c.indices, Mild (call i)) :
    Mild (c.readWith call) := by
  induction c with
  | native kind => exact kind.mild_read
  | binding index => exact h index (List.mem_singleton_self index)
  | dynamic => exact mild_readAny
  | runtimeType declared ih => exact ih h
  | sequence element i ih =>
    refine .bind textual_peek.mild fun kind => ?_
    cases kind with
    | beginArray => exact .bind (mild_readItems (ih h)) fun _ => raises_pure _
    | _ => exact mild_skipMismatched _
  | objectMap key value i ih =>
    refine .bind textual_peek.mild fun kind => ?_
    cases kind with
    | beginObject => exact .bind (mild_readNamed key.mild_readKey (ih h)) fun _ => raises_pure _
    | beginArray => exact .bind (mild_readPairs key.mild_read (ih h)) fun _ => raises_pure _
    | _ => exact mild_skipMismatched _
  | pairMap key value i ihk ihv =>
    have hk := ihk fun i hi => h i (List.mem_append_left _ hi)
    have hv := ihv fun i hi => h i (List.mem_append_right _ hi)
    refine .bind textual_peek.mild fun kind => ?_
    cases kind with
    | beginArray => exact .bind (mild_readPairs hk hv) fun _ => raises_pure _
    | beginObject =>
      exact .bind (mild_readNamed (fun _ => .bind (mild_onText _ hk) fun _ => raises_pure _) hv) fun _ =>
        raises_pure _
    | _ => exact mild_skipMismatched _
  | attached index nullSafe =>
    have hcall := h index (List.mem_singleton_self index)
    cases nullSafe with
    | true => exact .bind textual_peek.mild fun _ => raises_ite (.bind mild_nextNull fun _ => raises_pure _) hcall
    | false => exact hcall
  | split write read _ ih => exact ih fun i hi => h i (List.mem_append_right _ hi)

theorem EnumAdapter.mild_read (a : EnumAdapter) : Mild a.read := by
  refine .bind textual_peek.mild fun kind => ?_
  cases kind with
  | string | number => exact .bind mild_nextString fun _ => raises_pure _
  | _ => exact mild_skipMismatched _

namespace ReadProcedure

variable {p : ReadProcedure} {call : Nat → ReadM (Option Value)}

private theorem mild_readEntry (h : ∀ f ∈ p.fields, ∀ i ∈ f.codec.indices, Mild (call i)) (fields : Fields) :
    Mild (p.readEntry call fields) := by
  refine .bind mild_nextName fun name => ?_
  cases hf : p.field? name with
  | none => exact .bind mild_skipValue fun _ => raises_pure _
  | some f =>
    have hread := f.codec.mild_readWith (h f (List.mem_of_find?_eq_some hf))
    refine .bind textual_peek.mild fun token => raises_ite (.bind mild_nextNull fun _ => raises_pure _)
      (raises_ite (.bind mild_skipValue fun _ => raises_pure _) (.bind hread fun v => ?_))
    cases v with
    | none => exact raises_pure _
    | some v => exact raises_pure _

theorem mild_read (h : ∀ f ∈ p.fields, ∀ i ∈ f.codec.indices, Mild (call i)) (target : TypeRef) :
    Mild (p.read target call) := by
  refine .bind textual_peek.mild fun kind => ?_
  cases kind with
  | beginObject =>
    refine .bind mild_beginObject fun _ => .bind (mild_overEntries (mild_readEntry h) _) fun fields =>
      .bind mild_endObject fun _ => ?_
    cases p.missing? fields with
    | none => exact raises_pure _
    | some name => exact raises_throw rfl
  | _ => exact mild_skipMismatched _

end ReadProcedure

/-! ### Writing tokens -/

namespace Writer

variable {E : Error → Prop} (hE : ∀ e, e.isUnwritable = true → E e)

include hE

private theorem raises_value (text : String) : Raises E (value text) := by
  refine .bind raises_get fun w => ?_
  cases w.separate with
  | ok w => exact raises_set _
  | error fault => exact raises_throw (hE _ rfl)

theorem raises_null : Raises E null := raises_value hE _

theorem raises_bool (b : Bool) : Raises E (bool b) := raises_value hE _

theorem raises_string (s : String) : Raises E (string s) := raises_value hE _

theorem raises_number (lexeme : String) : Raises E (number lexeme) := raises_value hE _

theorem raises_int (n : Int64) : Raises E (int n) := raises_value hE _

theorem raises_float (x : Binary64) : Raises E (float x) := raises_ite (raises_number hE _) (raises_throw (hE _ rfl))

theorem raises_beginObject : Raises E beginObject := .bind (raises_value hE _) fun _ => raises_modify _

theorem raises_beginArray : Raises E beginArray := .bind (raises_value hE _) fun _ => raises_modify _

theorem raises_endObject : Raises E endObject := by
  refine .bind raises_get fun w => ?_
  rcases w.scopes with _ | ⟨_ | ⟨_, _ | _⟩, outer⟩
  all_goals first | exact raises_set _ | exact raises_throw (hE _ rfl)

theorem raises_endArray : Raises E endArray := by
  refine .bind raises_get fun w => ?_
  rcases w.scopes with _ | ⟨_ | _, outer⟩
  all_goals first | exact raises_set _ | exact raises_throw (hE _ rfl)

theorem raises_name (s : String) : Raises E (name s) := by
  refine .bind raises_get fun w => ?_
  rcases w.scopes with _ | ⟨_ | ⟨_, _ | _⟩, outer⟩
  all_goals first | exact raises_set _ | exact raises_throw (hE _ rfl)

end Writer

end Marshal
