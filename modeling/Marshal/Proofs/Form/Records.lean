import Marshal.Form.Basic
import Marshal.Proofs.Outcome
import Marshal.Proofs.TypeRef.Text

/-!
# Decoding what was encoded

When the decoders for leaves, lists, records and alternatives succeed, and that each gives back what its encoder was
given.  The statements about records are equivalences, so that they also say what a decoded record must have held.
-/

namespace Marshal

/-! ### Records -/

namespace RecordDecoder

variable {α β : Type} {find : String → Option Form}

@[simp] theorem seq_eq_ok {d : RecordDecoder (α → β)} {e : RecordDecoder α} {b : β} :
    (d <*> e).decode find = .ok b ↔ ∃ f, d.decode find = .ok f ∧ ∃ a, e.decode find = .ok a ∧ f a = b := by
  show (d.seq e).decode find = .ok b ↔ _
  unfold RecordDecoder.seq
  cases hd : d.decode find <;> cases he : e.decode find <;> simp [hd, he]

@[simp] theorem map_eq_ok {g : α → β} {d : RecordDecoder α} {b : β} :
    (g <$> d).decode find = .ok b ↔ ∃ a, d.decode find = .ok a ∧ g a = b := by
  show (RecordDecoder.seq ⟨[], fun _ => .ok g⟩ d).decode find = .ok b ↔ _
  unfold RecordDecoder.seq
  cases hd : d.decode find <;> simp [hd]

@[simp] theorem needs_eq_ok {name : String} {decode : Form.Decoder α} {a : α} :
    (needs name decode).decode find = .ok a ↔ ∃ f, find name = some f ∧ decode f = .ok a := by
  unfold needs
  cases h : find name <;> simp [h, Outcome.mapError_eq_ok]

@[simp] private theorem mayHave_eq_ok {name : String} {decode : Form.Decoder α} {standard a : α} :
    (mayHave name decode standard).decode find = .ok a ↔
      (∃ f, find name = some f ∧ decode f = .ok a) ∨ find name = none ∧ standard = a := by
  unfold mayHave
  cases h : find name <;> simp [h, Outcome.mapError_eq_ok]

end RecordDecoder

namespace Form

variable {α β : Type}

@[simp] private theorem asNamed_eq_ok {d : RecordDecoder α} {entries : List (String × Form)} {a : α} :
    asNamed d (.record entries) = .ok a ↔ d.decode (fun name => entries.lookup name) = .ok a :=
  Outcome.mapError_eq_ok

@[simp] private theorem asRecord_eq_ok {d : RecordDecoder α} {entries : List (String × Form)} {a : α} :
    asRecord d (.record entries) = .ok a ↔ d.decode (fun name => entries.lookup name) = .ok a :=
  Outcome.mapError_eq_ok

/-- What was decoded from a record, or from the list of its entries, was decoded from entries by name. -/
theorem asRecord_ok {d : RecordDecoder α} {f : Form} {a : α} (h : asRecord d f = .ok a) :
    ∃ find, d.decode find = .ok a ∧ ∀ entries, f = .record entries → find = fun name => entries.lookup name := by
  cases f with
  | list items =>
    obtain ⟨b, hb, h⟩ := Outcome.bind_eq_ok.1 h
    split at h
    · obtain rfl := Except.ok.inj h
      exact ⟨_, Outcome.mapError_eq_ok.1 hb, nofun⟩
    · cases h
  | record entries => exact ⟨_, asRecord_eq_ok.1 h, fun _ he => by obtain rfl := Form.record.inj he; rfl⟩
  | _ => cases h

/-! ### Leaves and lists -/

@[simp] theorem asText_text (s : String) : asText (.text s) = .ok s := rfl

@[simp] theorem asFlag_flag (b : Bool) : asFlag (.flag b) = .ok b := rfl

@[simp] theorem asNat_nat (n : Nat) : asNat (.nat n) = .ok n := rfl

@[simp] private theorem asOption_text {decode : Decoder α} {s : String} {a : Option α} :
    asOption decode (.text s) = .ok a ↔ ∃ b, decode (.text s) = .ok b ∧ some b = a :=
  Outcome.map_eq_ok

@[simp] private theorem asOption_record {decode : Decoder α} {entries : List (String × Form)} {a : Option α} :
    asOption decode (.record entries) = .ok a ↔ ∃ b, decode (.record entries) = .ok b ∧ some b = a :=
  Outcome.map_eq_ok

theorem asType_ofType {t : TypeRef} (h : t.WellFormed) : asType (ofType t) = .ok t := by
  simp only [ofType, asType, TypeRef.parse_marked h]
  rfl

theorem asType_ok {f : Form} {t : TypeRef} (h : asType f = .ok t) : t.WellFormed := by
  cases f with
  | text s => exact TypeRef.wellFormed_of_parse (Outcome.mapError_eq_ok.1 h)
  | _ => cases h

/-- A stored reference whose variables are paths is refused unless they are single identifiers. -/
theorem wellFormed_of_ofType {t u : TypeRef} (ht : t.Named TypeRef.IsPath) (h : asType (ofType t) = .ok u) :
    t.WellFormed :=
  TypeRef.wellFormed_of_parse_marked ht (Outcome.mapError_eq_ok.1 h)

private theorem mapM_map {decode : Decoder α} {encode : α → Form} {as : List α}
    (h : ∀ a ∈ as, decode (encode a) = .ok a) : (as.map encode).mapM decode = .ok as := by
  induction as with
  | nil => rfl
  | cons a as ih =>
    have hrest := ih fun b hb => h b (List.mem_cons_of_mem _ hb)
    simp only [List.map_cons, List.mapM_cons, h a (by simp), hrest]
    rfl

theorem asList_map {decode : Decoder α} {encode : α → Form} {as : List α}
    (h : ∀ a ∈ as, decode (encode a) = .ok a) : asList decode (.list (as.map encode)) = .ok as :=
  mapM_map h

theorem mapM_ok {decode : Decoder α} {items : List Form} {as : List α} (h : items.mapM decode = .ok as) :
    (∀ a ∈ as, ∃ f, decode f = .ok a) ∧ ∀ f ∈ items, ∃ a, decode f = .ok a := by
  induction items generalizing as with
  | nil =>
    obtain rfl := Except.ok.inj h
    simp
  | cons f items ih =>
    rw [List.mapM_cons] at h
    obtain ⟨a, ha, h⟩ := Outcome.bind_eq_ok.1 h
    obtain ⟨as', has, h⟩ := Outcome.bind_eq_ok.1 h
    obtain rfl := Except.ok.inj h
    exact ⟨List.forall_mem_cons.2 ⟨⟨f, ha⟩, (ih has).1⟩, List.forall_mem_cons.2 ⟨⟨a, ha⟩, (ih has).2⟩⟩

theorem asList_ok {decode : Decoder α} {f : Form} {as : List α} (h : asList decode f = .ok as) :
    ∀ a ∈ as, ∃ g, decode g = .ok a := by
  cases f with
  | list items => exact (mapM_ok h).1
  | _ => cases h

/-! ### Alternatives -/

@[simp] theorem asVariant_text (tag : String) : asVariant (.text tag) = .ok (tag, none) := rfl

@[simp] theorem asVariant_variant (tag : String) (body : Form) :
    asVariant (variant tag body) = .ok (tag, some body) := rfl

@[simp] theorem asLabel_text {find? : String → Option α} {tag : String} {a : α} :
    asLabel find? (.text tag) = .ok a ↔ find? tag = some a := by
  simp only [asLabel, asVariant_text, bind, Except.bind]
  cases h : find? tag <;> simp [isBare]

end Form

end Marshal
