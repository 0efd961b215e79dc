import Marshal.Proofs.Adapter.Decoding
import Marshal.Proofs.Registry.Typed
import Marshal.Proofs.Stream.Compact

/-!
# What enumerations read and write

A name on the wire belongs to one constant, but a constant may have several names, of which the last one is written.
What is written is always the name of an entry, so it reads back into the constant; a document that is no such name
reads as absent.
-/

namespace Marshal

open Effect Reader

/-! ### Reading -/

private theorem Document.text?_eq_some_iff {j : Document} {s : String} :
    j.text? = some s ↔ j = .string s ∨ j = .number s := by
  cases j <;> simp [Document.text?]

private theorem Document.depth_of_text? {j : Document} {s : String} (h : j.text? = some s) : j.depth = 0 := by
  cases j with
  | string | number => rfl
  | null | bool | array | object => cases h

private theorem EnumAdapter.ofDocument?_eq_some_iff {a : EnumAdapter} {j : Document} {v : Value} :
    a.ofDocument? j = some v ↔
    ∃ name constant, j.text? = some name ∧ a.constant? name = some constant ∧ v = .enum a.target constant := by
  simp only [ofDocument?, Option.bind_eq_some_iff, Option.map_eq_some_iff]
  grind

namespace Converter

variable {a : EnumAdapter} (reg : Registry) (id fuel : Nat) (ds : Delegates)

/-- A document that does not nest too deep is read as the constant that it names, if there is one. -/
private theorem fromJson_enum {dialect : Dialect} {j : Document} {text : String}
    (h : dialect.SpellsDocument j text.toList) (hdepth : j.depth ≤ maxDepth) :
    (enum id a).fromJson ds (fuel + 1) text = .ok (a.ofDocument? j) := by
  -- an enumeration hands nothing on, so delegates are of no account
  have hsame : (enum id a).fromJson ds (fuel + 1) text = (enum id a).fromJson [] (fuel + 1) text := rfl
  rw [hsame]
  exact (fromJson_eq_ok (List.forall_mem_nil _) (.enum id a) h).2 ⟨hdepth, rfl⟩

/-! ### Writing -/

private theorem toJson_enum_of_none {constant : String} (h : a.serializedName? constant = none) (t : Store) :
    (enum id a).toJson reg (fuel + 1) (some (.enum a.target constant)) t =
      .error (.invalidValue "enum constant" constant) t := by
  have hwrite : (enum id a).write reg (fuel + 1) (some (.enum a.target constant)) ⟨.empty, t⟩ =
      .error (.invalidValue "enum constant" constant) ⟨.empty, t⟩ := by
    simp only [write, EnumAdapter.write, Value.present?, Value.nonNull?, Option.bind_some, bne_self_eq_false,
      Bool.false_eq_true, if_false, h]
    rfl
  simp only [toJson, hwrite]

/-- A constant that has a name is written, and what is written reads back into it. -/
private theorem roundTrip_enum (hnodup : (a.entries.map (·.serializedName)).Nodup) {constant name : String}
    (h : a.serializedName? constant = some name) (t : Store) :
    ∃ text, (enum id a).toJson reg (fuel + 1) (some (.enum a.target constant)) t = .ok text t ∧
      (enum id a).fromJson ds (fuel + 1) text = .ok (some (.enum a.target constant)) := by
  refine ⟨_, toJson_enum reg fuel id h t, ?_⟩
  have hspells := Json.spellsDocument_text (.string name.toList)
  have hread : a.ofDocument? (Json.document (.string name.toList)) = some (.enum a.target constant) := by
    rw [Json.document, String.ofList_toList, EnumAdapter.ofDocument?_eq_some_iff]
    exact ⟨name, constant, rfl, EnumAdapter.constant?_of_serializedName? hnodup h, rfl⟩
  rw [String.empty_append]
  exact (fromJson_enum id fuel ds hspells (Nat.zero_le _)).trans (congrArg Except.ok hread)

end Converter

/-! ### Enumerations without parameters -/

namespace Declaration

variable {d : Declaration} {a : EnumAdapter}

/-- Whatever can be skipped is read: as a constant exactly if it is a text or a number spelled like the name of that
constant on the wire, and as absent otherwise.  Each declared constant is written and reads back; other constants, and
constants of other types, are refused. -/
theorem enumAdapter_exact (hparams : d.params = []) (ha : d.enumAdapter = .ok a) (reg : Registry) (ds : Delegates)
    (id fuel : Nat) :
    (∀ text, (∃ r r', skipValue (ofText text.toList) = .ok ⟨⟩ r ∧ peek r = .ok .endDocument r') →
      ∃ v, (Converter.enum id a).fromJson ds (fuel + 1) text = .ok v ∧
        (v = none ∨ ∃ k, v = some (.enum (.named d.path []) k)) ∧
        ∀ k, v = some (.enum (.named d.path []) k) ↔ ∃ j s, Dialect.loose.SpellsDocument j text.toList ∧
          (j = .string s ∨ j = .number s) ∧ ∃ c ∈ d.constants, c.serializedName = s ∧ c.name = k) ∧
      (∀ c ∈ d.constants, ∀ t, ∃ text,
        (Converter.enum id a).toJson reg (fuel + 1) (some (.enum (.named d.path []) c.name)) t = .ok text t ∧
        (Converter.enum id a).fromJson ds (fuel + 1) text = .ok (some (.enum (.named d.path []) c.name))) ∧
      (∀ k t, (∀ c ∈ d.constants, c.name ≠ k) →
        (Converter.enum id a).toJson reg (fuel + 1) (some (.enum (.named d.path []) k)) t =
          .error (.invalidValue "enum constant" k) t) ∧
      ∀ ty k t, ty ≠ .named d.path [] → (Converter.enum id a).toJson reg (fuel + 1) (some (.enum ty k)) t =
        .error (.valueMismatch "matching enum" "enum of another type") t := by
  have htarget : a.target = .named d.path [] := by
    obtain ⟨-, rfl⟩ := enumAdapter_ok ha
    simp [selfType, hparams]
  have hnodup := nodup_entries ha
  rw [← htarget]
  refine ⟨fun text hskip => ?_, fun c hc t => ?_, fun k t hk => ?_, fun ty k t hne => ?_⟩
  · obtain ⟨j, hdepth, hj⟩ := (skipped_iff text.toList).1 hskip
    have hread := Converter.fromJson_enum (a := a) id fuel ds hj hdepth
    refine ⟨_, hread, ?_, fun k => ⟨fun hv => ?_, ?_⟩⟩
    · cases hv : a.ofDocument? j with
      | none => exact .inl rfl
      | some v =>
        obtain ⟨s, k, -, -, rfl⟩ := EnumAdapter.ofDocument?_eq_some_iff.1 hv
        exact .inr ⟨k, rfl⟩
    · obtain ⟨s, k', hs, hk, he⟩ := EnumAdapter.ofDocument?_eq_some_iff.1 hv
      obtain ⟨-, rfl⟩ := Value.enum.inj he
      exact ⟨j, s, hj, Document.text?_eq_some_iff.1 hs, (mem_entries ha).1
        ((EnumAdapter.constant?_eq_some_iff hnodup).1 hk)⟩
    · -- any spelling of the text is read alike
      rintro ⟨j', s, hj', hs, hmem⟩
      have hs := Document.text?_eq_some_iff.2 hs
      have hread' := Converter.fromJson_enum (a := a) id fuel ds hj' (by simp [Document.depth_of_text? hs])
      rw [Except.ok.inj (hread.symm.trans hread'), EnumAdapter.ofDocument?_eq_some_iff]
      exact ⟨s, k, hs, (EnumAdapter.constant?_eq_some_iff hnodup).2 ((mem_entries ha).2 hmem), rfl⟩
  · obtain ⟨name, hname⟩ := EnumAdapter.exists_serializedName? (map_constant_entries ha ▸ List.mem_map_of_mem hc)
    exact Converter.roundTrip_enum reg id fuel ds hnodup hname t
  · refine Converter.toJson_enum_of_none reg id fuel (EnumAdapter.serializedName?_eq_none_iff.2 fun hmem => ?_) t
    rw [map_constant_entries ha] at hmem
    obtain ⟨c, hc, hname⟩ := List.mem_map.1 hmem
    exact hk c hc hname
  · exact Converter.toJson_enum_of_ne reg fuel id hne k t

end Declaration

/-- An enumeration that declares one constant twice, the first time with a number for a name. -/
def gradeDeclaration : Declaration :=
  ⟨"demo::Grade", [], .enumeration [⟨"Good", some "1"⟩, ⟨"Bad", none⟩, ⟨"Good", some "good"⟩], List.nodup_nil⟩

/-- Both names of a constant are read, also where the name is that of a number, and nothing else is; what the constant
is written as reads back. -/
theorem enumAdapter_exact_grade : ∃ a, gradeDeclaration.enumAdapter = .ok a ∧ gradeDeclaration.params = [] ∧
    (Converter.enum 0 a).fromJson [] 1 "1" = .ok (some (.enum (.named "demo::Grade" []) "Good")) ∧
    (Converter.enum 0 a).fromJson [] 1 "[1]" = .ok none ∧
    (∃ text, (Converter.enum 0 a).toJson (.ofModules [] []) 1 (some (.enum (.named "demo::Grade" []) "Good")) .empty =
        .ok text .empty ∧
      (Converter.enum 0 a).fromJson [] 1 text = .ok (some (.enum (.named "demo::Grade" []) "Good"))) ∧
    (Converter.enum 0 a).toJson (.ofModules [] []) 1 (some (.enum (.named "demo::Grade" []) "Fair")) .empty =
      .error (.invalidValue "enum constant" "Fair") .empty ∧
    (Converter.enum 0 a).toJson (.ofModules [] []) 1 (some (.enum (.named "demo::Colour" []) "Good")) .empty =
      .error (.valueMismatch "matching enum" "enum of another type") .empty := by
  obtain ⟨a, ha⟩ : ∃ a, gradeDeclaration.enumAdapter = .ok a := ⟨_, rfl⟩
  obtain ⟨hread, hwrite, hundeclared, hother⟩ := Declaration.enumAdapter_exact rfl ha (.ofModules [] []) [] 0 0
  have hwhole : IsWhole ['1'] := .digits rfl (by decide)
  have hone : IsNumber ['1'] := .plain (.mk hwhole .none .none)
  refine ⟨a, ha, rfl, ?_, ?_, ?_, ?_, ?_⟩
  · obtain ⟨v, hv, -, hk⟩ := hread "1" ⟨_, _, rfl, rfl⟩
    have hspells : Dialect.loose.SpellsDocument (.number "1") "1".toList :=
      (Json.spellsDocument_text (.number ['1'] hone)).loose
    have hgood : v = some (.enum (.named "demo::Grade" []) "Good") :=
      (hk "Good").2 ⟨_, "1", hspells, .inr rfl, ⟨"Good", some "1"⟩, List.mem_cons_self .., rfl, rfl⟩
    exact hgood ▸ hv
  · have hspells : Dialect.standard.SpellsDocument (.array [.number "1"]) "[1]".toList :=
      Json.spellsDocument_text (.array [.number ['1'] hone])
    exact Converter.fromJson_enum 0 0 [] hspells (by decide)
  · exact hwrite ⟨"Good", some "1"⟩ (List.mem_cons_self ..) .empty
  · exact hundeclared "Fair" .empty (by decide)
  · exact hother (.named "demo::Colour" []) "Good" .empty (by decide)

end Marshal
