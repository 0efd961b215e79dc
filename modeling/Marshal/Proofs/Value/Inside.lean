import Marshal.Value.Basic

/-!
# Values and their parts

Which values are present, and the parts of a value at any depth: the elements of lists, the keys and the values of
maps, and the fields of objects.
-/

namespace Marshal.Value

theorem present?_eq_some {v : Value} {v? : Option Value} (h : present? v? = some v) : v? = some v := by
  obtain ⟨w, rfl, hw⟩ := Option.bind_eq_some_iff.1 h
  cases w with
  | null => cases hw
  | _ => exact hw

theorem present?_present? (v : Option Value) : present? (present? v) = present? v := by
  cases v with
  | none => rfl
  | some v => cases v <;> rfl

theorem present?_of_ne {v : Value} (h : v ≠ .null) : present? (some v) = some v := by
  cases v with
  | null => exact absurd rfl h
  | _ => rfl

/-- In a container null stands for a value that is read as absent, and nothing else does. -/
theorem eq_some_of_orNull {v : Value} {v? : Option Value} (h : v = orNull v?) (hv : v ≠ .null) : v? = some v := by
  cases v? with
  | none => exact absurd h hv
  | some w => exact congrArg some h.symm

/-! ### Parts -/

/-- A value is another one or stands inside it, at any depth. -/
inductive Inside (u : Value) : Value → Prop
  | self : Inside u u
  | item {v : Value} {items : List Value} (hv : v ∈ items) (h : Inside u v) : Inside u (.list items)
  | key {e : Value × Value} {entries : List (Value × Value)} (he : e ∈ entries) (h : Inside u e.1) : Inside u
      (.map entries)
  | value {e : Value × Value} {entries : List (Value × Value)} (he : e ∈ entries) (h : Inside u e.2) : Inside u
      (.map entries)
  | field {e : String × Value} {ty : TypeRef} {fields : Fields} (he : e ∈ fields) (h : Inside u e.2) :
    Inside u (.object ty fields)

theorem Inside.trans {u v w : Value} (huv : u.Inside v) (hvw : v.Inside w) : u.Inside w := by
  induction hvw with
  | self => exact huv
  | item hv _ ih => exact .item hv ih
  | key he _ ih => exact .key he ih
  | value he _ ih => exact .value he ih
  | field he _ ih => exact .field he ih

theorem Inside.ne_null {ty : TypeRef} {fields : Fields} {v : Value} (h : (object ty fields).Inside v) :
    v ≠ .null := by
  rintro rfl
  cases h

/-! The parts of a value are smaller than it. -/

theorem sizeOf_lt_list {v : Value} {items : List Value} (hv : v ∈ items) : sizeOf v < sizeOf (list items) := by
  have hlt := List.sizeOf_lt_of_mem hv
  rw [list.sizeOf_spec]
  omega

theorem sizeOf_lt_map {e : Value × Value} {entries : List (Value × Value)} (he : e ∈ entries) :
    sizeOf e.1 < sizeOf (map entries) ∧ sizeOf e.2 < sizeOf (map entries) := by
  have hlt := List.sizeOf_lt_of_mem he
  obtain ⟨k, v⟩ := e
  rw [Prod.mk.sizeOf_spec] at hlt
  rw [map.sizeOf_spec]
  dsimp only
  omega

theorem sizeOf_lt_object {e : String × Value} {ty : TypeRef} {fields : Fields} (he : e ∈ fields) :
    sizeOf e.2 < sizeOf (object ty fields) := by
  have hlt : sizeOf e < sizeOf fields := List.sizeOf_lt_of_mem he
  obtain ⟨name, v⟩ := e
  rw [Prod.mk.sizeOf_spec] at hlt
  rw [object.sizeOf_spec]
  dsimp only
  omega

theorem Inside.sizeOf_le {u v : Value} (h : u.Inside v) : sizeOf u ≤ sizeOf v := by
  induction h with
  | self => exact Nat.le_refl _
  | item hv _ ih => exact Nat.le_trans ih (Nat.le_of_lt (sizeOf_lt_list hv))
  | key he _ ih => exact Nat.le_trans ih (Nat.le_of_lt (sizeOf_lt_map he).1)
  | value he _ ih => exact Nat.le_trans ih (Nat.le_of_lt (sizeOf_lt_map he).2)
  | field he _ ih => exact Nat.le_trans ih (Nat.le_of_lt (sizeOf_lt_object he))

theorem Inside.eq_or_lt {u v : Value} (h : u.Inside v) : u = v ∨ sizeOf u < sizeOf v := by
  cases h with
  | self => exact .inl rfl
  | item hv h => exact .inr (Nat.lt_of_le_of_lt h.sizeOf_le (sizeOf_lt_list hv))
  | key he h => exact .inr (Nat.lt_of_le_of_lt h.sizeOf_le (sizeOf_lt_map he).1)
  | value he h => exact .inr (Nat.lt_of_le_of_lt h.sizeOf_le (sizeOf_lt_map he).2)
  | field he h => exact .inr (Nat.lt_of_le_of_lt h.sizeOf_le (sizeOf_lt_object he))

/-- Every path in the value is the bytes of a text. -/
def PathsAreText (v : Value) : Prop := ∀ p, (path p).Inside v → p.IsText

theorem PathsAreText.of_inside {u v : Value} (h : v.PathsAreText) (hu : u.Inside v) : u.PathsAreText :=
  fun p hp => h p (hp.trans hu)

/-- No object stands inside the value. -/
def Flat (v : Value) : Prop := ∀ ty fields, ¬(object ty fields).Inside v

theorem Flat.of_inside {u v : Value} (h : v.Flat) (hu : u.Inside v) : u.Flat :=
  fun ty fields hin => h ty fields (hin.trans hu)

/-- Whether a value has no parts. -/
def isLeaf : Value → Bool
  | list _ | map _ | object .. => false
  | _ => true

theorem flat_of_isLeaf {v : Value} (h : v.isLeaf = true) : v.Flat := by
  intro ty fields hin
  cases hin with
  | _ => cases h

theorem flat_list {items : List Value} (h : ∀ v ∈ items, v.Flat) : (list items).Flat := by
  intro ty fields hin
  cases hin with
  | item hv hin => exact h _ hv ty fields hin

theorem flat_map {entries : List (Value × Value)} (hkeys : ∀ e ∈ entries, e.1.Flat)
    (hvalues : ∀ e ∈ entries, e.2.Flat) : (map entries).Flat := by
  intro ty fields hin
  cases hin with
  | key he hin => exact hkeys _ he ty fields hin
  | value he hin => exact hvalues _ he ty fields hin

theorem flat_orNull {v : Option Value} (h : ∀ u, v = some u → u.Flat) : (orNull v).Flat := by
  cases v with
  | none => exact nofun
  | some u => exact h u rfl

end Marshal.Value
