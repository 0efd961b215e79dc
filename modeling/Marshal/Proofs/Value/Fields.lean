import Mathlib.Data.List.Nodup
import Marshal.Value.Basic

/-!
# Fields of an object

How the fields of an object are found and set.  Fields that stand in the order in which their names are declared are
the declared names with what is found under them.
-/

namespace Marshal

namespace Fields

/-- The first field of its name counts. -/
private theorem get?_front (p : String × Value) (fs : Fields) : get? (p :: fs) p.1 = p.2.nonNull? := by
  rw [get?, List.lookup_cons_self, Option.bind_some]

private theorem get?_cons_self (name : String) {v : Value} (hv : v.isNull = false) (fs : Fields) :
    get? ((name, v) :: fs) name = some v := by
  rw [get?_front (name, v)]
  cases v <;> first | rfl | cases hv

private theorem get?_cons_of_ne {name name' : String} (h : name' ≠ name) (v : Value) (fs : Fields) :
    get? ((name, v) :: fs) name' = get? fs name' := by
  rw [get?, get?, List.lookup_cons, beq_false_of_ne h]

private theorem get?_eq_none {fs : Fields} {name : String} (h : name ∉ fs.map (·.1)) : get? fs name = none := by
  have hlookup : List.lookup name fs = none := by
    rw [List.lookup_eq_none_iff]
    intro p hp
    simpa using fun heq => h (List.mem_map.2 ⟨p, hp, heq.symm⟩)
  rw [get?, hlookup]
  rfl

theorem mem_of_get? {fs : Fields} {name : String} {v : Value} (h : get? fs name = some v) : (name, v) ∈ fs := by
  obtain ⟨w, hw, hv⟩ := Option.bind_eq_some_iff.1 h
  obtain ⟨l₁, l₂, rfl, -⟩ := List.lookup_eq_some_iff.1 hw
  have heq : w = v := by
    cases w <;> simp_all [Value.nonNull?]
  rw [heq]
  simp

/-- Null counts as absent. -/
theorem ne_null_of_get? {fs : Fields} {name : String} {v : Value} (h : get? fs name = some v) : v ≠ .null := by
  rintro rfl
  obtain ⟨w, -, hw⟩ := Option.bind_eq_some_iff.1 h
  cases w <;> cases hw

theorem get?_ne_none {fs : Fields} {p : String × Value} (hnull : ∀ q ∈ fs, q.2.isNull = false) (hp : p ∈ fs) :
    get? fs p.1 ≠ none := by
  intro hnone
  cases hlookup : List.lookup p.1 fs with
  | none =>
    have hne : (p.1 != p.1) = true := List.lookup_eq_none_iff.1 hlookup p hp
    rw [bne_self_eq_false] at hne
    cases hne
  | some v =>
    rw [get?, hlookup, Option.bind_some] at hnone
    obtain ⟨l₁, l₂, rfl, -⟩ := List.lookup_eq_some_iff.1 hlookup
    have hv : v.isNull = false := hnull (p.1, v) (by simp)
    cases v with
    | null => cases hv
    | _ => simp [Value.nonNull?] at hnone

/-- A field that was not set before comes last. -/
theorem set_of_notMem {fs : Fields} {name : String} (h : name ∉ fs.map (·.1)) (v : Value) :
    set fs name v = fs ++ [(name, v)] := by
  induction fs with
  | nil => rfl
  | cons p fs ih =>
    obtain ⟨n, w⟩ := p
    rw [List.map_cons, List.mem_cons, not_or] at h
    rw [set, if_neg (Ne.symm h.1), ih h.2]
    rfl

/-! ### Changes -/

theorem get?_set_self (fs : Fields) (name : String) (v : Value) : get? (set fs name v) name = v.nonNull? := by
  induction fs with
  | nil => exact get?_front (name, v) []
  | cons p fs ih =>
    rw [set]
    split
    · next h => exact h ▸ get?_front (p.1, v) fs
    · next h => exact (get?_cons_of_ne (Ne.symm h) _ _).trans ih

theorem get?_set_of_ne {name name' : String} (h : name' ≠ name) (fs : Fields) (v : Value) :
    get? (set fs name v) name' = get? fs name' := by
  induction fs with
  | nil => exact get?_cons_of_ne h v []
  | cons p fs ih =>
    rw [set]
    split
    · next hp => rw [get?_cons_of_ne (hp ▸ h), get?_cons_of_ne (hp ▸ h)]
    · by_cases hn : name' = p.1
      · rw [hn, get?_front, get?_front]
      · rw [get?_cons_of_ne hn, get?_cons_of_ne hn, ih]

/-- Setting a field adds no other name. -/
private theorem map_set (fs : Fields) (name : String) (v : Value) :
    (set fs name v).map (·.1) = if name ∈ fs.map (·.1) then fs.map (·.1) else fs.map (·.1) ++ [name] := by
  induction fs with
  | nil => rfl
  | cons p fs ih =>
    rw [set]
    split
    · next h => simp [h]
    · next h =>
      rw [List.map_cons, List.map_cons, ih]
      by_cases hmem : name ∈ fs.map (·.1)
      · rw [if_pos hmem, if_pos (List.mem_cons_of_mem _ hmem)]
      · rw [if_neg hmem, if_neg (by simpa [Ne.symm h] using hmem), List.cons_append]

theorem mem_of_mem_set {fs : Fields} {name : String} {v : Value} {e : String × Value} (h : e ∈ set fs name v) :
    e = (name, v) ∨ e ∈ fs := by
  induction fs with
  | nil => exact .inl (List.mem_singleton.1 h)
  | cons p fs ih =>
    rw [set] at h
    split at h
    · next hname =>
      rcases List.mem_cons.1 h with heq | h
      · exact .inl (hname ▸ heq)
      · exact .inr (List.mem_cons_of_mem _ h)
    · rcases List.mem_cons.1 h with rfl | h
      · exact .inr (List.mem_cons_self ..)
      · exact (ih h).imp_right (List.mem_cons_of_mem _)

theorem nodup_set {fs : Fields} (h : (fs.map (·.1)).Nodup) (name : String) (v : Value) :
    ((set fs name v).map (·.1)).Nodup := by
  rw [map_set]
  split
  · exact h
  · next hname => exact List.concat_eq_append ▸ List.Nodup.concat hname h

theorem nodup_remove {fs : Fields} (h : (fs.map (·.1)).Nodup) (name : String) : ((remove fs name).map (·.1)).Nodup :=
  (List.eraseP_sublist.map _).nodup h

theorem get?_remove_self {fs : Fields} (h : (fs.map (·.1)).Nodup) (name : String) :
    get? (remove fs name) name = none := by
  induction fs with
  | nil => rfl
  | cons p fs ih =>
    obtain ⟨hp, hfs⟩ := List.nodup_cons.1 h
    by_cases hname : p.1 = name
    · rw [remove, List.eraseP_cons_of_pos (by simpa using hname)]
      exact get?_eq_none (hname ▸ hp)
    · rw [remove, List.eraseP_cons_of_neg (by simpa using hname)]
      exact (get?_cons_of_ne (Ne.symm hname) _ _).trans (ih hfs)

theorem get?_remove_of_ne {name name' : String} (h : name' ≠ name) (fs : Fields) :
    get? (remove fs name) name' = get? fs name' := by
  induction fs with
  | nil => rfl
  | cons p fs ih =>
    by_cases hname : p.1 = name
    · rw [remove, List.eraseP_cons_of_pos (by simpa using hname), get?_cons_of_ne (hname ▸ h)]
    · rw [remove, List.eraseP_cons_of_neg (by simpa using hname)]
      by_cases hn : name' = p.1
      · rw [hn, get?_front, get?_front]
      · rw [get?_cons_of_ne hn, get?_cons_of_ne hn]
        exact ih

/-! ### Orders -/

/-- Fields that stand in the order of their names are found by their names. -/
theorem eq_filterMap {names : List String} (hnodup : names.Nodup) {fs : Fields} (hsub : (fs.map (·.1)).Sublist names)
    (hnull : ∀ p ∈ fs, p.2.isNull = false) : names.filterMap (fun n => (get? fs n).map (n, ·)) = fs := by
  induction names generalizing fs with
  | nil =>
    have hnil : fs = [] := by simpa using hsub
    rw [hnil]
    rfl
  | cons n names ih =>
    obtain ⟨hn, hnames⟩ := List.nodup_cons.1 hnodup
    rcases List.sublist_cons_iff.1 hsub with hrest | ⟨rest, hfs, hrest⟩
    · have hmem : n ∉ fs.map (·.1) := fun h => hn (hrest.subset h)
      rw [List.filterMap_cons, get?_eq_none hmem, Option.map_none, ih hnames hrest hnull]
    · obtain ⟨p, fs, rfl, rfl, rfl⟩ := List.map_eq_cons_iff.1 hfs
      have hothers : names.filterMap (fun n => (get? (p :: fs) n).map (n, ·)) =
          names.filterMap (fun n => (get? fs n).map (n, ·)) := by
        refine List.filterMap_congr fun n hmem => ?_
        have hne : n ≠ p.1 := by
          rintro rfl
          exact hn hmem
        rw [get?_cons_of_ne hne]
      rw [List.filterMap_cons, get?_cons_self p.1 (hnull p (List.mem_cons_self ..)), Option.map_some, hothers,
        ih hnames hrest fun q hq => hnull q (List.mem_cons_of_mem _ hq)]

end Fields

end Marshal
