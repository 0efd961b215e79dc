import Mathlib.Data.List.Perm.Subperm
import Marshal.Proofs.Number.Digits
import Marshal.Proofs.Plan.Entering

/-!
# Getters

What a row of requests makes of an empty catalog (`bindAll_getters`): one getter for each type, different getters for
different types, and the types that are required in the order in which they were first asked for.  The search for a
name that is not taken comes to an end because there are more candidates than names taken.
-/

namespace Marshal.Catalog

/-! ### Names that are not taken -/

/-- The candidates for a name, in the order in which they are tried: `base`, `base2`, `base3`, … -/
def candidate (base : String) : Nat → String
  | 0 => base
  | n + 1 => base ++ toString (n + 2)

private theorem toList_candidate (base : String) (n : Nat) :
    (candidate base n).toList = base.toList ++ if n = 0 then [] else Nat.toDigits 10 (n + 1) := by
  cases n with
  | zero => simp [candidate]
  | succ n => simp [candidate, toString, Nat.repr]

/-- The digits behind the base tell the candidates apart. -/
private theorem candidate_injective (base : String) : Function.Injective (candidate base) := by
  intro i j h
  have hdigits : (if i = 0 then [] else Nat.toDigits 10 (i + 1)) = if j = 0 then [] else Nat.toDigits 10 (j + 1) := by
    have hlist := congrArg String.toList h
    rwa [toList_candidate, toList_candidate, List.append_cancel_left_eq] at hlist
  have hne (n : Nat) : Nat.toDigits 10 n ≠ [] := List.ne_nil_of_length_pos Nat.length_toDigits_pos
  split_ifs at hdigits with hi hj hj
  · rw [hi, hj]
  · exact absurd hdigits.symm (hne _)
  · exact absurd hdigits (hne _)
  · have hvalue := congrArg digitsValue hdigits
    rw [digitsValue_toDigits, digitsValue_toDigits] at hvalue
    exact Nat.succ.inj hvalue

private theorem candidates_eq (base : String) (n : Nat) :
    base :: (List.range n).map (fun i => base ++ toString (i + 2)) = (List.range (n + 1)).map (candidate base) := by
  rw [List.range_succ_eq_map, List.map_cons, List.map_map]
  rfl

/-- The search ends with the first candidate that is not taken, after at most as many steps as there are names
taken. -/
private theorem freshName_spec (taken : List String) (base : String) :
    ∃ n ≤ taken.length, freshName taken base = candidate base n ∧ candidate base n ∉ taken ∧
      ∀ k < n, candidate base k ∈ taken := by
  unfold freshName
  rw [candidates_eq]
  cases hfind : ((List.range (taken.length + 1)).map (candidate base)).find? fun name => !taken.contains name with
  | none =>
    -- all the candidates were taken, but there are more of them than of the names taken
    have hsubset : (List.range (taken.length + 1)).map (candidate base) ⊆ taken := by
      intro name hname
      simpa using List.find?_eq_none.1 hfind name hname
    have hnodup := List.nodup_range (n := taken.length + 1) |>.map (candidate_injective base)
    have hlength := (hnodup.subperm hsubset).length_le
    rw [List.length_map, List.length_range] at hlength
    exact absurd hlength (Nat.not_succ_le_self _)
  | some name =>
    obtain ⟨hfree, n, hn, hname, hbefore⟩ := List.find?_eq_some_iff_getElem.1 hfind
    rw [List.length_map, List.length_range] at hn
    simp only [List.getElem_map, List.getElem_range] at hname hbefore
    obtain rfl := hname
    refine ⟨n, Nat.le_of_lt_succ hn, ?_, by simpa using hfree, fun k hk => by simpa using hbefore k hk⟩
    dsimp only
    rw [hfind]
    rfl

/-! ### One request -/

/-- The getters, in the order in which they were made. -/
def names (c : Catalog) : List String := c.getters.map (·.2)

variable {c : Catalog} {t u : TypeRef} {x : String}

private theorem bind_of_getter? (h : c.getter? t = some x) : c.bind t = (x, c) := by
  simp only [bind, h]

private theorem bind_of_none (h : c.getter? t = none) :
    c.bind t = (freshName c.names (baseName t), ⟨c.getters ++ [(t, freshName c.names (baseName t))]⟩) := by
  simp only [bind, h, names]

private theorem getter?_bind_self (c : Catalog) (t : TypeRef) : (c.bind t).2.getter? t = some (c.bind t).1 := by
  cases h : c.getter? t with
  | some x => rw [bind_of_getter? h, h]
  | none =>
    have hfind : c.getters.find? (·.1 == t) = none := by simpa [getter?] using h
    rw [bind_of_none h, getter?, List.find?_append, hfind]
    simp

/-- A type keeps its getter whatever else is asked for. -/
private theorem getter?_bind (t : TypeRef) (h : c.getter? u = some x) : (c.bind t).2.getter? u = some x := by
  cases ht : c.getter? t with
  | some y =>
    rw [bind_of_getter? ht]
    exact h
  | none =>
    obtain ⟨p, hfind, rfl⟩ := Option.map_eq_some_iff.1 h
    rw [bind_of_none ht, getter?, List.find?_append, hfind]
    rfl

private theorem mem_of_getter? (h : c.getter? t = some x) : (t, x) ∈ c.getters := by
  obtain ⟨⟨t', x⟩, hfind, rfl⟩ := Option.map_eq_some_iff.1 h
  obtain rfl : t' = t := by simpa using List.find?_some hfind
  exact List.mem_of_find?_eq_some hfind

/-- A type is required from elsewhere exactly if it was to have no converter when it was first asked for. -/
private theorem required_bind (m : Model) (c : Catalog) (t : TypeRef) :
    (c.bind t).2.required m = c.required m ++ if c.willHave m t then [] else [t] := by
  cases h : c.getter? t with
  | some x =>
    rw [bind_of_getter? h]
    simp [willHave, h]
  | none =>
    rw [bind_of_none h]
    by_cases hscanned : isScanned m t = true
    · simp [required, willHave, h, hscanned]
    · simp [required, willHave, h, hscanned]

/-! ### Requests in a row -/

/-- Asks for the getters of types one after the other. -/
def bindAll (c : Catalog) : List TypeRef → List String × Catalog
  | [] => ([], c)
  | t :: ts => ((c.bind t).1 :: ((c.bind t).2.bindAll ts).1, ((c.bind t).2.bindAll ts).2)

/-- A catalog that was asked for types in a row, and for no others. -/
structure Holds (c : Catalog) (asked : List TypeRef) : Prop where
  types_eq : c.types = asked.eraseDups
  nodup_types : c.types.Nodup
  nodup_names : c.names.Nodup

namespace Holds

private theorem start : empty.Holds [] := ⟨rfl, List.nodup_nil, List.nodup_nil⟩

variable {asked : List TypeRef}

private theorem bind (h : c.Holds asked) (t : TypeRef) : (c.bind t).2.Holds (asked ++ [t]) := by
  refine ⟨?_, nodup_types_bind t h.nodup_types, ?_⟩
  · rw [List.eraseDups_append, ← h.types_eq]
    cases ht : c.getter? t with
    | some x =>
      have hmem : t ∈ asked := by
        rw [← List.mem_eraseDups, ← h.types_eq]
        exact mem_types_of_getter? ht
      rw [bind_of_getter? ht]
      simp [List.removeAll, hmem]
    | none =>
      have hnotMem : t ∉ asked := by
        rw [← List.mem_eraseDups, ← h.types_eq]
        exact getter?_eq_none ht
      rw [bind_of_none ht]
      simp [List.removeAll, hnotMem, types, List.eraseDups_cons]
  · cases ht : c.getter? t with
    | some x =>
      rw [bind_of_getter? ht]
      exact h.nodup_names
    | none =>
      obtain ⟨n, -, hname, hfree, -⟩ := freshName_spec c.names (baseName t)
      rw [bind_of_none ht, names, List.map_append, hname]
      exact Model.nodup_append_singleton h.nodup_names hfree

private theorem bindAll (h : c.Holds asked) (ts : List TypeRef) : (c.bindAll ts).2.Holds (asked ++ ts) := by
  induction ts generalizing c asked with
  | nil => rwa [List.append_nil]
  | cons t ts ih =>
    rw [List.append_cons]
    exact ih (h.bind t)

/-- Different types have different getters. -/
private theorem eq_of_getter? (h : c.Holds asked) (ht : c.getter? t = some x) (hu : c.getter? u = some x) : t = u :=
  congrArg Prod.fst (List.inj_on_of_nodup_map h.nodup_names (mem_of_getter? ht) (mem_of_getter? hu) rfl)

end Holds

private theorem getter?_bindAll (h : c.getter? u = some x) (ts : List TypeRef) :
    (c.bindAll ts).2.getter? u = some x := by
  induction ts generalizing c with
  | nil => exact h
  | cons t ts ih => exact ih (getter?_bind t h)

/-- Every answer is the getter that the type has in the end. -/
private theorem getter?_of_mem_bindAll (c : Catalog) (ts : List TypeRef) :
    List.Forall₂ (fun t x => (c.bindAll ts).2.getter? t = some x) ts (c.bindAll ts).1 := by
  induction ts generalizing c with
  | nil => exact .nil
  | cons t ts ih => exact .cons (getter?_bindAll (getter?_bind_self c t) ts) (ih (c.bind t).2)

/-- Every request is answered: a type that has no getter yet gets the first candidate that is not taken, and it is
required unless the model declares it.  In a row of requests equal types have equal getters and different types
different ones, and the types required are those that the model does not declare, each once and in the order in which
they were first asked for. -/
theorem bindAll_getters (m : Model) (ts : List TypeRef) :
    (∀ (c : Catalog) (t : TypeRef), c.getter? t = none → ∃ n ≤ c.names.length,
      (c.bind t).1 = candidate (baseName t) n ∧
      (c.bind t).1 ∉ c.names ∧ ∀ k < n, candidate (baseName t) k ∈ c.names) ∧
    (∀ (c : Catalog) (t : TypeRef), (c.bind t).2.required m = c.required m ++ if willHave m c t then [] else [t]) ∧
    (empty.bindAll ts).1.length = ts.length ∧
    (∀ p ∈ ts.zip (empty.bindAll ts).1, ∀ q ∈ ts.zip (empty.bindAll ts).1, p.1 = q.1 ↔ p.2 = q.2) ∧
    (empty.bindAll ts).2.required m = ts.eraseDups.filter (fun t => !isScanned m t) ∧
    ((empty.bindAll ts).2.required m).Nodup := by
  have hholds : (empty.bindAll ts).2.Holds ts := Holds.start.bindAll ts
  have hgetters := getter?_of_mem_bindAll empty ts
  have hrequired : (empty.bindAll ts).2.required m = ts.eraseDups.filter (fun t => !isScanned m t) := by
    rw [← hholds.types_eq]
    rfl
  refine ⟨fun c t ht => ?_, required_bind m, hgetters.length_eq.symm, fun p hp q hq => ?_, hrequired, ?_⟩
  · obtain ⟨n, hn, hname, hfree, hbefore⟩ := freshName_spec c.names (baseName t)
    rw [bind_of_none ht, hname]
    exact ⟨n, hn, rfl, hfree, hbefore⟩
  · have hp' := (List.forall₂_iff_zip.1 hgetters).2 hp
    have hq' := (List.forall₂_iff_zip.1 hgetters).2 hq
    refine ⟨fun h => ?_, fun h => hholds.eq_of_getter? hp' (h ▸ hq')⟩
    rw [h, hq'] at hp'
    exact (Option.some.inj hp').symm
  · rw [hrequired, ← hholds.types_eq]
    exact hholds.nodup_types.filter _

/-- Two types whose texts have the same words, and the first one again. -/
private def namesakes : List TypeRef := [.named "a::b" [], .named "a_b" [], .named "a::b" []]

/-- A model that declares the second one. -/
private def namesakeModel : Model := ⟨[Declaration.plain "a_b" (.structure [])], [], List.nodup_singleton _⟩

/-- The name that the second type would have is taken when it is asked for. -/
theorem bindAll_getters_namesakes :
    let c := (empty.bind (.named "a::b" [])).2
    let answers := ["get_a_b_adapter", "get_a_b_adapter2", "get_a_b_adapter"]
    (empty.bindAll namesakes).1 = answers ∧
      (c.getter? (.named "a_b" []) = none ∧ ∃ n ≤ c.names.length, (c.bind (.named "a_b" [])).1 =
        candidate (baseName (.named "a_b" [])) n ∧ (c.bind (.named "a_b" [])).1 ∉ c.names ∧
          ∀ k < n, candidate (baseName (.named "a_b" [])) k ∈ c.names) ∧
      (∀ p ∈ namesakes.zip answers, ∀ q ∈ namesakes.zip answers, p.1 = q.1 ↔ p.2 = q.2) ∧
      (empty.bindAll namesakes).2.required namesakeModel = [.named "a::b" []] := by
  intro c answers
  have hanswers : (empty.bindAll namesakes).1 = answers := rfl
  obtain ⟨hsearch, -, -, hdistinct, hrequired, -⟩ := bindAll_getters namesakeModel namesakes
  rw [hanswers] at hdistinct
  exact ⟨hanswers, ⟨rfl, hsearch c _ rfl⟩, hdistinct, hrequired.trans (by decide)⟩

end Marshal.Catalog
