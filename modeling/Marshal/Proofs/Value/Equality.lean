import Mathlib.Data.List.Basic
import Marshal.Proofs.Value.Inside
import Marshal.Value.Equality

/-!
# Values that equal only themselves

Zeros of both signs are equal, and so are paths that lead the same way.  A value without floats and paths equals
itself and no other value (`Value.Exact`).
-/

namespace Marshal.Value

/-- The value equals itself, and no other value. -/
def Exact (v : Value) : Prop := ∀ w, (v == w) = true ↔ v = w

/-- A value without parts that is neither a float nor a path. -/
theorem exact_of_isLeaf {v : Value} (hleaf : v.isLeaf = true) (hfloat : ∀ x, v ≠ .float x)
    (hpath : ∀ p, v ≠ .path p) : v.Exact := by
  intro w
  cases v with
  | float x => exact absurd rfl (hfloat x)
  | path p => exact absurd rfl (hpath p)
  | list | map | object => cases hleaf
  | _ => cases w <;> simp [BEq.beq, same, isNull]

private theorem sameItems_iff : ∀ {vs : List Value}, (∀ v ∈ vs, v.Exact) → ∀ ws, sameItems vs ws = true ↔ vs = ws
  | [], _, [] => by simp [sameItems]
  | [], _, _ :: _ => by simp [sameItems]
  | _ :: _, _, [] => by simp [sameItems]
  | v :: vs, h, w :: ws => by
    obtain ⟨hv, hvs⟩ := List.forall_mem_cons.1 h
    have hhead : v.same w = true ↔ v = w := hv w
    rw [sameItems, Bool.and_eq_true, hhead, sameItems_iff hvs, List.cons.injEq]

theorem exact_list {vs : List Value} (h : ∀ v ∈ vs, v.Exact) : (list vs).Exact := by
  intro w
  cases w with
  | list ws => exact (sameItems_iff h ws).trans (list.injEq vs ws).symm.to_iff
  | _ => simp [BEq.beq, same]

private theorem sameEntries_iff : ∀ {es : List (Value × Value)}, (∀ e ∈ es, e.1.Exact ∧ e.2.Exact) →
    ∀ fs, sameEntries es fs = true ↔ es = fs
  | [], _, [] => by simp [sameEntries]
  | [], _, _ :: _ => by simp [sameEntries]
  | _ :: _, _, [] => by simp [sameEntries]
  | (k, v) :: es, h, (k', v') :: fs => by
    obtain ⟨⟨hk, hv⟩, hes⟩ := List.forall_mem_cons.1 h
    have hkey : k.same k' = true ↔ k = k' := hk k'
    have hvalue : v.same v' = true ↔ v = v' := hv v'
    rw [sameEntries, Bool.and_eq_true, Bool.and_eq_true, hkey, hvalue, sameEntries_iff hes, List.cons.injEq,
      Prod.mk.injEq]

theorem exact_map {es : List (Value × Value)} (h : ∀ e ∈ es, e.1.Exact ∧ e.2.Exact) : (map es).Exact := by
  intro w
  cases w with
  | map fs => exact (sameEntries_iff h fs).trans (map.injEq es fs).symm.to_iff
  | _ => simp [BEq.beq, same]

end Marshal.Value
