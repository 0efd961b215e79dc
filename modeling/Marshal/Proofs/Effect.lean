/-!
# Runs of computations with faults and state

What a run of a composed computation says about the runs of its parts.  A run is the application of a computation to a
state.
-/

namespace Marshal.Effect

variable {ε σ α β : Type} {m : EStateM ε σ α} {f : α → EStateM ε σ β} {a : α} {b : β} {e : ε} {s s₁ s' : σ}

theorem bind_of_ok (h : m s = .ok a s₁) : (m >>= f) s = f a s₁ := by
  simp only [bind, EStateM.bind, h]

theorem bind_of_error (h : m s = .error e s₁) : (m >>= f) s = .error e s₁ := by
  simp only [bind, EStateM.bind, h]

theorem bind_congr_run {m' : EStateM ε σ α} (h : m s = m' s₁) : (m >>= f) s = (m' >>= f) s₁ := by
  simp only [bind, EStateM.bind, h]

/-- A composed computation succeeds exactly if both parts do, one after the other. -/
theorem bind_eq_ok : (m >>= f) s = .ok b s' ↔ ∃ a s₁, m s = .ok a s₁ ∧ f a s₁ = .ok b s' := by
  cases h : m s with
  | ok a s₁ => simp [bind_of_ok h, and_assoc]
  | error e s₁ => simp [bind_of_error h]

/-- A composed computation fails in its first part, or in its second part after the first one succeeded. -/
theorem bind_eq_error :
    (m >>= f) s = .error e s' ↔ m s = .error e s' ∨ ∃ a s₁, m s = .ok a s₁ ∧ f a s₁ = .error e s' := by
  cases h : m s with
  | ok a s₁ => simp [bind_of_ok h, and_assoc]
  | error e s₁ => simp [bind_of_error h]

theorem pure_apply (a : α) (s : σ) : (pure a : EStateM ε σ α) s = .ok a s := rfl

theorem get_apply (s : σ) : (get : EStateM ε σ σ) s = .ok s s := rfl

theorem set_apply (s' s : σ) : (set s' : EStateM ε σ PUnit) s = .ok ⟨⟩ s' := rfl

theorem modify_apply (g : σ → σ) (s : σ) : (modify g : EStateM ε σ PUnit) s = .ok ⟨⟩ (g s) := rfl

theorem throw_apply (e : ε) (s : σ) : (throw e : EStateM ε σ α) s = .error e s := rfl

theorem ok_inj {a a' : α} : (EStateM.Result.ok a s : EStateM.Result ε σ α) = .ok a' s' ↔ a = a' ∧ s = s' := by
  simp

/-- Whether a run succeeds, with a result and a state as said. -/
def succeeds (p : α → σ → Bool) : EStateM.Result ε σ α → Bool
  | .ok a s => p a s
  | .error _ _ => false

/-- Whether a run fails, with a fault and a state as said. -/
def fails (p : ε → σ → Bool) : EStateM.Result ε σ α → Bool
  | .ok _ _ => false
  | .error e s => p e s

theorem succeeds_iff {p : α → σ → Bool} {x : EStateM.Result ε σ α} :
    succeeds p x = true ↔ ∃ a s, x = .ok a s ∧ p a s = true := by
  cases x <;> simp [succeeds, and_assoc]

theorem fails_iff {p : ε → σ → Bool} {x : EStateM.Result ε σ α} :
    fails p x = true ↔ ∃ e s, x = .error e s ∧ p e s = true := by
  cases x <;> simp [fails, and_assoc]

/-- A run over a list goes on behind the part that is done. -/
theorem forM_append_of_ok {f : α → EStateM ε σ PUnit} {l l' : List α} (h : l.forM f s = .ok ⟨⟩ s₁) :
    (l ++ l').forM f s = l'.forM f s₁ := by
  rw [List.forM_eq_forM] at h
  rw [List.forM_eq_forM, List.forM_append, bind_of_ok h]

end Marshal.Effect
