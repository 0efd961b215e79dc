import Mathlib.Data.List.Forall2
import Marshal.Error
import Marshal.Proofs.Effect

/-!
# Computations that follow each other

Two computations with fuel that need different amounts of it for the same work cannot be equal.  One follows another
if with enough fuel it comes to whatever the other one comes to, unless that one runs out of fuel.  The two may work
on states of their own, related throughout, and come to related results.
-/

namespace Marshal

open Effect

variable {σ τ α β γ δ : Type}

/-- Two outcomes agree: results related by `A` in states related by `R`, or the same fault in states related by
`E`. -/
def Agree (R E : σ → τ → Prop) (A : α → β → Prop) : EStateM.Result Error σ α → EStateM.Result Error τ β → Prop
  | .ok a s, .ok b t => A a b ∧ R s t
  | .error e s, .error e' t => e = e' ∧ E s t
  | .ok .., .error .. | .error .., .ok .. => False

/-- Begun in states related by `R`, the computation `m'` comes with enough fuel to an outcome that agrees with the one
of `m`, unless `m` runs out of fuel. -/
def Follows (R E : σ → τ → Prop) (A : α → β → Prop) (m : EStateM Error σ α) (m' : Nat → EStateM Error τ β) : Prop :=
  ∀ s t, R s t → (∃ s', m s = .error .outOfFuel s') ∨ ∃ n x, (∀ k ≥ n, m' k t = x) ∧ Agree R E A (m s) x

namespace Agree

variable {R R' E E' : σ → τ → Prop} {A : α → β → Prop} {x : EStateM.Result Error σ α} {y : EStateM.Result Error τ β}

theorem of_ok {a : α} {s : σ} (h : Agree R E A (.ok a s) y) : ∃ b t, y = .ok b t ∧ A a b ∧ R s t := by
  cases y with
  | ok b t => exact ⟨b, t, rfl, h⟩
  | error => exact h.elim

theorem of_error {e : Error} {s : σ} (h : Agree R E A (.error e s) y) : ∃ t, y = .error e t ∧ E s t := by
  cases y with
  | ok => exact h.elim
  | error e' t => exact ⟨t, by rw [h.1], h.2⟩

theorem mono (hR : ∀ s t, R s t → R' s t) (hE : ∀ s t, E s t → E' s t) (h : Agree R E A x y) : Agree R' E' A x y := by
  cases x with
  | ok a s =>
    obtain ⟨b, t, rfl, hab, hst⟩ := h.of_ok
    exact ⟨hab, hR s t hst⟩
  | error e s =>
    obtain ⟨t, rfl, hst⟩ := h.of_error
    exact ⟨rfl, hE s t hst⟩

private theorem trans {R : σ → σ → Prop} (htrans : ∀ s t u, R s t → R t u → R s u) {x y z : EStateM.Result Error σ α}
    (h : Agree R R Eq x y) (h' : Agree R R Eq y z) : Agree R R Eq x z := by
  cases x with
  | ok a s =>
    obtain ⟨b, t, rfl, rfl, hst⟩ := h.of_ok
    obtain ⟨c, u, rfl, rfl, htu⟩ := h'.of_ok
    exact ⟨rfl, htrans s t u hst htu⟩
  | error e s =>
    obtain ⟨t, rfl, hst⟩ := h.of_error
    obtain ⟨u, rfl, htu⟩ := h'.of_error
    exact ⟨rfl, htrans s t u hst htu⟩

end Agree

namespace Follows

variable {R E : σ → τ → Prop} {A : α → β → Prop} {B : γ → δ → Prop} {m : EStateM Error σ α}
  {m' : Nat → EStateM Error τ β}

/-- The second computation needs no fuel. -/
theorem of_agree {m' : EStateM Error τ β} (h : ∀ s t, R s t → Agree R E A (m s) (m' t)) :
    Follows R E A m (fun _ => m') :=
  fun s t hst => .inr ⟨0, _, fun _ _ => rfl, h s t hst⟩

theorem pure {a : α} {b : β} (h : A a b) : Follows R E A (pure a) (fun _ => pure b) :=
  of_agree fun _ _ hst => ⟨h, hst⟩

theorem get {σ τ : Type} {R E : σ → τ → Prop} :
    Follows R E R (MonadState.get : EStateM Error σ σ) (fun _ => MonadState.get) := of_agree fun _ _ hst => ⟨hst, hst⟩

theorem throw (hRE : ∀ s t, R s t → E s t) (e : Error) : Follows R E A (throw e) (fun _ => throw e) :=
  of_agree fun s t hst => ⟨rfl, hRE s t hst⟩

theorem outOfFuel : Follows R E A (MonadExcept.throw Error.outOfFuel : EStateM Error σ α) m' :=
  fun s _ _ => .inl ⟨s, rfl⟩

theorem bind {f : α → EStateM Error σ γ} {f' : Nat → β → EStateM Error τ δ} (h : Follows R E A m m')
    (hf : ∀ a b, A a b → Follows R E B (f a) (fun k => f' k b)) :
    Follows R E B (m >>= f) (fun k => m' k >>= f' k) := by
  intro s t hst
  rcases h s t hst with ⟨s', hout⟩ | ⟨n, x, hx, hagree⟩
  · exact .inl ⟨s', bind_of_error hout⟩
  · cases hm : m s with
    | error e s₁ =>
      rw [hm] at hagree
      obtain ⟨t₁, rfl, hst₁⟩ := hagree.of_error
      refine .inr ⟨n, .error e t₁, fun k hk => bind_of_error (hx k hk), ?_⟩
      rw [bind_of_error hm]
      exact ⟨rfl, hst₁⟩
    | ok a s₁ =>
      rw [hm] at hagree
      obtain ⟨b, t₁, rfl, hab, hst₁⟩ := hagree.of_ok
      rw [bind_of_ok hm]
      rcases hf a b hab s₁ t₁ hst₁ with hout | ⟨n', y, hy, hagree'⟩
      · exact .inl hout
      · refine .inr ⟨max n n', y, fun k hk => ?_, hagree'⟩
        have hrest := hy k (Nat.le_trans (Nat.le_max_right _ _) hk)
        exact (bind_of_ok (hx k (Nat.le_trans (Nat.le_max_left _ _) hk))).trans hrest

/-- Only what the computations do in related states counts. -/
theorem congr {m₂ : EStateM Error σ α} {m₂' : Nat → EStateM Error τ β} (hm : ∀ s t, R s t → m s = m₂ s)
    (hm' : ∀ s t, R s t → ∀ k, m' k t = m₂' k t) (h : Follows R E A m₂ m₂') : Follows R E A m m' := by
  intro s t hst
  rw [hm s t hst]
  refine (h s t hst).imp_right ?_
  rintro ⟨n, x, hx, hagree⟩
  exact ⟨n, x, fun k hk => (hm' s t hst k).trans (hx k hk), hagree⟩

/-- The second computation may need more fuel for a step that the first one does not take. -/
theorem of_succ (h : Follows R E A m (fun k => m' (k + 1))) : Follows R E A m m' := by
  intro s t hst
  rcases h s t hst with hout | ⟨n, x, hx, hagree⟩
  · exact .inl hout
  · refine .inr ⟨n + 1, x, fun k hk => ?_, hagree⟩
    obtain ⟨k, rfl⟩ : ∃ j, k = j + 1 := ⟨k - 1, by omega⟩
    exact hx k (by omega)

theorem ite {p : Prop} [Decidable p] {m₂ : EStateM Error σ α} {m₂' : Nat → EStateM Error τ β} (h : Follows R E A m m')
    (h₂ : Follows R E A m₂ m₂') : Follows R E A (if p then m else m₂) (fun k => if p then m' k else m₂' k) := by
  by_cases hp : p
  · simpa only [if_pos hp] using h
  · simpa only [if_neg hp] using h₂

theorem mapM {f : α → EStateM Error σ γ} {f' : Nat → α → EStateM Error τ δ} :
    ∀ l : List α, (∀ a ∈ l, Follows R E B (f a) (fun k => f' k a)) →
      Follows R E (List.Forall₂ B) (l.mapM f) (fun k => l.mapM (f' k))
  | [], _ => .pure .nil
  | a :: l, h => by
    simp only [List.mapM_cons]
    obtain ⟨ha, hl⟩ := List.forall_mem_cons.1 h
    exact ha.bind fun b d hbd => (mapM l hl).bind fun bs ds hbds => .pure (.cons hbd hbds)

/-- Lists that are the same but for elements which come to nothing but a result. -/
theorem mapM_filter {q : α → Bool} {f : α → EStateM Error σ γ} {f' : Nat → α → EStateM Error τ δ}
    (hpure : ∀ a, q a = false → (∃ c, f a = Pure.pure c) ∧ ∃ d, ∀ k, f' k a = Pure.pure d)
    (h : ∀ a, Follows R E B (f a) (fun k => f' k a)) :
    ∀ l l' : List α, l.filter q = l'.filter q → Follows R E (fun _ _ => True) (l.mapM f)
      (fun k => l'.mapM (f' k)) := by
  have hskip (l : List α) (hl : ∀ a ∈ l, ¬q a = true) : ∃ ds, ∀ k, l.mapM (f' k) = Pure.pure ds := by
    induction l with
    | nil => exact ⟨[], fun _ => rfl⟩
    | cons a l ih =>
      obtain ⟨ha, hl⟩ := List.forall_mem_cons.1 hl
      obtain ⟨-, d, hd⟩ := hpure a (Bool.eq_false_iff.2 ha)
      obtain ⟨ds, hds⟩ := ih hl
      exact ⟨d :: ds, fun k => by rw [List.mapM_cons, hd, pure_bind, hds, pure_bind]⟩
  intro l
  induction l with
  | nil =>
    intro l' hl
    obtain ⟨ds, hds⟩ := hskip l' (List.filter_eq_nil_iff.1 hl.symm)
    exact congr (fun _ _ _ => rfl) (fun _ _ _ k => by rw [hds]) (pure trivial)
  | cons a l ih =>
    intro l' hl
    cases ha : q a with
    | false =>
      obtain ⟨⟨c, hc⟩, -⟩ := hpure a ha
      rw [List.filter_cons_of_neg (Bool.eq_false_iff.1 ha)] at hl
      simp only [List.mapM_cons, hc, pure_bind]
      have hrest : Follows R E (fun _ _ => True) (l.mapM f >>= fun cs => Pure.pure (c :: cs)) fun k =>
        l'.mapM (f' k) >>= Pure.pure := (ih l' hl).bind fun _ _ _ => pure trivial
      simpa only [bind_pure] using hrest
    | true =>
      rw [List.filter_cons_of_pos ha, eq_comm, List.filter_eq_cons_iff] at hl
      obtain ⟨skipped, rest, rfl, hskipped, -, hrest⟩ := hl
      obtain ⟨ds, hds⟩ := hskip skipped hskipped
      simp only [List.mapM_append, List.mapM_cons, hds, pure_bind, bind_assoc]
      exact (h a).bind fun _ _ _ => (ih rest hrest.symm).bind fun _ _ _ => pure trivial

end Follows

/-! ### Both ways -/

/-- Each of the two computations follows the other one, on states of one kind. -/
def Interchangeable (R : σ → σ → Prop) (f g : Nat → EStateM Error σ α) : Prop :=
  (∀ n, Follows R R Eq (f n) g) ∧ ∀ n, Follows R R Eq (g n) f

namespace Interchangeable

variable {R : σ → σ → Prop} {f g h : Nat → EStateM Error σ α}

/-- The two agree with a third one run from the first of the two states. -/
private theorem follows_trans (hrefl : ∀ s t, R s t → R s s) (htrans : ∀ s t u, R s t → R t u → R s u)
    {m : EStateM Error σ α} (hm : Follows R R Eq m g) (hg : ∀ n, Follows R R Eq (g n) h) : Follows R R Eq m h := by
  intro s t hst
  rcases hm s s (hrefl s t hst) with hout | ⟨n, x, hx, hagree⟩
  · exact .inl hout
  rcases hg n s t hst with ⟨s', hout⟩ | ⟨n', y, hy, hagree'⟩
  · left
    obtain rfl := (hx n (Nat.le_refl n)).symm.trans hout
    cases hm : m s with
    | ok a s₁ =>
      rw [hm] at hagree
      exact hagree.elim
    | error e s₁ =>
      rw [hm] at hagree
      exact ⟨s₁, by rw [hagree.1]⟩
  · rw [hx n (Nat.le_refl n)] at hagree'
    exact .inr ⟨n', y, hy, hagree.trans htrans hagree'⟩

theorem trans (hrefl : ∀ s t, R s t → R s s) (htrans : ∀ s t u, R s t → R t u → R s u)
    (hfg : Interchangeable R f g) (hgh : Interchangeable R g h) : Interchangeable R f h :=
  ⟨fun n => follows_trans hrefl htrans (hfg.1 n) hgh.1, fun n => follows_trans hrefl htrans (hgh.2 n) hfg.2⟩

theorem trans_eq {f g h : Nat → EStateM Error σ α} (hfg : Interchangeable Eq f g) (hgh : Interchangeable Eq g h) :
    Interchangeable Eq f h := hfg.trans (fun _ _ _ => rfl) (fun _ _ _ => Eq.trans) hgh

/-- A computation that takes a step more, for which it needs fuel. -/
theorem of_succ (hzero : g 0 = MonadExcept.throw Error.outOfFuel) (h : Interchangeable R f fun n => g (n + 1)) :
    Interchangeable R f g := by
  refine ⟨fun n => Follows.of_succ (h.1 n), fun n => ?_⟩
  cases n with
  | zero =>
    rw [hzero]
    exact Follows.outOfFuel
  | succ n => exact h.2 n

theorem succ (h : Interchangeable R f g) : Interchangeable R (fun n => f (n + 1)) fun n => g (n + 1) := by
  have hsucc {m : EStateM Error σ α} {g : Nat → EStateM Error σ α} (hm : Follows R R Eq m g) :
      Follows R R Eq m fun n => g (n + 1) := by
    intro s t hst
    refine (hm s t hst).imp_right ?_
    rintro ⟨n, x, hx, hagree⟩
    exact ⟨n, x, fun k hk => hx (k + 1) (Nat.le_succ_of_le hk), hagree⟩
  exact ⟨fun n => hsucc (h.1 (n + 1)), fun n => hsucc (h.2 (n + 1))⟩

end Interchangeable

/-! ### Outcomes -/

variable {ω : Type}

/-- What a computation comes to: its result or its fault, and what `view` shows of the state that it ends in. -/
def outcome (view : σ → ω) (m : EStateM Error σ α) (s : σ) : Except Error α × ω :=
  match m s with
  | .ok a s => (.ok a, view s)
  | .error e s => (.error e, view s)

/-- Whatever the one of two computations comes to with some fuel, unless it runs out of it, the other one comes to
with enough fuel. -/
def SameOutcomes (x y : Nat → Except Error α × ω) : Prop :=
  ∀ o, o.1 ≠ .error .outOfFuel →
    ((∃ n, x n = o) → ∃ n, ∀ k ≥ n, y k = o) ∧ ((∃ n, y n = o) → ∃ n, ∀ k ≥ n, x k = o)

/-- Begun in related states, a computation that follows another one comes to what that one comes to. -/
theorem Follows.outcome_eq {R E : σ → τ → Prop} {m : EStateM Error σ α} {m' : Nat → EStateM Error τ α}
    (h : Follows R E Eq m m') {view : σ → ω} {view' : τ → ω} (hR : ∀ s t, R s t → view s = view' t)
    (hE : ∀ s t, E s t → view s = view' t) {s : σ} {t : τ} (hst : R s t)
    (hm : (outcome view m s).1 ≠ .error .outOfFuel) : ∃ n, ∀ k ≥ n, outcome view' (m' k) t = outcome view m s := by
  rcases h s t hst with ⟨s', hout⟩ | ⟨n, x, hx, hagree⟩
  · exact absurd (by rw [outcome, hout]) hm
  · refine ⟨n, fun k hk => ?_⟩
    rw [outcome, outcome, hx k hk]
    cases hr : m s with
    | ok a s₁ =>
      rw [hr] at hagree
      obtain ⟨b, t₁, rfl, rfl, hst₁⟩ := hagree.of_ok
      simp only [hR _ _ hst₁]
    | error e s₁ =>
      rw [hr] at hagree
      obtain ⟨t₁, rfl, hst₁⟩ := hagree.of_error
      simp only [hE _ _ hst₁]

theorem Interchangeable.sameOutcomes {R : σ → σ → Prop} {f g : Nat → EStateM Error σ α} (h : Interchangeable R f g)
    {view : σ → ω} (hview : ∀ s t, R s t → view s = view t) {s : σ} (hs : R s s) :
    SameOutcomes (fun n => outcome view (f n) s) fun n => outcome view (g n) s := by
  have hcomes {f g : Nat → EStateM Error σ α} (h : ∀ n, Follows R R Eq (f n) g) (o : Except Error α × ω)
      (ho : o.1 ≠ .error .outOfFuel) : (∃ n, outcome view (f n) s = o) → ∃ n, ∀ k ≥ n, outcome view (g k) s = o := by
    rintro ⟨n, rfl⟩
    exact (h n).outcome_eq hview hview hs ho
  exact fun o ho => ⟨hcomes h.1 o ho, hcomes h.2 o ho⟩

end Marshal
