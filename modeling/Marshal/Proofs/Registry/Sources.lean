import Marshal.Proofs.Registry.Bookkeeping
import Marshal.Proofs.Registry.Termination

/-!
# Successful resolutions

When a registry with any sources resolves a type.  A resolution succeeds if the construction of each type of a finite
set succeeds, given that the types of the set that are not under construction yet can be resolved
(`resolveIn_yields`).  A construction succeeds if some source answers with a converter and the sources before it
answer at all (`firstOf_yields`, `build_yields`).
-/

namespace Marshal

open Effect

namespace Registry

variable {α β : Type} {r : Resolution} {reg : Registry}

/-- With enough fuel the computation comes to a result with the property; it only adds to the resolution, and it gives
out numbers that are free. -/
def Yields (m : Nat → ResolveM α) (r : Resolution) (P : α → Prop) : Prop :=
  ∃ n a r', (∀ fuel ≥ n, m fuel r = .ok a r') ∧ Extends r r' ∧ Fresh r' ∧ P a

namespace Yields

variable {m : Nat → ResolveM α} {f : Nat → α → ResolveM β} {P P' : α → Prop} {Q : β → Prop}

private theorem of_ok {m : ResolveM α} {a : α} {r' : Resolution} (h : m r = .ok a r') (hext : Extends r r')
    (hfresh : Fresh r') (ha : P a) : Yields (fun _ => m) r P := ⟨0, a, r', fun _ _ => h, hext, hfresh, ha⟩

theorem pure {a : α} (hr : Fresh r) (ha : P a) : Yields (fun _ => pure a) r P := of_ok rfl (.refl r) hr ha

theorem mono (h : Yields m r P) (hP : ∀ a, P a → P' a) : Yields m r P' := by
  obtain ⟨n, a, r', hn, hext, hfresh, ha⟩ := h
  exact ⟨n, a, r', hn, hext, hfresh, hP a ha⟩

theorem bind (h : Yields m r P)
    (hf : ∀ a r', Extends r r' → Fresh r' → P a → Yields (fun fuel => f fuel a) r' Q) :
    Yields (fun fuel => m fuel >>= f fuel) r Q := by
  obtain ⟨n, a, r₁, hn, hext, hfresh, ha⟩ := h
  obtain ⟨n', b, r', hn', hext', hfresh', hb⟩ := hf a r₁ hext hfresh ha
  refine ⟨max n n', b, r', fun fuel hfuel => ?_, hext.trans hext', hfresh', hb⟩
  have hrest := hn' fuel (Nat.le_trans (Nat.le_max_right ..) hfuel)
  exact (bind_of_ok (hn fuel (Nat.le_trans (Nat.le_max_left ..) hfuel))).trans hrest

end Yields

/-! ### Constructions -/

theorem fresh_yields (hr : Fresh r) : Yields (fun _ => ResolveM.fresh) r fun _ => True :=
  .of_ok (ResolveM.fresh_apply r) (extends_allot r) (fun id hid => hr id (Nat.le_of_succ_le hid)) trivial

private theorem count_yields (p : Recipe) (hr : Fresh r) : Yields (fun _ => p.count) r fun _ => True := by
  obtain ⟨tallies, hcount⟩ := p.exists_counts r
  exact .of_ok hcount ⟨⟨rfl, rfl, Nat.le_refl _, fun _ _ => rfl⟩, rfl, List.prefix_rfl⟩ hr trivial

/-- The part can be obtained from here on. -/
def Obtainable (reg : Registry) (r : Resolution) : Part → Prop
  | .resolved ty => ∀ r', Extends r r' → Fresh r' → Yields (fun fuel => reg.resolveIn fuel ty) r' fun _ => True
  | .native _ => True
  | .attached path => (reg.attached? path).isSome

private theorem Obtainable.mono {r₁ : Resolution} (hext : Extends r r₁) {part : Part} (h : Obtainable reg r part) :
    Obtainable reg r₁ part := by
  cases part with
  | resolved ty => exact fun r' hr' => h r' (hext.trans hr')
  | native | attached => exact h

private theorem obtain_yields {part : Part} (h : Obtainable reg r part) (hr : Fresh r) :
    Yields (fun fuel => part.obtain (reg.resolver fuel)) r fun _ => True := by
  cases part with
  | resolved ty => exact h r (.refl r) hr
  | native kind => exact (fresh_yields hr).bind fun id r' _ hr' _ => .pure hr' trivial
  | attached path =>
    obtain ⟨c, hc⟩ := Option.isSome_iff_exists.1 h
    have hfind : reg.findAttached path = pure c := by rw [findAttached, hc]
    exact .of_ok (congrFun hfind r) (.refl r) hr trivial

private theorem parts_yield : ∀ (ps : List Part) {r : Resolution}, (∀ part ∈ ps, Obtainable reg r part) → Fresh r →
    Yields (fun fuel => ps.mapM (·.obtain (reg.resolver fuel))) r fun _ => True
  | [], _, _, hr => .pure hr trivial
  | part :: ps, r, h, hr => by
    obtain ⟨hpart, hps⟩ := List.forall_mem_cons.1 h
    simp only [List.mapM_cons]
    refine (obtain_yields hpart hr).bind fun c r₁ hext hr₁ _ => ?_
    refine (parts_yield ps (fun q hq => (hps q hq).mono hext) hr₁).bind fun cs r₂ _ hr₂ _ => ?_
    exact .pure hr₂ trivial

/-- A converter is built once all its parts can be obtained. -/
theorem build_yields {p : Recipe} (h : ∀ part ∈ p.parts, Obtainable reg r part) (hr : Fresh r) :
    Yields (fun fuel => p.build (reg.resolver fuel)) r fun _ => True := by
  refine (parts_yield p.parts h hr).bind fun cs r₁ _ hr₁ _ => ?_
  refine (count_yields p hr₁).bind fun _ r₂ _ hr₂ _ => ?_
  exact (fresh_yields hr₂).bind fun id r₃ _ hr₃ _ => .pure hr₃ trivial

/-! ### Sources -/

/-- From the resolution `r₀` on, with enough fuel, the source has an answer with the property to a request for the
type. -/
def Answers (reg : Registry) (r₀ : Resolution) (src : Source) (ty : TypeRef) (P : Option Converter → Prop) : Prop :=
  ∀ r, Extends r₀ r → Fresh r → Yields (fun fuel => src.create (reg.resolver fuel) ty) r P

theorem Answers.mono {r₀ : Resolution} {src : Source} {ty : TypeRef} {P P' : Option Converter → Prop}
    (h : Answers reg r₀ src ty P) (hP : ∀ o, P o → P' o) : Answers reg r₀ src ty P' :=
  fun r hext hr => (h r hext hr).mono hP

/-- A source that builds by recipe answers once all parts of the recipe can be obtained. -/
theorem answers_of_recipe {r₀ : Resolution} {src : Source} {ty : TypeRef} {p? : Option Recipe}
    (hsrc : ∀ resolver, src.create resolver ty = Source.buildSome resolver p?)
    (hparts : ∀ p, p? = some p → ∀ part ∈ p.parts, Obtainable reg r₀ part) :
    Answers reg r₀ src ty fun o => p?.isSome → o.isSome := by
  intro r hext hr
  simp only [hsrc]
  cases p? with
  | none => exact .pure hr nofun
  | some p =>
    have hbuild := build_yields (fun part hpart => (hparts p rfl part hpart).mono hext) hr
    exact hbuild.bind fun c r' _ hr' _ => .pure hr' fun _ => rfl

/-- If all sources answer there is an answer, and it is a converter if one of them has one. -/
theorem firstOf_yields {r₀ : Resolution} {ty : TypeRef} : ∀ (srcs : List Source) {r : Resolution},
    (∀ src ∈ srcs, Answers reg r₀ src ty fun _ => True) → Extends r₀ r → Fresh r →
      Yields (fun fuel => firstOf (reg.resolver fuel) ty srcs) r
        fun o => (∃ src ∈ srcs, Answers reg r₀ src ty (·.isSome)) → o.isSome
  | [], _, _, _, hr => .pure hr nofun
  | src :: srcs, r, h, hext, hr => by
    obtain ⟨hsrc, hsrcs⟩ := List.forall_mem_cons.1 h
    have hfirst : Yields (fun fuel => src.create (reg.resolver fuel) ty) r
        fun o => Answers reg r₀ src ty (·.isSome) → o.isSome := by
      by_cases hsome : Answers reg r₀ src ty (·.isSome)
      · exact (hsome r hext hr).mono fun o ho _ => ho
      · exact (hsrc r hext hr).mono fun o _ h => absurd h hsome
    refine hfirst.bind fun o r₁ hext₁ hr₁ ho => ?_
    cases o with
    | some c => exact .pure hr₁ fun _ => rfl
    | none =>
      refine (firstOf_yields srcs hsrcs (hext.trans hext₁) hr₁).mono fun o hrest hex => hrest ?_
      obtain ⟨src', hmem, hsome⟩ := hex
      rcases List.mem_cons.1 hmem with rfl | hmem
      · exact absurd (ho hsome) nofun
      · exact ⟨src', hmem, hsome⟩

/-- What comes behind is asked only if no source before it has a converter. -/
theorem firstOf_append (resolver : Resolver) (ty : TypeRef) (srcs srcs' : List Source) :
    firstOf resolver ty (srcs ++ srcs') = (do
      match ← firstOf resolver ty srcs with
      | some c => return some c
      | none => firstOf resolver ty srcs') := by
  induction srcs with
  | nil => simp [firstOf]
  | cons src srcs ih =>
    simp only [List.cons_append, firstOf, bind_assoc]
    congr 1
    funext o
    cases o with
    | some c => simp
    | none => simpa using ih

/-! ### Resolutions -/

/-- If a construction of each type of a finite set succeeds, provided that those of the set can be obtained, then each
type of the set is resolved: the types that are left to construct become fewer. -/
theorem resolveIn_yields {L : Finset TypeRef}
    (hcreate : ∀ ty ∈ L, ∀ r, Fresh r → (∀ u ∈ L, Obtainable reg r (.resolved u)) →
      Yields (fun fuel => reg.create (reg.resolveIn fuel) ty) r fun _ => True) :
    ∀ (n : Nat) (ty : TypeRef) (r : Resolution), missing L r = n → ty ∈ L → Fresh r →
      Yields (fun fuel => reg.resolveIn fuel ty) r fun _ => True := by
  intro n
  induction n using Nat.strong_induction_on with
  | _ n ih =>
    intro ty r hn hty hr
    cases hk : known? r ty with
    | some c =>
      refine ⟨1, c, r, fun fuel hfuel => ?_, .refl r, hr, trivial⟩
      obtain ⟨k, rfl⟩ := Nat.exists_eq_add_of_le' hfuel
      exact resolveIn_of_known hk k
    | none =>
      have henter : Fresh (r.enter ty) := fun id hid => hr id (Nat.le_of_succ_le hid)
      have hlt := missing_enter_lt hty hk
      obtain ⟨k, c, r₁, hrun, hext, hfresh, -⟩ := hcreate ty hty (r.enter ty) henter fun u hu r' hext hr' => by
        have hle := missing_mono hext (L := L)
        exact ih (missing L r') (by omega) u r' rfl hu hr'
      have hfree : r₁.store.delegates.find? r.store.nextId = none :=
        (hext.delegates _ (Nat.lt_succ_self _)).trans (hr _ (Nat.le_refl _))
      refine ⟨k + 1, c, r₁.conclude r.store.nextId ty c, fun fuel hfuel => ?_, extends_conclude hext c, ?_, trivial⟩
      · obtain ⟨j, rfl⟩ := Nat.exists_eq_add_of_le' (Nat.le_trans (Nat.le_add_left 1 k) hfuel)
        exact resolveIn_of_creates hk (hrun j (by omega)) hfree
      · intro id hid
        have hid' : r.store.nextId < id := Nat.lt_of_lt_of_le (Nat.lt_of_succ_le hext.nextId) hid
        show List.lookup id ((r.store.nextId, c) :: r₁.store.delegates) = none
        rw [List.lookup_cons, beq_false_of_ne (Nat.ne_of_gt hid')]
        exact hfresh id hid

end Registry

end Marshal
