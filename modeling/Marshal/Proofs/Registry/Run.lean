import Marshal.Proofs.Registry.Recipe

/-!
# Runs of a resolution

The two ways in which resolving a type can go, as rules for proofs by induction.  A successful run answers with a
converter that is known already, or obtains the parts of the type's recipe one after the other and assembles them
(`resolveIn_induction`).  A failing run breaks at the first part that fails (`resolveIn_error_induction`).
-/

namespace Marshal

open Effect

namespace Resolution

/-- The resolution after a number was given out. -/
def allot (r : Resolution) : Resolution :=
  { r with store := { r.store with nextId := r.store.nextId + 1 } }

/-- The resolution after the construction of a type was begun. -/
def enter (ty : TypeRef) (r : Resolution) : Resolution :=
  { r.allot with context := r.context.enter ty (.placeholder r.store.nextId ty) }

/-- The resolution after the construction of a type failed. -/
def exit (r : Resolution) : Resolution := { r with context := r.context.exit }

/-- The resolution after the converter of a type was assembled. -/
def built (tallies : List (Nat × Tally)) (r : Resolution) : Resolution :=
  ⟨{ r.store with nextId := r.store.nextId + 1, tallies }, r.context.exit⟩

/-- The resolution after the construction of a type came to a converter and the placeholder `id` was bound to it. -/
def conclude (id : Nat) (ty : TypeRef) (c : Converter) (r : Resolution) : Resolution where
  store := { r.store with delegates := (id, c) :: r.store.delegates }
  context := r.context.exit.complete ty c

/-- The resolution after the converter of a type was assembled and the placeholder `id` was bound to it. -/
def finish (id : Nat) (ty : TypeRef) (c : Converter) (tallies : List (Nat × Tally)) (r : Resolution) :
    Resolution where
  store := { r.store with
    nextId := r.store.nextId + 1
    delegates := (id, c) :: r.store.delegates
    tallies }
  context := r.context.exit.complete ty c

end Resolution

theorem ResolveM.fresh_apply (r : Resolution) : ResolveM.fresh r = .ok r.store.nextId r.allot := rfl

private theorem ResolveM.enter_apply (ty : TypeRef) (r : Resolution) :
    ResolveM.enter ty r = .ok r.store.nextId (r.enter ty) := rfl

/-- The counts of the modules once a construction by the recipe was noted. -/
def Recipe.Counts (p : Recipe) (r : Resolution) (tallies : List (Nat × Tally)) : Prop :=
  p.count r = .ok ⟨⟩ { r with store := { r.store with tallies } }

/-- Counting changes nothing but the counts. -/
theorem Recipe.exists_counts (p : Recipe) (r : Resolution) : ∃ tallies, p.Counts r tallies := by
  cases p with
  | struct => exact ⟨_, rfl⟩
  | enum => exact ⟨_, rfl⟩
  | dynamic | native | list | objectMap | pairMap => exact ⟨r.store.tallies, rfl⟩

private theorem Delegates.bind_ok {ds ds' : Delegates} {id : Nat} {ty : TypeRef} {c : Converter}
    (h : ds.bind id ty c = .ok ds') : ds.find? id = none ∧ ds' = (id, c) :: ds := by
  unfold Delegates.bind at h
  cases hf : ds.find? id with
  | some c' => simp [hf] at h
  | none =>
    simp only [hf, Except.ok.injEq] at h
    exact ⟨rfl, h.symm⟩

private theorem ResolveM.complete_ok {id : Nat} {ty : TypeRef} {c : Converter} {r r' : Resolution} {u : Unit}
    (h : ResolveM.complete id ty c r = .ok u r') :
    r.store.delegates.find? id = none ∧
      r' = ⟨{ r.store with delegates := (id, c) :: r.store.delegates }, r.context.complete ty c⟩ := by
  simp only [ResolveM.complete, bind_of_ok (get_apply _)] at h
  cases hb : r.store.delegates.bind id ty c with
  | error e => simp [hb, throw_apply] at h
  | ok ds =>
    obtain ⟨hnone, rfl⟩ := Delegates.bind_ok hb
    simp only [hb, set_apply, EStateM.Result.ok.injEq] at h
    exact ⟨hnone, h.2.symm⟩

private theorem ResolveM.complete_error {id : Nat} {ty : TypeRef} {c : Converter} {e : Error} {r r' : Resolution}
    (h : ResolveM.complete id ty c r = .error e r') :
    r.store.delegates.find? id ≠ none ∧ e = .violation (.doubleBind ty) ∧ r' = r := by
  simp only [ResolveM.complete, bind_of_ok (get_apply _)] at h
  cases hf : r.store.delegates.find? id with
  | none => simp [Delegates.bind, hf, set_apply] at h
  | some c' =>
    simp only [Delegates.bind, hf, throw_apply, EStateM.Result.error.injEq] at h
    exact ⟨by simp, h.1.symm, h.2.symm⟩

namespace Registry

variable {ms : List AdapterModule} {att : List (String × Converter)}

/-! ### Parts -/

/-- The parts of a recipe are obtained one after the other; `Q` says what the resolution of a type does. -/
inductive Obtains (ms : List AdapterModule) (att : List (String × Converter))
    (Q : TypeRef → Resolution → Converter → Resolution → Prop) :
    List Part → Resolution → List Converter → Resolution → Prop
  | nil (r : Resolution) : Obtains ms att Q [] r [] r
  | resolved {ty : TypeRef} {ps : List Part} {c : Converter} {cs : List Converter} {r r₁ r' : Resolution}
    (hc : Q ty r c r₁) (hcs : Obtains ms att Q ps r₁ cs r') : Obtains ms att Q (.resolved ty :: ps) r (c :: cs) r'
  | native {kind : NativeKind} {ps : List Part} {cs : List Converter} {r r' : Resolution}
    (hcs : Obtains ms att Q ps r.allot cs r') :
    Obtains ms att Q (.native kind :: ps) r (.native r.store.nextId kind :: cs) r'
  | attached {path : String} {ps : List Part} {c : Converter} {cs : List Converter} {r r' : Resolution}
    (hc : (ofModules ms att).attached? path = some c) (hcs : Obtains ms att Q ps r cs r') :
    Obtains ms att Q (.attached path :: ps) r (c :: cs) r'

/-- A part cannot be obtained: the first one for which `F` says how its resolution fails, or an attached converter
that is not there. -/
inductive Breaks (ms : List AdapterModule) (att : List (String × Converter))
    (Q : TypeRef → Resolution → Converter → Resolution → Prop)
    (F : TypeRef → Resolution → Error → Resolution → Prop) : List Part → Resolution → Error → Resolution → Prop
  | here {ty : TypeRef} {ps : List Part} {e : Error} {r r' : Resolution} (he : F ty r e r') :
    Breaks ms att Q F (.resolved ty :: ps) r e r'
  | unknown {path : String} {ps : List Part} {r : Resolution} (hn : (ofModules ms att).attached? path = none) :
    Breaks ms att Q F (.attached path :: ps) r (.unknownConverter path) r
  | resolved {ty : TypeRef} {ps : List Part} {c : Converter} {e : Error} {r r₁ r' : Resolution}
    (hc : Q ty r c r₁) (he : Breaks ms att Q F ps r₁ e r') : Breaks ms att Q F (.resolved ty :: ps) r e r'
  | native {kind : NativeKind} {ps : List Part} {e : Error} {r r' : Resolution}
    (he : Breaks ms att Q F ps r.allot e r') : Breaks ms att Q F (.native kind :: ps) r e r'
  | attached {path : String} {ps : List Part} {c : Converter} {e : Error} {r r' : Resolution}
    (hc : (ofModules ms att).attached? path = some c) (he : Breaks ms att Q F ps r e r') :
    Breaks ms att Q F (.attached path :: ps) r e r'

variable {Q : TypeRef → Resolution → Converter → Resolution → Prop}
  {F : TypeRef → Resolution → Error → Resolution → Prop} {resolve : TypeRef → ResolveM Converter}

theorem Obtains.mono {Q' : TypeRef → Resolution → Converter → Resolution → Prop} {ps : List Part}
    {cs : List Converter} {r r' : Resolution} (hQ : ∀ ty r c r', Q ty r c r' → Q' ty r c r')
    (h : Obtains ms att Q ps r cs r') : Obtains ms att Q' ps r cs r' := by
  induction h with
  | nil r => exact .nil r
  | resolved hc _ ih => exact .resolved (hQ _ _ _ _ hc) ih
  | native _ ih => exact .native ih
  | attached hc _ ih => exact .attached hc ih

theorem Breaks.mono {Q' : TypeRef → Resolution → Converter → Resolution → Prop}
    {F' : TypeRef → Resolution → Error → Resolution → Prop} {ps : List Part} {e : Error} {r r' : Resolution}
    (hQ : ∀ ty r c r', Q ty r c r' → Q' ty r c r') (hF : ∀ ty r e r', F ty r e r' → F' ty r e r')
    (h : Breaks ms att Q F ps r e r') : Breaks ms att Q' F' ps r e r' := by
  induction h with
  | here he => exact .here (hF _ _ _ _ he)
  | unknown hn => exact .unknown hn
  | resolved hc _ ih => exact .resolved (hQ _ _ _ _ hc) ih
  | native _ ih => exact .native ih
  | attached hc _ ih => exact .attached hc ih

theorem obtains_of_mapM :
    ∀ (ps : List Part) (r : Resolution) (cs : List Converter) (r' : Resolution),
      ps.mapM (·.obtain ⟨resolve, (ofModules ms att).findAttached⟩) r = .ok cs r' →
        Obtains ms att (fun ty r c r' => resolve ty r = .ok c r') ps r cs r' := by
  intro ps
  induction ps with
  | nil =>
    intro r cs r' h
    obtain ⟨rfl, rfl⟩ := ok_inj.1 h
    exact .nil _
  | cons p ps ih =>
    intro r cs r' h
    rw [List.mapM_cons] at h
    obtain ⟨c, r₁, hc, h⟩ := bind_eq_ok.1 h
    obtain ⟨cs₁, r₂, hcs, h⟩ := bind_eq_ok.1 h
    obtain ⟨rfl, rfl⟩ := ok_inj.1 h
    have hrest := ih r₁ cs₁ r₂ hcs
    cases p with
    | resolved ty => exact .resolved hc hrest
    | native kind =>
      obtain ⟨rfl, rfl⟩ := ok_inj.1 hc
      exact .native hrest
    | attached path =>
      simp only [Part.obtain, findAttached] at hc
      cases ha : (ofModules ms att).attached? path with
      | none => simp [ha, throw_apply] at hc
      | some c' =>
        simp only [ha] at hc
        obtain ⟨rfl, rfl⟩ := ok_inj.1 hc
        exact .attached ha hrest

private theorem breaks_of_mapM :
    ∀ (ps : List Part) (r : Resolution) (e : Error) (r' : Resolution),
      ps.mapM (·.obtain ⟨resolve, (ofModules ms att).findAttached⟩) r = .error e r' →
        Breaks ms att (fun ty r c r' => resolve ty r = .ok c r')
          (fun ty r e r' => resolve ty r = .error e r') ps r e r' := by
  intro ps
  induction ps with
  | nil =>
    intro r e r' h
    cases h
  | cons p ps ih =>
    intro r e r' h
    rw [List.mapM_cons] at h
    rcases bind_eq_error.1 h with hp | ⟨c, r₁, hc, h⟩
    · cases p with
      | resolved ty => exact .here hp
      | native kind => cases hp
      | attached path =>
        simp only [Part.obtain, findAttached] at hp
        cases ha : (ofModules ms att).attached? path with
        | none =>
          simp only [ha, throw_apply, EStateM.Result.error.injEq] at hp
          obtain ⟨rfl, rfl⟩ := hp
          exact .unknown ha
        | some c =>
          simp only [ha] at hp
          cases hp
    · rcases bind_eq_error.1 h with hps | ⟨cs, r₂, -, h⟩
      · have hrest := ih r₁ e r' hps
        cases p with
        | resolved ty => exact .resolved hc hrest
        | native kind =>
          obtain ⟨rfl, rfl⟩ := ok_inj.1 hc
          exact .native hrest
        | attached path =>
          simp only [Part.obtain, findAttached] at hc
          cases ha : (ofModules ms att).attached? path with
          | none => simp [ha, throw_apply] at hc
          | some c' =>
            simp only [ha] at hc
            obtain ⟨rfl, rfl⟩ := ok_inj.1 hc
            exact .attached ha hrest
      · cases h

/-! ### Whole runs -/

private theorem create_ok {ty : TypeRef} {c : Converter} {r r' : Resolution}
    (h : ResolveM.leaving ((ofModules ms att).create resolve ty) r = .ok c r') :
    ∃ p cs r₁ tallies, recipe? ms ty = some p ∧
      Obtains ms att (fun ty r c r' => resolve ty r = .ok c r') p.parts r cs r₁ ∧
      p.Counts r₁ tallies ∧ c = p.assemble r₁.store.nextId cs ∧ r' = r₁.built tallies := by
  rw [create_eq] at h
  cases hp : recipe? ms ty with
  | none => simp [hp, ResolveM.leaving, bind_of_ok (get_apply _), throw_apply] at h
  | some p =>
    simp only [hp, ResolveM.leaving] at h
    split at h
    · next c₂ r₃ hbuild =>
      obtain ⟨rfl, rfl⟩ := ok_inj.1 h
      obtain ⟨cs, r₁, hparts, hrest⟩ := bind_eq_ok.1 hbuild
      obtain ⟨tallies, hcount⟩ := p.exists_counts r₁
      rw [bind_of_ok hcount, bind_of_ok (ResolveM.fresh_apply _)] at hrest
      obtain ⟨rfl, rfl⟩ := ok_inj.1 hrest
      exact ⟨p, cs, r₁, tallies, rfl, obtains_of_mapM _ _ _ _ hparts, hcount, rfl, rfl⟩
    · cases h

/-- What a failed construction leaves: the type is left unless the construction broke off. -/
def leave (e : Error) (r : Resolution) : Resolution := if e.breaksOff then r else r.exit

private theorem create_error {ty : TypeRef} {e : Error} {r r' : Resolution}
    (h : ResolveM.leaving ((ofModules ms att).create resolve ty) r = .error e r') :
    (recipe? ms ty = none ∧ e = .unsupportedType ty r.context.trace ∧ r' = r.exit) ∨
      ∃ p r₁, recipe? ms ty = some p ∧ r' = leave e r₁ ∧
        Breaks ms att (fun ty r c r' => resolve ty r = .ok c r') (fun ty r e r' => resolve ty r = .error e r') p.parts
          r e r₁ := by
  rw [create_eq] at h
  cases hp : recipe? ms ty with
  | none =>
    simp only [hp, ResolveM.leaving, bind_of_ok (get_apply _), throw_apply, EStateM.Result.error.injEq] at h
    obtain ⟨rfl, rfl⟩ := h
    exact .inl ⟨rfl, rfl, rfl⟩
  | some p =>
    simp only [hp, ResolveM.leaving] at h
    split at h
    · cases h
    · next e₂ r₃ hbuild =>
      simp only [EStateM.Result.error.injEq] at h
      obtain ⟨rfl, rfl⟩ := h
      rcases bind_eq_error.1 hbuild with hparts | ⟨cs, r₁, -, hrest⟩
      · exact .inr ⟨p, r₃, rfl, rfl, breaks_of_mapM _ _ _ _ hparts⟩
      · obtain ⟨tallies, hcount⟩ := p.exists_counts r₁
        rw [bind_of_ok hcount, bind_of_ok (ResolveM.fresh_apply _)] at hrest
        cases hrest

/-- All that a successful resolution can do. -/
theorem resolveIn_ok {fuel : Nat} {ty : TypeRef} {c : Converter} {r r' : Resolution}
    (h : (ofModules ms att).resolveIn (fuel + 1) ty r = .ok c r') :
    (known? r ty = some c ∧ r' = r) ∨
      ∃ p cs r₁ tallies, known? r ty = none ∧ recipe? ms ty = some p ∧
        Obtains ms att (fun ty r c r' => (ofModules ms att).resolveIn fuel ty r = .ok c r') p.parts
          (r.enter ty) cs r₁ ∧
        r₁.store.delegates.find? r.store.nextId = none ∧ p.Counts r₁ tallies ∧ c = p.assemble r₁.store.nextId cs ∧
        r' = r₁.finish r.store.nextId ty c tallies := by
  rw [resolveIn, bind_of_ok (get_apply r)] at h
  cases hk : known? r ty with
  | some c' =>
    simp only [hk] at h
    obtain ⟨rfl, rfl⟩ := ok_inj.1 h
    exact .inl ⟨rfl, rfl⟩
  | none =>
    simp only [hk] at h
    rw [bind_of_ok (ResolveM.enter_apply ty r)] at h
    obtain ⟨c₁, r₁, hcreate, hrest⟩ := bind_eq_ok.1 h
    obtain ⟨_, r₂, hcomplete, hrest⟩ := bind_eq_ok.1 hrest
    obtain ⟨rfl, rfl⟩ := ok_inj.1 hrest
    obtain ⟨p, cs, r₃, tallies, hp, hcs, hcount, rfl, rfl⟩ := create_ok hcreate
    obtain ⟨hnone, rfl⟩ := ResolveM.complete_ok hcomplete
    exact .inr ⟨p, cs, r₃, tallies, rfl, hp, hcs, hnone, hcount, rfl, rfl⟩

/-- All that a failing resolution can do. -/
theorem resolveIn_error {fuel : Nat} {ty : TypeRef} {e : Error} {r r' : Resolution}
    (h : (ofModules ms att).resolveIn (fuel + 1) ty r = .error e r') :
    known? r ty = none ∧
      ((recipe? ms ty = none ∧ e = .unsupportedType ty (r.enter ty).context.trace ∧ r' = (r.enter ty).exit) ∨
        (∃ p r₁, recipe? ms ty = some p ∧ r' = leave e r₁ ∧
          Breaks ms att (fun ty r c r' => (ofModules ms att).resolveIn fuel ty r = .ok c r')
            (fun ty r e r' => (ofModules ms att).resolveIn fuel ty r = .error e r') p.parts (r.enter ty) e r₁) ∨
        (∃ p cs r₁ tallies, recipe? ms ty = some p ∧ r' = r₁.built tallies ∧
          Obtains ms att (fun ty r c r' => (ofModules ms att).resolveIn fuel ty r = .ok c r') p.parts
            (r.enter ty) cs r₁ ∧
          r₁.store.delegates.find? r.store.nextId ≠ none ∧ e = .violation (.doubleBind ty))) := by
  rw [resolveIn, bind_of_ok (get_apply r)] at h
  cases hk : known? r ty with
  | some c' =>
    simp only [hk] at h
    cases h
  | none =>
    simp only [hk] at h
    rw [bind_of_ok (ResolveM.enter_apply ty r)] at h
    refine ⟨rfl, ?_⟩
    rcases bind_eq_error.1 h with hcreate | ⟨c₁, r₁, hcreate, hrest⟩
    · rcases create_error hcreate with hn | ⟨p, r₁, hp, hr, hb⟩
      · exact .inl hn
      · exact .inr (.inl ⟨p, r₁, hp, hr, hb⟩)
    · obtain ⟨p, cs, r₂, tallies, hp, hcs, -, rfl, rfl⟩ := create_ok hcreate
      rcases bind_eq_error.1 hrest with hcomplete | ⟨_, r₃, -, hrest⟩
      · obtain ⟨hbound, rfl, rfl⟩ := ResolveM.complete_error hcomplete
        exact .inr (.inr ⟨p, cs, r₂, tallies, hp, rfl, hcs, hbound, rfl⟩)
      · cases hrest

/-! The same in the other direction: what a resolution comes to -/

theorem resolveIn_of_known {reg : Registry} {ty : TypeRef} {c : Converter} {r : Resolution}
    (hk : known? r ty = some c) (fuel : Nat) : reg.resolveIn (fuel + 1) ty r = .ok c r := by
  rw [resolveIn, bind_of_ok (get_apply r)]
  simp only [hk]
  rfl

theorem resolveIn_of_unsupported {ty : TypeRef} {r : Resolution} (hk : known? r ty = none) (hp : recipe? ms ty = none)
    (fuel : Nat) : (ofModules ms att).resolveIn (fuel + 1) ty r =
      .error (.unsupportedType ty (r.enter ty).context.trace) (r.enter ty).exit := by
  rw [resolveIn, bind_of_ok (get_apply r)]
  simp only [hk]
  rw [bind_of_ok (ResolveM.enter_apply ty r)]
  refine bind_of_error ?_
  simp only [ResolveM.leaving, create_eq, hp, bind_of_ok (get_apply _), throw_apply]
  rfl

theorem resolveIn_of_breaks {ty : TypeRef} {p : Recipe} {e : Error} {r r₁ : Resolution} {fuel : Nat}
    (hk : known? r ty = none) (hp : recipe? ms ty = some p)
    (hparts : p.parts.mapM (·.obtain ((ofModules ms att).resolver fuel)) (r.enter ty) = .error e r₁) :
    (ofModules ms att).resolveIn (fuel + 1) ty r = .error e (leave e r₁) := by
  rw [resolveIn, bind_of_ok (get_apply r)]
  simp only [hk]
  rw [bind_of_ok (ResolveM.enter_apply ty r)]
  refine bind_of_error ?_
  have hbuild : p.build ((ofModules ms att).resolver fuel) (r.enter ty) = .error e r₁ := bind_of_error hparts
  simp only [resolver] at hbuild
  simp only [ResolveM.leaving, create_eq, hp, hbuild]
  rfl

/-- In any registry: a construction that succeeds is concluded, if the number of the placeholder is free still. -/
theorem resolveIn_of_creates {reg : Registry} {ty : TypeRef} {c : Converter} {r r₁ : Resolution} {fuel : Nat}
    (hk : known? r ty = none) (hcreate : reg.create (reg.resolveIn fuel) ty (r.enter ty) = .ok c r₁)
    (hnone : r₁.store.delegates.find? r.store.nextId = none) :
    reg.resolveIn (fuel + 1) ty r = .ok c (r₁.conclude r.store.nextId ty c) := by
  rw [resolveIn, bind_of_ok (get_apply r)]
  simp only [hk]
  rw [bind_of_ok (ResolveM.enter_apply ty r)]
  have hleaving : ResolveM.leaving (reg.create (reg.resolveIn fuel) ty) (r.enter ty) = .ok c r₁.exit := by
    simp only [ResolveM.leaving, hcreate]
    rfl
  rw [bind_of_ok hleaving]
  have hcomplete : ResolveM.complete r.store.nextId ty c r₁.exit = .ok ⟨⟩ (r₁.conclude r.store.nextId ty c) := by
    have hfree : r₁.exit.store.delegates.find? r.store.nextId = none := hnone
    simp only [ResolveM.complete, bind_of_ok (get_apply _), Delegates.bind, hfree, set_apply]
    rfl
  rw [bind_of_ok hcomplete]
  rfl

theorem resolveIn_of_obtains {ty : TypeRef} {p : Recipe} {cs : List Converter} {r r₁ : Resolution}
    {tallies : List (Nat × Tally)} {fuel : Nat} (hk : known? r ty = none) (hp : recipe? ms ty = some p)
    (hparts : p.parts.mapM (·.obtain ((ofModules ms att).resolver fuel)) (r.enter ty) = .ok cs r₁)
    (hcount : p.Counts r₁ tallies) (hnone : r₁.store.delegates.find? r.store.nextId = none) :
    (ofModules ms att).resolveIn (fuel + 1) ty r =
      .ok (p.assemble r₁.store.nextId cs) (r₁.finish r.store.nextId ty (p.assemble r₁.store.nextId cs) tallies) := by
  have hbuild : p.build ((ofModules ms att).resolver fuel) (r.enter ty) =
      .ok (p.assemble r₁.store.nextId cs)
        { r₁ with store := { r₁.store with nextId := r₁.store.nextId + 1, tallies } } := by
    unfold Recipe.build
    rw [bind_of_ok hparts, bind_of_ok hcount, bind_of_ok (ResolveM.fresh_apply _)]
    rfl
  have hcreate : (ofModules ms att).create ((ofModules ms att).resolveIn fuel) ty (r.enter ty) =
      .ok (p.assemble r₁.store.nextId cs)
        { r₁ with store := { r₁.store with nextId := r₁.store.nextId + 1, tallies } } := by
    rw [create_eq, hp]
    exact hbuild
  exact resolveIn_of_creates hk hcreate hnone

/-- Induction over successful resolutions. -/
theorem resolveIn_induction (Q : TypeRef → Resolution → Converter → Resolution → Prop)
    (hknown : ∀ ty r c, known? r ty = some c → Q ty r c r)
    (hbuilt : ∀ ty r p cs r₁ tallies, known? r ty = none → recipe? ms ty = some p →
      Obtains ms att Q p.parts (r.enter ty) cs r₁ → r₁.store.delegates.find? r.store.nextId = none →
      p.Counts r₁ tallies → Q ty r (p.assemble r₁.store.nextId cs)
        (r₁.finish r.store.nextId ty (p.assemble r₁.store.nextId cs) tallies)) :
    ∀ (fuel : Nat) (ty : TypeRef) (r : Resolution) (c : Converter) (r' : Resolution),
      (ofModules ms att).resolveIn fuel ty r = .ok c r' → Q ty r c r' := by
  intro fuel
  induction fuel with
  | zero =>
    intro ty r c r' h
    cases h
  | succ fuel ih =>
    intro ty r c r' h
    rcases resolveIn_ok h with ⟨hk, rfl⟩ | ⟨p, cs, r₁, tallies, hk, hp, hcs, hnone, hcount, rfl, rfl⟩
    · exact hknown ty r' c hk
    · exact hbuilt ty r p cs r₁ tallies hk hp (hcs.mono ih) hnone hcount

/-- Induction over failing resolutions; `Q` holds of the successful ones on the way. -/
theorem resolveIn_error_induction (Q : TypeRef → Resolution → Converter → Resolution → Prop)
    (F : TypeRef → Resolution → Error → Resolution → Prop)
    (hQ : ∀ fuel ty r c r', (ofModules ms att).resolveIn fuel ty r = .ok c r' → Q ty r c r')
    (hfuel : ∀ ty r, F ty r .outOfFuel r)
    (hunknown : ∀ ty r, known? r ty = none → recipe? ms ty = none →
      F ty r (.unsupportedType ty (r.enter ty).context.trace) (r.enter ty).exit)
    (hbreaks : ∀ ty r p e r₁, known? r ty = none → recipe? ms ty = some p →
      Breaks ms att Q F p.parts (r.enter ty) e r₁ → F ty r e (leave e r₁))
    (hbound : ∀ ty r p cs r₁ tallies, known? r ty = none → recipe? ms ty = some p →
      Obtains ms att Q p.parts (r.enter ty) cs r₁ → r₁.store.delegates.find? r.store.nextId ≠ none →
      F ty r (.violation (.doubleBind ty)) (r₁.built tallies)) :
    ∀ (fuel : Nat) (ty : TypeRef) (r : Resolution) (e : Error) (r' : Resolution),
      (ofModules ms att).resolveIn fuel ty r = .error e r' → F ty r e r' := by
  intro fuel
  induction fuel with
  | zero =>
    intro ty r e r' h
    cases h
    exact hfuel ty r
  | succ fuel ih =>
    intro ty r e r' h
    obtain ⟨hk, ⟨hp, rfl, rfl⟩ | ⟨p, r₁, hp, rfl, hb⟩ | ⟨p, cs, r₁, tallies, hp, rfl, hcs, hnone, rfl⟩⟩ :=
      resolveIn_error h
    · exact hunknown ty r hk hp
    · exact hbreaks ty r p e r₁ hk hp (hb.mono (hQ fuel) ih)
    · exact hbound ty r p cs r₁ tallies hk hp (hcs.mono (hQ fuel)) hnone

/-! ### What a resolution leaves alone -/

/-- What a resolution leaves alone, failing or not: the cache and what was bound before. -/
structure Keeps (r r' : Resolution) : Prop where
  cache : r'.store.cache = r.store.cache
  alive : r'.store.alive = r.store.alive
  nextId : r.store.nextId ≤ r'.store.nextId
  delegates : ∀ id < r.store.nextId, r'.store.delegates.find? id = r.store.delegates.find? id

/-- A successful resolution also leaves the types under construction alone and finishes more types at most. -/
structure Extends (r r' : Resolution) : Prop extends Keeps r r' where
  inFlight : r'.context.inFlight = r.context.inFlight
  pending : r.context.pending <+: r'.context.pending

private theorem Keeps.refl (r : Resolution) : Keeps r r := ⟨rfl, rfl, Nat.le_refl _, fun _ _ => rfl⟩

private theorem Keeps.trans {r₁ r₂ r₃ : Resolution} (h : Keeps r₁ r₂) (h' : Keeps r₂ r₃) : Keeps r₁ r₃ where
  cache := h'.cache.trans h.cache
  alive := h'.alive.trans h.alive
  nextId := Nat.le_trans h.nextId h'.nextId
  delegates id hid := (h'.delegates id (Nat.lt_of_lt_of_le hid h.nextId)).trans (h.delegates id hid)

theorem Extends.refl (r : Resolution) : Extends r r := ⟨.refl r, rfl, List.prefix_rfl⟩

theorem Extends.trans {r₁ r₂ r₃ : Resolution} (h : Extends r₁ r₂) (h' : Extends r₂ r₃) : Extends r₁ r₃ where
  toKeeps := h.toKeeps.trans h'.toKeeps
  inFlight := h'.inFlight.trans h.inFlight
  pending := h.pending.trans h'.pending

theorem extends_allot (r : Resolution) : Extends r r.allot :=
  ⟨⟨rfl, rfl, Nat.le_succ _, fun _ _ => rfl⟩, rfl, List.prefix_rfl⟩

private theorem keeps_enter (r : Resolution) (ty : TypeRef) : Keeps r (r.enter ty) :=
  ⟨rfl, rfl, Nat.le_succ _, fun _ _ => rfl⟩

theorem Obtains.extends {ps : List Part} {cs : List Converter} {r r' : Resolution}
    (h : Obtains ms att (fun _ r _ r' => Extends r r') ps r cs r') : Extends r r' := by
  induction h with
  | nil r => exact .refl r
  | resolved hc _ ih => exact hc.trans ih
  | native _ ih => exact (extends_allot _).trans ih
  | attached _ _ ih => exact ih

private theorem Breaks.keeps {ps : List Part} {e : Error} {r r' : Resolution}
    (h : Breaks ms att (fun _ r _ r' => Extends r r') (fun _ r _ r' => Keeps r r') ps r e r') : Keeps r r' := by
  induction h with
  | here he => exact he
  | unknown => exact .refl _
  | resolved hc _ ih => exact hc.toKeeps.trans ih
  | native _ ih => exact (extends_allot _).toKeeps.trans ih
  | attached _ _ ih => exact ih

theorem extends_conclude {r r₁ : Resolution} {ty : TypeRef} (h : Extends (r.enter ty) r₁) (c : Converter) :
    Extends r (r₁.conclude r.store.nextId ty c) where
  cache := h.cache
  alive := h.alive
  nextId := Nat.le_of_succ_le h.nextId
  delegates id hid := by
    have hne : (id == r.store.nextId) = false := by
      rw [beq_eq_false_iff_ne]
      omega
    have hold : r₁.store.delegates.find? id = r.store.delegates.find? id := h.delegates id (Nat.lt_succ_of_lt hid)
    rw [← hold]
    simp [Resolution.conclude, Delegates.find?, List.lookup_cons, hne]
  inFlight := by
    show r₁.context.inFlight.tail = _
    rw [h.inFlight]
    rfl
  pending := h.pending.trans (List.prefix_append _ _)

theorem extends_finish {r r₁ : Resolution} {ty : TypeRef} (h : Extends (r.enter ty) r₁) (c : Converter)
    (tallies : List (Nat × Tally)) : Extends r (r₁.finish r.store.nextId ty c tallies) := by
  -- the converter was given a number and counted before the construction was concluded
  have hbuilt : Extends r₁ { r₁ with store := { r₁.store with nextId := r₁.store.nextId + 1, tallies } } :=
    ⟨⟨rfl, rfl, Nat.le_succ _, fun _ _ => rfl⟩, rfl, List.prefix_rfl⟩
  exact extends_conclude (h.trans hbuilt) c

private theorem keeps_leave (e : Error) (r : Resolution) : Keeps r (leave e r) := by
  unfold leave
  split
  · exact .refl r
  · exact ⟨rfl, rfl, Nat.le_refl _, fun _ _ => rfl⟩

theorem extends_of_resolveIn {fuel : Nat} {ty : TypeRef} {c : Converter} {r r' : Resolution}
    (h : (ofModules ms att).resolveIn fuel ty r = .ok c r') : Extends r r' := by
  refine resolveIn_induction (fun _ r _ r' => Extends r r') (fun _ r _ _ => .refl r) ?_ fuel ty r c r' h
  intro ty r p cs r₁ tallies _ _ hcs _ _
  exact extends_finish hcs.extends _ tallies

theorem keeps_of_resolveIn {fuel : Nat} {ty : TypeRef} {e : Error} {r r' : Resolution}
    (h : (ofModules ms att).resolveIn fuel ty r = .error e r') : Keeps r r' := by
  refine resolveIn_error_induction (fun _ r _ r' => Extends r r') (fun _ r _ r' => Keeps r r')
    (fun _ _ _ _ _ hok => extends_of_resolveIn hok) (fun _ r => .refl r) ?_ ?_ ?_ fuel ty r e r' h
  · intro ty r _ _
    exact ⟨rfl, rfl, Nat.le_succ _, fun _ _ => rfl⟩
  · intro ty r p e r₁ _ _ hb
    exact (keeps_enter r ty).trans (hb.keeps.trans (keeps_leave e r₁))
  · intro ty r p cs r₁ tallies _ _ hcs _
    have hbuilt : Keeps r₁ (r₁.built tallies) := ⟨rfl, rfl, Nat.le_succ _, fun _ _ => rfl⟩
    exact (keeps_enter r ty).trans (hcs.extends.toKeeps.trans hbuilt)

/-! ### Resolutions from outside -/

/-- Caches what a resolution has finished. -/
def commitAll (s : Store) (entries : List (TypeRef × Converter)) : Store := entries.foldl Store.commit s

theorem cached?_commitAll (entries : List (TypeRef × Converter)) :
    ∀ (s : Store) (ty : TypeRef), (commitAll s entries).cached? ty = (s.cached? ty).or (entries.lookup ty) := by
  induction entries with
  | nil => simp [commitAll]
  | cons entry entries ih =>
    intro s ty
    obtain ⟨t, c⟩ := entry
    have hone : (s.commit (t, c)).cached? ty = (s.cached? ty).or (List.lookup ty [(t, c)]) := by
      unfold Store.commit Store.cached? Table.enter
      cases ht : s.cache.get? t with
      | some c' =>
        by_cases hty : ty = t
        · subst hty
          simp only [ht, Option.some_or]
        · simp [List.lookup_cons, beq_false_of_ne hty]
      | none => exact List.lookup_append
    show (commitAll (s.commit (t, c)) entries).cached? ty = _
    rw [ih, hone, Option.or_assoc, ← List.lookup_append]
    rfl

theorem commitAll_eq (entries : List (TypeRef × Converter)) :
    ∀ s : Store, ∃ cache, commitAll s entries = { s with cache } := by
  induction entries with
  | nil => exact fun s => ⟨s.cache, rfl⟩
  | cons entry entries ih =>
    intro s
    obtain ⟨cache, hcache⟩ := ih (s.commit entry)
    exact ⟨cache, hcache⟩

variable {reg : Registry}

theorem resolve_ok {fuel : Nat} {ty : TypeRef} {c : Converter} {s s' : Store} (h : reg.resolve fuel ty s = .ok c s') :
    (s.cached? ty = some c ∧ s' = s) ∨
      ∃ c₁ r, s.cached? ty = none ∧ reg.resolveIn fuel ty ⟨s, .empty⟩ = .ok c₁ r ∧
        s' = commitAll r.store r.context.pending ∧ c = (s'.cached? ty).getD c₁ := by
  unfold resolve at h
  cases hc : s.cached? ty with
  | some c' =>
    simp only [hc] at h
    obtain ⟨rfl, rfl⟩ := ok_inj.1 h
    exact .inl ⟨rfl, rfl⟩
  | none =>
    simp only [hc] at h
    cases hr : reg.resolveIn fuel ty ⟨s, .empty⟩ with
    | error e r => simp [hr] at h
    | ok c₁ r =>
      simp only [hr] at h
      obtain ⟨rfl, rfl⟩ := ok_inj.1 h
      exact .inr ⟨c₁, r, rfl, rfl, rfl, rfl⟩

theorem resolve_error {fuel : Nat} {ty : TypeRef} {e : Error} {s s' : Store}
    (h : reg.resolve fuel ty s = .error e s') :
    ∃ r, reg.resolveIn fuel ty ⟨s, .empty⟩ = .error e r ∧ s' = r.store := by
  unfold resolve at h
  cases hc : s.cached? ty with
  | some c' => simp [hc] at h
  | none =>
    simp only [hc] at h
    cases hr : reg.resolveIn fuel ty ⟨s, .empty⟩ with
    | ok c₁ r => simp [hr] at h
    | error e' r =>
      simp only [hr, EStateM.Result.error.injEq] at h
      obtain ⟨rfl, rfl⟩ := h
      exact ⟨r, rfl, rfl⟩

/-- A type that is resolved from scratch, given fuel, is resolved from outside. -/
theorem exists_resolve {ty : TypeRef} {s : Store}
    (h : ∃ n c r, ∀ fuel ≥ n, reg.resolveIn fuel ty ⟨s, .empty⟩ = .ok c r) :
    ∃ n c s', ∀ fuel ≥ n, reg.resolve fuel ty s = .ok c s' := by
  obtain ⟨n, c, r, hr⟩ := h
  cases hc : s.cached? ty with
  | some d => exact ⟨0, d, s, fun fuel _ => by simp only [resolve, hc]⟩
  | none =>
    have hrun (fuel : Nat) (hfuel : fuel ≥ n) : reg.resolve fuel ty s =
        .ok (((commitAll r.store r.context.pending).cached? ty).getD c) (commitAll r.store r.context.pending) := by
      simp only [resolve, hc, hr fuel hfuel]
      rfl
    exact ⟨n, _, _, hrun⟩

/-- What a registry leaves alone from one store to a later one: no number is given out twice, and what was bound stays
so. -/
structure Later (s s' : Store) : Prop where
  alive : s'.alive = s.alive
  nextId : s.nextId ≤ s'.nextId
  delegates : ∀ id < s.nextId, s'.delegates.find? id = s.delegates.find? id

theorem later_of_resolve {fuel : Nat} {ty : TypeRef} {c : Converter} {s s' : Store}
    (h : (ofModules ms att).resolve fuel ty s = .ok c s') : Later s s' := by
  rcases resolve_ok h with ⟨-, rfl⟩ | ⟨c₁, r, -, hr, rfl, -⟩
  · exact ⟨rfl, Nat.le_refl _, fun _ _ => rfl⟩
  · obtain ⟨cache, hcommit⟩ := commitAll_eq r.context.pending r.store
    have hkeeps := (extends_of_resolveIn hr).toKeeps
    rw [hcommit]
    exact ⟨hkeeps.alive, hkeeps.nextId, hkeeps.delegates⟩

theorem later_of_resolve_error {fuel : Nat} {ty : TypeRef} {e : Error} {s s' : Store}
    (h : (ofModules ms att).resolve fuel ty s = .error e s') : Later s s' := by
  obtain ⟨r, hr, rfl⟩ := resolve_error h
  have hkeeps := keeps_of_resolveIn hr
  exact ⟨hkeeps.alive, hkeeps.nextId, hkeeps.delegates⟩

end Registry

end Marshal
