import Marshal.Proofs.Adapter.Generated
import Marshal.Proofs.Converter.Writing

/-!
# The bookkeeping of a registry

A placeholder gets into other converters before the converter that it stands for is there.  While a resolution is
under way every placeholder that was given out is bound or belongs to a type under construction (`Consistent`), and
none is bound twice.  After a successful resolution no type is under construction any more, so all of them are bound;
after a failure the cache is as it was, and whatever was built is out of reach.  No converter that a registry gives
out ever raises a violation (`no_violation`).
-/

namespace Marshal

open Effect

/-! ### Safe converters -/

namespace Converter

/-- A converter that refers only to bindings that it holds, whose placeholders satisfy `P`, and whose custom parts
raise no violation. -/
inductive Safe (P : Nat → TypeRef → Prop) : Converter → Prop
  | native (id : Nat) (kind : NativeKind) : Safe P (.native id kind)
  | dynamic (id : Nat) (linked : Bool) : Safe P (.dynamic id linked)
  | enum (id : Nat) (a : EnumAdapter) : Safe P (.enum id a)
  | codec {id : Nat} {c : Codec} {bs : List Converter} (hrange : ∀ i ∈ c.indices, i < bs.length)
    (hbs : ∀ b ∈ bs, Safe P b) : Safe P (.codec id c bs)
  | struct {id : Nat} {a : StructAdapter} {target : TypeRef} {bs : List Converter} {linked : Bool}
    (hrange : ∀ i ∈ a.indices, i < bs.length) (hbs : ∀ b ∈ bs, Safe P b) : Safe P (.struct id a target bs linked)
  | placeholder {id : Nat} {ty : TypeRef} (h : P id ty) : Safe P (.placeholder id ty)
  | custom {id : Nat} {c : Custom} (hread : Mild c.read) (hwrite : ∀ v, Mild (c.write v)) : Safe P (.custom id c)

/-- A converter without placeholders that raises no violation of its own. -/
def Harmless (c : Converter) : Prop := Safe (fun _ _ => False) c

private theorem Safe.mono {P P' : Nat → TypeRef → Prop} (hP : ∀ id ty, P id ty → P' id ty) {c : Converter}
    (h : Safe P c) : Safe P' c := by
  induction h with
  | native id kind => exact .native id kind
  | dynamic id linked => exact .dynamic id linked
  | enum id a => exact .enum id a
  | codec hrange _ ih => exact .codec hrange ih
  | struct hrange _ ih => exact .struct hrange ih
  | placeholder h => exact .placeholder (hP _ _ h)
  | custom hread hwrite => exact .custom hread hwrite

private theorem Safe.of_mem_bindings {P : Nat → TypeRef → Prop} {b c : Converter} (h : Safe P c)
    (hb : b ∈ c.bindings) : Safe P b := by
  cases h with
  | codec _ hbs => exact hbs b hb
  | struct _ hbs => exact hbs b hb
  | _ => cases hb

private theorem Safe.lt_length {P : Nat → TypeRef → Prop} {c : Converter} (h : Safe P c) :
    ∀ i ∈ c.indices, i < c.bindings.length := by
  cases h with
  | codec hrange _ => exact hrange
  | struct hrange _ => exact hrange
  | _ => simp [indices]

/-- Reading with a safe converter raises no violation if its placeholders are bound to safe converters. -/
theorem mild_read {P : Nat → TypeRef → Prop} {ds : Delegates}
    (hds : ∀ id ty, P id ty → ∃ c, ds.find? id = some c ∧ Safe P c) :
    ∀ (fuel : Nat) (c : Converter), Safe P c → Mild (c.read ds fuel) := by
  intro fuel
  induction fuel with
  | zero => exact fun c _ => raises_throw rfl
  | succ fuel ih =>
    intro c hc
    have hcall : ∀ i ∈ c.indices, Mild (callBinding (read ds fuel) c.bindings i) := by
      intro i hi
      have hlt := hc.lt_length i hi
      rw [callBinding, List.getElem?_eq_getElem hlt]
      exact ih _ (hc.of_mem_bindings (List.getElem_mem hlt))
    cases hc with
    | native id kind => exact kind.mild_read
    | dynamic id linked => exact mild_readAny
    | enum id a => exact a.mild_read
    | @codec id k bs hrange hbs => exact k.mild_readWith hcall
    | @struct id a target bs linked hrange hbs =>
      refine ReadProcedure.mild_read (fun f hf i hi => hcall i ?_) target
      exact List.mem_append_right _ (List.mem_flatMap.2 ⟨f, hf, hi⟩)
    | @placeholder id ty h =>
      obtain ⟨d, hd, hsafe⟩ := hds id ty h
      simp only [read, hd]
      exact ih d hsafe
    | custom hread _ => exact hread

/-- The converters that come into play when a converter is used. -/
inductive Reaches (ds : Delegates) : Converter → Converter → Prop
  | refl (c : Converter) : Reaches ds c c
  | binding {c b x : Converter} (hb : b ∈ c.bindings) (h : Reaches ds b x) : Reaches ds c x
  | delegate {id : Nat} {ty : TypeRef} {c x : Converter} (hc : ds.find? id = some c) (h : Reaches ds c x) :
    Reaches ds (.placeholder id ty) x

/-- What a safe converter comes to is safe, as far as its placeholders are bound. -/
theorem Safe.of_reaches_bound {P : Nat → TypeRef → Prop} {ds : Delegates}
    (hds : ∀ id ty c, P id ty → ds.find? id = some c → Safe P c) {c x : Converter} (h : Reaches ds c x)
    (hc : Safe P c) : Safe P x := by
  induction h with
  | refl c => exact hc
  | binding hb _ ih => exact ih (hc.of_mem_bindings hb)
  | delegate hd _ ih =>
    cases hc with
    | placeholder hp => exact ih (hds _ _ _ hp hd)

private theorem Safe.of_reaches {P : Nat → TypeRef → Prop} {ds : Delegates}
    (hds : ∀ id ty, P id ty → ∃ c, ds.find? id = some c ∧ Safe P c) {c x : Converter} (h : Reaches ds c x)
    (hc : Safe P c) : Safe P x := by
  refine hc.of_reaches_bound (fun id ty d hp hd => ?_) h
  obtain ⟨d', hd', hsafe⟩ := hds id ty hp
  obtain rfl := Option.some.inj (hd.symm.trans hd')
  exact hsafe

end Converter

namespace Registry

variable {ms : List AdapterModule} {att : List (String × Converter)} {P P' : Nat → TypeRef → Prop}

/-! ### Converters of types -/

/-- The converter of a type: a placeholder that satisfies `P`, or built by the recipe of the type from converters of
its parts. -/
inductive Stands (ms : List AdapterModule) (att : List (String × Converter)) (P : Nat → TypeRef → Prop) :
    TypeRef → Converter → Prop
  | placeholder {id : Nat} {ty : TypeRef} (h : P id ty) : Stands ms att P ty (.placeholder id ty)
  | built {ty : TypeRef} {p : Recipe} (id : Nat) {cs : List Converter} (hp : recipe? ms ty = some p)
    (hlen : p.parts.length = cs.length)
    (hresolved : ∀ (i : Nat) t c, p.parts[i]? = some (.resolved t) → cs[i]? = some c → Stands ms att P t c)
    (hnative : ∀ (i : Nat) kind c, p.parts[i]? = some (.native kind) → cs[i]? = some c → ∃ n, c = .native n kind)
    (hattached : ∀ (i : Nat) path c, p.parts[i]? = some (.attached path) → cs[i]? = some c →
      (ofModules ms att).attached? path = some c) :
    Stands ms att P ty (p.assemble id cs)

/-- A converter of a type that is no placeholder. -/
def Built (ms : List AdapterModule) (att : List (String × Converter)) (P : Nat → TypeRef → Prop) (ty : TypeRef)
    (c : Converter) : Prop := Stands ms att P ty c ∧ ∀ id t, c ≠ .placeholder id t

theorem Stands.mono (hP : ∀ id ty, P id ty → P' id ty) {ty : TypeRef} {c : Converter} (h : Stands ms att P ty c) :
    Stands ms att P' ty c := by
  induction h with
  | placeholder h => exact .placeholder (hP _ _ h)
  | built id hp hlen _ hnative hattached ih => exact .built id hp hlen ih hnative hattached

theorem Built.mono (hP : ∀ id ty, P id ty → P' id ty) {ty : TypeRef} {c : Converter} (h : Built ms att P ty c) :
    Built ms att P' ty c := ⟨h.1.mono hP, h.2⟩

/-- What a part of a recipe has become. -/
def IsPart (ms : List AdapterModule) (att : List (String × Converter)) (P : Nat → TypeRef → Prop) :
    Part → Converter → Prop
  | .resolved t, c => Stands ms att P t c
  | .native kind, c => ∃ n, c = .native n kind
  | .attached path, c => (ofModules ms att).attached? path = some c

theorem Stands.of_parts {ty : TypeRef} {p : Recipe} (id : Nat) {cs : List Converter} (hp : recipe? ms ty = some p)
    (hcs : List.Forall₂ (IsPart ms att P) p.parts cs) : Stands ms att P ty (p.assemble id cs) := by
  have hget {i : Nat} {part : Part} {c : Converter} (hpart : p.parts[i]? = some part) (hc : cs[i]? = some c) :
      IsPart ms att P part c := by
    refine (List.forall₂_iff_zip.1 hcs).2 (List.mem_of_getElem? (i := i) ?_)
    rw [List.getElem?_zip_eq_some]
    exact ⟨hpart, hc⟩
  exact .built id hp hcs.length_eq (fun _ _ _ hpart hc => hget hpart hc) (fun _ _ _ hpart hc => hget hpart hc)
    fun _ _ _ hpart hc => hget hpart hc

/-- A converter that is no placeholder is built by the recipe of its type. -/
theorem Built.exists_recipe {ty : TypeRef} {c : Converter} (h : Built ms att P ty c) :
    ∃ p id cs, recipe? ms ty = some p ∧ List.Forall₂ (IsPart ms att P) p.parts cs ∧ c = p.assemble id cs := by
  obtain ⟨hstands, hne⟩ := h
  cases hstands with
  | placeholder _ => exact absurd rfl (hne _ _)
  | @built _ p id cs hp hlen hresolved hnative hattached =>
    refine ⟨p, id, cs, hp, List.forall₂_iff_get.2 ⟨hlen, fun i hi hi' => ?_⟩, rfl⟩
    have hpart := List.getElem?_eq_getElem hi
    have hc := List.getElem?_eq_getElem hi'
    simp only [List.get_eq_getElem]
    cases hk : p.parts[i] with
    | resolved t => exact hresolved i t _ (hk ▸ hpart) hc
    | native kind => exact hnative i kind _ (hk ▸ hpart) hc
    | attached path => exact hattached i path _ (hk ▸ hpart) hc

theorem recipe?_eq_some {ty : TypeRef} {p : Recipe} (h : recipe? ms ty = some p) :
    (∃ slot, ∃ m ∈ ms, Source.moduleRecipe? slot m ty = some p) ∨ Source.standardRecipe? ty = some p := by
  unfold recipe? at h
  rcases Option.or_eq_some_iff.1 h with hm | ⟨-, hs⟩
  · obtain ⟨⟨m, slot⟩, hmem, hp⟩ := List.exists_of_findSome?_eq_some hm
    exact .inl ⟨slot, m, List.fst_mem_of_mem_zipIdx hmem, hp⟩
  · exact .inr hs

/-- A recipe of generated modules makes safe converters out of safe parts. -/
private theorem safe_assemble (hms : ∀ m ∈ ms, ∃ model : Model, model.Generates m) {ty : TypeRef} {p : Recipe}
    (hp : recipe? ms ty = some p) (id : Nat) {cs : List Converter} (hlen : p.parts.length = cs.length)
    (hcs : ∀ c ∈ cs, Converter.Safe P c) : Converter.Safe P (p.assemble id cs) := by
  rcases recipe?_eq_some hp with ⟨slot, m, hm, hp⟩ | hp
  · obtain ⟨model, accessor, options, hgen⟩ := hms m hm
    obtain ⟨hdispatch, hserves⟩ := Model.generateWith_ok hgen
    obtain ⟨path, args, a, -, ha, -, -, ⟨x, rfl, rfl⟩ | ⟨x, i, rfl, rfl⟩⟩ := Source.moduleRecipe?_eq_some hdispatch hp
    · obtain ⟨d, -, hd⟩ := hserves _ ha
      cases hd with
      | struct _ hx =>
        refine .struct (fun i hi => ?_) hcs
        have hlt := hx.lt_length i hi
        simp only [Recipe.parts, List.length_map] at hlen
        omega
    · exact .enum id x
  · unfold Source.standardRecipe? at hp
    by_cases hany : ty.isAny = true
    · rw [if_pos hany] at hp
      cases hp
      exact .dynamic id true
    rw [if_neg hany] at hp
    cases hs : ty.shape with
    | native kind =>
      simp only [hs, Option.some.injEq] at hp
      subst hp
      exact .native id kind
    | list element i =>
      simp only [hs, Option.some.injEq] at hp
      subst hp
      refine .codec (fun i hi => ?_) hcs
      simp only [Codec.indices, List.mem_singleton] at hi
      simp only [Recipe.parts, List.length_singleton] at hlen
      omega
    | map key value i =>
      simp only [hs] at hp
      cases hk : key.native?.filter (·.isKey) with
      | some kind =>
        simp only [hk, Option.some.injEq] at hp
        subst hp
        refine .codec (fun i hi => ?_) hcs
        simp only [Codec.indices, List.mem_singleton] at hi
        simp only [Recipe.parts, List.length_singleton] at hlen
        omega
      | none =>
        simp only [hk, Option.some.injEq] at hp
        subst hp
        refine .codec (fun i hi => ?_) hcs
        simp only [Codec.indices, List.mem_append, List.mem_singleton] at hi
        simp only [Recipe.parts, List.length_cons, List.length_nil] at hlen
        omega
    | other => simp [hs] at hp

theorem mem_of_attached? {path : String} {c : Converter} (h : (ofModules ms att).attached? path = some c) :
    ∃ p ∈ att, p.2 = c := by
  have hlookup : List.lookup path att.reverse = some c := h
  rw [List.lookup_eq_some_iff] at hlookup
  obtain ⟨l₁, l₂, heq, -⟩ := hlookup
  refine ⟨(path, c), ?_, rfl⟩
  rw [← List.mem_reverse, heq]
  simp

theorem Stands.safe (hms : ∀ m ∈ ms, ∃ model : Model, model.Generates m) (hatt : ∀ p ∈ att, p.2.Harmless)
    {ty : TypeRef} {c : Converter} (h : Stands ms att P ty c) : Converter.Safe P c := by
  induction h with
  | placeholder h => exact .placeholder h
  | @built ty p id cs hp hlen _ hnative hattached ih =>
    refine safe_assemble hms hp id hlen fun c hc => ?_
    obtain ⟨i, hi⟩ := List.getElem?_of_mem hc
    have hlt : i < p.parts.length := hlen ▸ (List.getElem?_eq_some_iff.1 hi).1
    have hpart := List.getElem?_eq_getElem hlt
    cases hk : p.parts[i] with
    | resolved t => exact ih i t c (hk ▸ hpart) hi
    | native kind =>
      obtain ⟨n, rfl⟩ := hnative i kind c (hk ▸ hpart) hi
      exact .native n kind
    | attached path =>
      obtain ⟨q, hq, rfl⟩ := mem_of_attached? (hattached i path c (hk ▸ hpart) hi)
      exact (hatt q hq).mono fun _ _ hfalse => hfalse.elim

/-! ### The invariant of a resolution -/

/-- The placeholder of a type of which `D` holds is neither bound nor that of a type under construction, so it will
never be bound. -/
def Lost (D : TypeRef → Prop) (r : Resolution) (id : Nat) (ty : TypeRef) : Prop :=
  D ty ∧ r.store.delegates.find? id = none ∧ ∀ e ∈ r.context.inFlight, e.2 ≠ .placeholder id e.1

/-- While a resolution is under way: `P` holds of the placeholders that were given out; each of them is bound or
stands for a type under construction, unless it was lost, and no number from `nextId` on is in use. -/
structure Consistent (ms : List AdapterModule) (att : List (String × Converter)) (D : TypeRef → Prop)
    (P : Nat → TypeRef → Prop) (r : Resolution) : Prop where
  bound : ∀ id ty, P id ty → (∃ c, r.store.delegates.find? id = some c ∧ Built ms att P ty c) ∨
    (ty, .placeholder id ty) ∈ r.context.inFlight ∨ Lost D r id ty
  given : ∀ id ty, P id ty → id < r.store.nextId
  flying : ∀ e ∈ r.context.inFlight, ∃ id, e.2 = .placeholder id e.1 ∧ P id e.1 ∧ r.store.delegates.find? id = none
  cached : ∀ ty c, r.store.cached? ty = some c → Built ms att P ty c
  pending : ∀ ty c, r.context.pending? ty = some c → Built ms att P ty c
  fresh : ∀ id, r.store.nextId ≤ id → r.store.delegates.find? id = none

namespace Consistent

variable {D : TypeRef → Prop} {r r₁ r' : Resolution} {ty : TypeRef}

private theorem stands_of_known (h : Consistent ms att D P r) {c : Converter} (hk : known? r ty = some c) :
    Stands ms att P ty c := by
  rcases Option.or_eq_some_iff.1 hk with hc | ⟨-, hrest⟩
  · exact (h.cached ty c hc).1
  · rcases Option.or_eq_some_iff.1 hrest with hp | ⟨-, hf⟩
    · exact (h.pending ty c hp).1
    · obtain ⟨l₁, l₂, heq, -⟩ := List.lookup_eq_some_iff.1 hf
      obtain ⟨id, hid, hP, -⟩ := h.flying (ty, c) (by rw [heq]; simp)
      exact (show c = .placeholder id ty from hid) ▸ .placeholder hP

theorem allot (h : Consistent ms att D P r) : Consistent ms att D P r.allot where
  bound := h.bound
  given id ty hP := Nat.lt_succ_of_lt (h.given id ty hP)
  flying := h.flying
  cached := h.cached
  pending := h.pending
  fresh id hid := h.fresh id (Nat.le_of_succ_le hid)

/-- The placeholders when the construction of a type has begun. -/
theorem enter (h : Consistent ms att D P r) (ty : TypeRef) :
    Consistent ms att D (fun id t => P id t ∨ (id = r.store.nextId ∧ t = ty)) (r.enter ty) where
  bound id t hP := by
    rcases hP with hP | ⟨rfl, rfl⟩
    · rcases h.bound id t hP with ⟨c, hc, hbuilt⟩ | hin | ⟨hD, hnone, hflight⟩
      · exact .inl ⟨c, hc, hbuilt.mono fun _ _ => .inl⟩
      · exact .inr (.inl (List.mem_cons_of_mem _ hin))
      · refine .inr (.inr ⟨hD, hnone, List.forall_mem_cons.2 ⟨?_, hflight⟩⟩)
        intro heq
        cases heq
        exact Nat.lt_irrefl _ (h.given _ t hP)
    · exact .inr (.inl (List.mem_cons_self ..))
  given id t hP := by
    rcases hP with hP | ⟨rfl, rfl⟩
    · exact Nat.lt_succ_of_lt (h.given id t hP)
    · exact Nat.lt_succ_self _
  flying e he := by
    rcases List.mem_cons.1 he with rfl | hin
    · exact ⟨r.store.nextId, rfl, .inr ⟨rfl, rfl⟩, h.fresh _ (Nat.le_refl _)⟩
    · obtain ⟨id, hid, hP, hnone⟩ := h.flying e hin
      exact ⟨id, hid, .inl hP, hnone⟩
  cached t c hc := (h.cached t c hc).mono fun _ _ => .inl
  pending t c hc := (h.pending t c hc).mono fun _ _ => .inl
  fresh id hid := h.fresh id (Nat.le_of_succ_le hid)

section Innermost

/-! The type `ty` was entered at `r`, and at `r₁` it is the innermost one still. -/

variable (h : Consistent ms att D P r) (h₁ : Consistent ms att D P' r₁)
  (hin : r₁.context.inFlight = (ty, .placeholder r.store.nextId ty) :: r.context.inFlight)

include h₁ hin in
theorem find?_innermost : r₁.store.delegates.find? r.store.nextId = none := by
  obtain ⟨id, hid, -, hnone⟩ := h₁.flying (ty, .placeholder r.store.nextId ty) (by rw [hin]; simp)
  cases hid
  exact hnone

include h₁ hin in
private theorem nextId_lt_innermost : r.store.nextId < r₁.store.nextId := by
  obtain ⟨id, hid, hP, -⟩ := h₁.flying (ty, .placeholder r.store.nextId ty) (by rw [hin]; simp)
  cases hid
  exact h₁.given _ _ hP

include h in
private theorem ne_innermost {e : TypeRef × Converter} (he : e ∈ r.context.inFlight) :
    e.2 ≠ .placeholder r.store.nextId e.1 := by
  obtain ⟨id, hid, hP, -⟩ := h.flying e he
  rw [hid]
  rintro heq
  cases heq
  exact Nat.lt_irrefl _ (h.given _ _ hP)

include h h₁ hin

/-- The placeholders when the converter of a type was built and takes the place of the innermost one. -/
private theorem finish {c : Converter} (hc : Built ms att P' ty c) (tallies : List (Nat × Tally)) :
    Consistent ms att D P' (r₁.finish r.store.nextId ty c tallies) := by
  have hself := find?_innermost h₁ hin
  have hlt := nextId_lt_innermost h₁ hin
  -- all other numbers are bound as before
  have hfind (id : Nat) (hne : id ≠ r.store.nextId) :
      (r₁.finish r.store.nextId ty c tallies).store.delegates.find? id = r₁.store.delegates.find? id := by
    show List.lookup id ((r.store.nextId, c) :: r₁.store.delegates) = _
    rw [List.lookup_cons, beq_false_of_ne hne]
    rfl
  have htail : (r₁.finish r.store.nextId ty c tallies).context.inFlight = r.context.inFlight := by
    show r₁.context.inFlight.tail = _
    rw [hin, List.tail_cons]
  constructor
  case bound =>
    intro id t hP
    by_cases hid : id = r.store.nextId
    · subst hid
      left
      refine ⟨c, by simp [Resolution.finish, Delegates.find?], ?_⟩
      rcases h₁.bound _ t hP with ⟨c', hc', -⟩ | hflight | ⟨-, -, hflight⟩
      · rw [hself] at hc'
        cases hc'
      · rw [hin] at hflight
        rcases List.mem_cons.1 hflight with heq | hold
        · cases heq
          exact hc
        · exact absurd rfl (h.ne_innermost hold)
      · exact absurd rfl (hflight (ty, .placeholder r.store.nextId ty) (by rw [hin]; simp))
    · rw [Lost, hfind id hid, htail]
      rcases h₁.bound id t hP with hb | hflight | ⟨hD, hnone, hflight⟩
      · exact .inl hb
      · rw [hin] at hflight
        rcases List.mem_cons.1 hflight with heq | hold
        · cases heq
          exact absurd rfl hid
        · exact .inr (.inl hold)
      · rw [hin] at hflight
        exact .inr (.inr ⟨hD, hnone, (List.forall_mem_cons.1 hflight).2⟩)
  case given => exact fun id t hP => Nat.lt_succ_of_lt (h₁.given id t hP)
  case flying =>
    intro e he
    rw [htail] at he
    obtain ⟨id, hid, hP, hnone⟩ := h₁.flying e (by rw [hin]; exact List.mem_cons_of_mem _ he)
    refine ⟨id, hid, hP, ?_⟩
    rw [hfind id fun heq => h.ne_innermost he (heq ▸ hid)]
    exact hnone
  case cached => exact h₁.cached
  case pending =>
    intro t c' hc'
    have hlookup : (r₁.context.pending? t).or (List.lookup t [(ty, c)]) = some c' :=
      (List.lookup_append (k := t)).symm.trans hc'
    rcases Option.or_eq_some_iff.1 hlookup with hold | ⟨-, hnew⟩
    · exact h₁.pending t c' hold
    · by_cases ht : t = ty
      · subst ht
        simp only [List.lookup_cons_self, Option.some.injEq] at hnew
        exact hnew ▸ hc
      · simp [List.lookup_cons, beq_false_of_ne ht] at hnew
  case fresh =>
    intro id hid
    have hid' : r₁.store.nextId + 1 ≤ id := hid
    rw [hfind id (by omega)]
    exact h₁.fresh id (by omega)

/-- The placeholders when the construction of the innermost type has failed. -/
theorem exit (hD : D ty) : Consistent ms att D P' r₁.exit := by
  have hself := find?_innermost h₁ hin
  have htail : r₁.exit.context.inFlight = r.context.inFlight := by
    show r₁.context.inFlight.tail = _
    rw [hin, List.tail_cons]
  constructor
  case bound =>
    intro id t hP
    rw [Lost, htail]
    rcases h₁.bound id t hP with hb | hflight | ⟨hDt, hnone, hflight⟩
    · exact .inl hb
    · rw [hin] at hflight
      rcases List.mem_cons.1 hflight with heq | hold
      · cases heq
        exact .inr (.inr ⟨hD, hself, fun e he => h.ne_innermost he⟩)
      · exact .inr (.inl hold)
    · rw [hin] at hflight
      exact .inr (.inr ⟨hDt, hnone, (List.forall_mem_cons.1 hflight).2⟩)
  case given => exact h₁.given
  case flying =>
    intro e he
    rw [htail] at he
    exact h₁.flying e (by rw [hin]; exact List.mem_cons_of_mem _ he)
  case cached => exact h₁.cached
  case pending => exact h₁.pending
  case fresh => exact h₁.fresh

end Innermost

end Consistent

/-! ### Runs -/

/-- What a successful resolution of a type keeps. -/
def Succeeds (ms : List AdapterModule) (att : List (String × Converter)) (ty : TypeRef) (r : Resolution)
    (c : Converter) (r' : Resolution) : Prop :=
  Extends r r' ∧ ∀ D P, Consistent ms att D P r →
    ∃ P', (∀ id t, P id t → P' id t) ∧ Consistent ms att D P' r' ∧ Stands ms att P' ty c

theorem Obtains.consistent {ps : List Part} {cs : List Converter} {r r' : Resolution}
    (h : Obtains ms att (Succeeds ms att) ps r cs r') : Extends r r' ∧ ∀ D P, Consistent ms att D P r →
      ∃ P', (∀ id t, P id t → P' id t) ∧ Consistent ms att D P' r' ∧ List.Forall₂ (IsPart ms att P') ps cs := by
  induction h with
  | nil r => exact ⟨.refl r, fun D P hr => ⟨P, fun _ _ => id, hr, .nil⟩⟩
  | resolved hc _ ih =>
    refine ⟨hc.1.trans ih.1, fun D P hr => ?_⟩
    obtain ⟨P₁, hP₁, hr₁, hstands⟩ := hc.2 D P hr
    obtain ⟨P', hP', hr', hrest⟩ := ih.2 D P₁ hr₁
    exact ⟨P', fun id t h => hP' id t (hP₁ id t h), hr', .cons (hstands.mono hP') hrest⟩
  | native _ ih =>
    refine ⟨(extends_allot _).trans ih.1, fun D P hr => ?_⟩
    obtain ⟨P', hP', hr', hrest⟩ := ih.2 D P hr.allot
    exact ⟨P', hP', hr', .cons ⟨_, rfl⟩ hrest⟩
  | attached hc _ ih =>
    refine ⟨ih.1, fun D P hr => ?_⟩
    obtain ⟨P', hP', hr', hrest⟩ := ih.2 D P hr
    exact ⟨P', hP', hr', .cons hc hrest⟩

theorem succeeds_of_resolveIn {fuel : Nat} {ty : TypeRef} {c : Converter} {r r' : Resolution}
    (h : (ofModules ms att).resolveIn fuel ty r = .ok c r') : Succeeds ms att ty r c r' := by
  refine resolveIn_induction (Succeeds ms att) ?_ ?_ fuel ty r c r' h
  · intro ty r c hk
    exact ⟨.refl r, fun D P hr => ⟨P, fun _ _ => id, hr, hr.stands_of_known hk⟩⟩
  · intro ty r p cs r₁ tallies _ hp hcs _ _
    obtain ⟨hext, hparts⟩ := Obtains.consistent hcs
    refine ⟨extends_finish hext _ tallies, fun D P hr => ?_⟩
    obtain ⟨P', hP', hr₁, hall⟩ := hparts D _ (hr.enter ty)
    have hbuilt : Built ms att P' ty (p.assemble r₁.store.nextId cs) :=
      ⟨.of_parts _ hp hall, p.assemble_ne_placeholder _ cs⟩
    exact ⟨P', fun id t h => hP' id t (.inl h), hr.finish hr₁ hext.inFlight hbuilt tallies, hbuilt.1⟩

/-- No number from `nextId` on is in use. -/
def Fresh (r : Resolution) : Prop := ∀ id, r.store.nextId ≤ id → r.store.delegates.find? id = none

/-- What a failing resolution keeps. -/
def Fails (ms : List AdapterModule) (att : List (String × Converter)) (r : Resolution) (e : Error) (r' : Resolution) :
    Prop := ∀ D P, Consistent ms att D P r → e.isViolation = false ∧ Fresh r'

private theorem Breaks.fails {ps : List Part} {e : Error} {r r' : Resolution}
    (h : Breaks ms att (Succeeds ms att) (fun _ r e r' => Fails ms att r e r') ps r e r') : Fails ms att r e r' := by
  induction h with
  | here he => exact he
  | unknown _ => exact fun D P hr => ⟨rfl, hr.fresh⟩
  | resolved hc _ ih =>
    intro D P hr
    obtain ⟨P₁, -, hr₁, -⟩ := hc.2 D P hr
    exact ih D P₁ hr₁
  | native _ ih => exact fun D P hr => ih D P hr.allot
  | attached _ _ ih => exact ih

/-- A failing resolution raises no violation: in particular no placeholder is bound twice. -/
private theorem fails_of_resolveIn {fuel : Nat} {ty : TypeRef} {e : Error} {r r' : Resolution}
    (h : (ofModules ms att).resolveIn fuel ty r = .error e r') : Fails ms att r e r' := by
  refine resolveIn_error_induction (Succeeds ms att) (fun _ r e r' => Fails ms att r e r')
    (fun _ _ _ _ _ => succeeds_of_resolveIn) ?_ ?_ ?_ ?_ fuel ty r e r' h
  · exact fun ty r D P hr => ⟨rfl, hr.fresh⟩
  · exact fun ty r _ _ D P hr => ⟨rfl, (hr.enter ty).fresh⟩
  · intro ty r p e r₁ _ _ hb D P hr
    obtain ⟨he, hfresh⟩ := Breaks.fails hb D _ (hr.enter ty)
    refine ⟨he, ?_⟩
    unfold leave
    by_cases hbreaks : e.breaksOff = true
    · rwa [if_pos hbreaks]
    · rwa [if_neg hbreaks]
  · intro ty r p cs r₁ tallies _ _ hcs hbound D P hr
    obtain ⟨hext, hparts⟩ := Obtains.consistent hcs
    obtain ⟨P', -, hr₁, -⟩ := hparts D _ (hr.enter ty)
    exact absurd (hr₁.find?_innermost hext.inFlight) hbound

/-! ### The invariant of a store -/

/-- Between resolutions: every placeholder of which `P` holds is bound, and what is cached is built. -/
structure Settled (ms : List AdapterModule) (att : List (String × Converter)) (P : Nat → TypeRef → Prop) (s : Store) :
    Prop where
  bound : ∀ id ty, P id ty → ∃ c, s.delegates.find? id = some c ∧ Built ms att P ty c
  cached : ∀ ty c, s.cached? ty = some c → Built ms att P ty c
  fresh : ∀ id, s.nextId ≤ id → s.delegates.find? id = none

namespace Settled

variable {s s' : Store} {fuel : Nat} {ty : TypeRef}

theorem empty : Settled ms att (fun _ _ => False) .empty where
  bound _ _ h := h.elim
  cached ty c h := by simp [Store.cached?, Store.empty, Table.get?] at h
  fresh _ _ := rfl

theorem consistent (h : Settled ms att P s) (D : TypeRef → Prop) : Consistent ms att D P ⟨s, .empty⟩ where
  bound id ty hP := .inl (h.bound id ty hP)
  given id ty hP := by
    obtain ⟨c, hc, -⟩ := h.bound id ty hP
    by_contra hle
    rw [h.fresh id (Nat.le_of_not_lt hle)] at hc
    cases hc
  flying e he := by cases he
  cached := h.cached
  pending ty c hc := by simp [Context.pending?, Context.empty] at hc
  fresh := h.fresh

/-- After a successful resolution all placeholders are bound, those that were given out on the way included. -/
theorem resolve (h : Settled ms att P s) {c : Converter} (hr : (ofModules ms att).resolve fuel ty s = .ok c s') :
    ∃ P', (∀ id t, P id t → P' id t) ∧ Settled ms att P' s' ∧ Stands ms att P' ty c := by
  rcases resolve_ok hr with ⟨hc, rfl⟩ | ⟨c₁, r, -, hin, rfl, rfl⟩
  · exact ⟨P, fun _ _ => id, h, (h.cached ty c hc).1⟩
  · obtain ⟨hext, hrun⟩ := succeeds_of_resolveIn hin
    obtain ⟨P', hP', hr', hstands⟩ := hrun _ P (h.consistent fun _ => False)
    obtain ⟨cache, hcommit⟩ := commitAll_eq r.context.pending r.store
    have hnone : r.context.inFlight = [] := hext.inFlight
    have hcached (t : TypeRef) (d : Converter) (hd : (commitAll r.store r.context.pending).cached? t = some d) :
        Built ms att P' t d := by
      rw [cached?_commitAll] at hd
      rcases Option.or_eq_some_iff.1 hd with hold | ⟨-, hnew⟩
      · exact hr'.cached t d hold
      · exact hr'.pending t d hnew
    have hsettled : Settled ms att P' (commitAll r.store r.context.pending) := by
      refine ⟨fun id t hid => ?_, hcached, ?_⟩
      · rcases hr'.bound id t hid with hb | hflight | hlost
        · simpa only [hcommit] using hb
        · rw [hnone] at hflight
          cases hflight
        · exact hlost.1.elim
      · simpa only [hcommit] using hr'.fresh
    refine ⟨P', hP', hsettled, ?_⟩
    cases hd : (commitAll r.store r.context.pending).cached? ty with
    | none => exact hstands
    | some d => exact (hcached ty d hd).1

/-- A failed resolution raises no violation and leaves what was bound and cached. -/
theorem resolve_error (h : Settled ms att P s) {e : Error} (hr : (ofModules ms att).resolve fuel ty s = .error e s') :
    e.isViolation = false ∧ Settled ms att P s' := by
  obtain ⟨r, hin, rfl⟩ := Registry.resolve_error hr
  obtain ⟨he, hfresh⟩ := fails_of_resolveIn hin _ P (h.consistent fun _ => False)
  have hkeeps := keeps_of_resolveIn hin
  refine ⟨he, fun id t hid => ?_, fun t c hc => ?_, hfresh⟩
  · obtain ⟨c, hc, hbuilt⟩ := h.bound id t hid
    have hlt : id < s.nextId := (h.consistent fun _ => False).given id t hid
    exact ⟨c, (hkeeps.delegates id hlt).trans hc, hbuilt⟩
  · refine h.cached t c ?_
    rwa [Store.cached?, hkeeps.cache] at hc

end Settled

variable (hms : ∀ m ∈ ms, ∃ model : Model, model.Generates m) (hatt : ∀ p ∈ att, p.2.Harmless)

include hms hatt

theorem Settled.safe_delegate {s : Store} (h : Settled ms att P s) :
    ∀ id ty, P id ty → ∃ c, s.delegates.find? id = some c ∧ Converter.Safe P c := by
  intro id ty hP
  obtain ⟨c, hc, hbuilt⟩ := h.bound id ty hP
  exact ⟨c, hc, hbuilt.1.safe hms hatt⟩

/-- Resolving and writing keep the store settled and the converters that are held safe, and raise no violation. -/
theorem frame_settled : Frame (ofModules ms att) (fun cs s => ∃ P, Settled ms att P s ∧ ∀ c ∈ cs, Converter.Safe P c)
    (fun e => e.isViolation = false) where
  mild _ he := he
  drop := by
    rintro c cs s ⟨P, hs, hcs⟩
    exact ⟨P, hs, fun c hc => hcs c (List.mem_cons_of_mem _ hc)⟩
  hold := by
    rintro c cs s hc ⟨P, hs, hcs⟩
    exact ⟨P, hs, List.forall_mem_cons.2 ⟨hcs c hc, hcs⟩⟩
  binding := by
    rintro b c cs s hb ⟨P, hs, hcs⟩
    exact ⟨P, hs, List.forall_mem_cons.2 ⟨(hcs c (List.mem_cons_self ..)).of_mem_bindings hb, hcs⟩⟩
  missing := by
    rintro c cs s i ⟨P, hs, hcs⟩ hi hnone
    have hlt := (hcs c (List.mem_cons_self ..)).lt_length i hi
    rw [List.getElem?_eq_getElem hlt] at hnone
    cases hnone
  delegate := by
    rintro id ty c cs s ⟨P, hs, hcs⟩ hc
    cases hcs _ (List.mem_cons_self ..) with
    | placeholder hP =>
      obtain ⟨d, hd, hsafe⟩ := hs.safe_delegate hms hatt id ty hP
      obtain rfl := Option.some.inj (hc.symm.trans hd)
      exact ⟨P, hs, List.forall_mem_cons.2 ⟨hsafe, hcs⟩⟩
  unset := by
    rintro id ty cs s ⟨P, hs, hcs⟩ hnone
    cases hcs _ (List.mem_cons_self ..) with
    | placeholder hP =>
      obtain ⟨d, hd, -⟩ := hs.bound id ty hP
      rw [hnone] at hd
      cases hd
  custom := by
    rintro id x cs s ⟨P, hs, hcs⟩ v w e w' hx
    cases hcs _ (List.mem_cons_self ..) with
    | custom _ hwrite => exact hwrite v w e w' hx
  resolved := by
    rintro fuel ty c cs s s' ⟨P, hs, hcs⟩ hr
    obtain ⟨P', hP', hs', hstands⟩ := hs.resolve hr
    refine ⟨P', hs', List.forall_mem_cons.2 ⟨hstands.safe hms hatt, fun c hc => ?_⟩⟩
    exact (hcs c hc).mono hP'
  failed := by
    rintro fuel ty e cs s s' ⟨P, hs, hcs⟩ hr
    obtain ⟨he, hs'⟩ := hs.resolve_error hr
    exact ⟨⟨P, hs', hcs⟩, he⟩

/-- However a registry of generated modules is used, no violation is raised: not by a resolution, and not by reading
or writing with a converter that was given out or is cached; and every placeholder that comes into play is bound to a
converter that is no placeholder. -/
theorem no_violation {s : Store} {cs : List Converter} (hrun : Run (ofModules ms att) s cs) :
    (∀ fuel ty e s', (ofModules ms att).resolve fuel ty s = .error e s' → e.isViolation = false) ∧
      ∀ c, (c ∈ cs ∨ ∃ ty, s.cached? ty = some c) →
        (∀ id ty, c.Reaches s.delegates (.placeholder id ty) →
          ∃ d, s.delegates.find? id = some d ∧ ∀ id' ty', d ≠ .placeholder id' ty') ∧
        (∀ fuel r e r', c.read s.delegates fuel r = .error e r' → e.isViolation = false) ∧
        ∀ fuel v w e w', w.store = s → c.write (ofModules ms att) fuel v w = .error e w' → e.isViolation = false := by
  have hframe := frame_settled hms hatt
  obtain ⟨P, hs, hcs⟩ := hframe.of_run ⟨_, .empty, by simp⟩ hrun
  refine ⟨fun fuel ty e s' hr => (hs.resolve_error hr).1, fun c hc => ?_⟩
  have hsafe : Converter.Safe P c := by
    rcases hc with hc | ⟨ty, hc⟩
    · exact hcs c hc
    · exact (hs.cached ty c hc).1.safe hms hatt
  refine ⟨fun id ty hreach => ?_, fun fuel => ?_, fun fuel v w e w' hw hwrite => ?_⟩
  · cases hsafe.of_reaches (hs.safe_delegate hms hatt) hreach with
    | placeholder hP =>
      obtain ⟨d, hd, hbuilt⟩ := hs.bound id ty hP
      exact ⟨d, hd, hbuilt.2⟩
  · exact Converter.mild_read (hs.safe_delegate hms hatt) fuel c hsafe
  · have hrespects := WriteM.respects_write hframe fuel c [] v w ⟨P, hw ▸ hs, by simpa using hsafe⟩
    rw [hwrite] at hrespects
    exact hrespects.2

omit hms hatt

/-! Two structures that hold each other, and an attached converter. -/

def ringModel : Model where
  types := [.plain "demo::A" (.structure [⟨"b", none, .named "demo::B" [], .none, none⟩]),
    .plain "demo::B" (.structure [⟨"a", none, .named "demo::A" [], .none, none⟩,
      ⟨"at", none, .named "i64" [], .none, some ⟨"demo::millis", true, .both⟩⟩])]
  subtypeAdapters := []
  paths_nodup := by decide

def ringModule : AdapterModule := (ringModel.generate .standard).toOption.getD default

def ringAttached : List (String × Converter) := [("demo::millis", .native 0 .i64)]

theorem no_violation_ring : ∃ c s, Run (ofModules [ringModule] ringAttached) s [c] ∧
    ∀ fuel r e r', c.read s.delegates fuel r = .error e r' → e.isViolation = false := by
  have hms : ∀ m ∈ [ringModule], ∃ model : Model, model.Generates m := by
    intro m hm
    obtain rfl := List.mem_singleton.1 hm
    have hgenerate : ringModel.generate .standard = .ok ringModule := by rfl
    exact ⟨ringModel, .of_generate hgenerate⟩
  have hatt : ∀ p ∈ ringAttached, p.2.Harmless := by
    intro p hp
    obtain rfl := List.mem_singleton.1 hp
    exact .native 0 .i64
  obtain ⟨c, s, hresolve⟩ :
      ∃ c s, (ofModules [ringModule] ringAttached).resolve 3 (.named "demo::A" []) .empty = .ok c s :=
    ⟨_, _, rfl⟩
  have hrun : Run (ofModules [ringModule] ringAttached) s [c] := .resolved .start hresolve
  exact ⟨c, s, hrun, ((no_violation hms hatt hrun).2 c (.inl (List.mem_singleton_self c))).2.1⟩

end Registry

end Marshal
