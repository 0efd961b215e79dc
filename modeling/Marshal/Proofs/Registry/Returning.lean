import Marshal.Proofs.Converter.Entries
import Marshal.Proofs.Converter.Returning
import Marshal.Proofs.Registry.Planned
import Marshal.Proofs.Value.Fields

/-!
# Writing with the converters of a registry returns

Converters may be cyclic, but values are finite.  From one converter to the next, either the value gets smaller, or a
value of any shape turns into an object whose type has a converter, or a placeholder into what it stands for.  So
whatever is written returns (`Usable.returns`) if the registry answers for the types of all values on the way.
-/

namespace Marshal

open Effect

namespace Converter

/-- A converter without placeholders.  What is the caller's own in it does not know about fuel. -/
inductive Quiet : Converter → Prop
  | mk {c : Converter} (hc : c.Direct) (hbs : ∀ b ∈ c.bindings, Quiet b) : Quiet c

theorem Quiet.detached {c : Converter} (h : c.Quiet) : c.Detached := by
  intro id ty hreach
  generalize hx : Converter.placeholder id ty = x at hreach
  induction hreach with
  | refl c =>
    subst hx
    obtain ⟨hc, -⟩ := h
    exact hc
  | binding hb _ ih =>
    obtain ⟨-, hbs⟩ := h
    exact ih (hbs _ hb) hx
  | delegate =>
    obtain ⟨hc, -⟩ := h
    exact hc

private theorem Passes.inside {c : Converter} {v u : Value} (h : c.Passes v u) : u.Inside v := by
  cases h with
  | codec h => exact h.inside
  | dynamic h => exact h
  | field hv h => exact .field (Fields.mem_of_get? hv) h

end Converter

/-- What a structure or a container is made of is smaller than it. -/
private theorem Recipe.sizeOf_lt_of_passes {p : Recipe} (hp : p ≠ .dynamic) {id : Nat} {cs : List Converter}
    {v u : Value} (h : (p.assemble id cs).Passes v u) : sizeOf u < sizeOf v := by
  cases p with
  | dynamic => exact absurd rfl hp
  | native | enum => cases h
  | struct slot a target args =>
    cases h with
    | field hv h => exact Nat.lt_of_le_of_lt h.sizeOf_le (Value.sizeOf_lt_object (Fields.mem_of_get? hv))
  | list element i =>
    cases h with
    | codec h =>
      cases h with
      | item hv h => exact Nat.lt_of_le_of_lt h.inside.sizeOf_le (Value.sizeOf_lt_list hv)
  | objectMap key value i =>
    cases h with
    | codec h =>
      cases h with
      | entry he h => exact Nat.lt_of_le_of_lt h.inside.sizeOf_le (Value.sizeOf_lt_map he).2
  | pairMap key value i =>
    cases h with
    | codec h =>
      cases h with
      | key he h => exact Nat.lt_of_le_of_lt h.inside.sizeOf_le (Value.sizeOf_lt_map he).1
      | value he h => exact Nat.lt_of_le_of_lt h.inside.sizeOf_le (Value.sizeOf_lt_map he).2

namespace Recipe

private theorem direct_assemble (p : Recipe) {id : Nat} {cs : List Converter} : (p.assemble id cs).Direct := by
  cases p <;> trivial

private theorem mem_of_mem_bindings (p : Recipe) {id : Nat} {cs : List Converter} {b : Converter}
    (hb : b ∈ (p.assemble id cs).bindings) : b ∈ cs := by
  cases p with
  | struct | list | objectMap | pairMap => exact hb
  | enum | dynamic | native => cases hb

end Recipe

/-- An absent instance is written without a look at its fields. -/
private theorem StructAdapter.writeInstance_none (a : StructAdapter)
    (write write' : Codec → Option Value → WriteM Unit) (target : TypeRef) :
    a.writeInstance write target none = a.writeInstance write' target none := by
  show runOps write target none a.write = runOps write' target none a.write
  induction a.write with
  | nil => rfl
  | cons op ops ih => cases op <;> simp only [runOps, ih]

open WriteM

namespace Registry

variable {ms : List AdapterModule} {att : List (String × Converter)} {ds : Delegates} {ty : TypeRef} {c : Converter}

/-- A store that the registry can come to, where all that was bound is bound still. -/
structure Kept (ms : List AdapterModule) (att : List (String × Converter)) (ds : Delegates) (s : Store) : Prop where
  healthy : Healthy ms att s
  extended : ds.Extended s.delegates

private theorem Kept.mono {ds' : Delegates} {s : Store} (hext : ds.Extended ds') (h : Kept ms att ds' s) :
    Kept ms att ds s :=
  ⟨h.healthy, fun id c hc => h.extended id c (hext id c hc)⟩

/-! ### Types that the registry answers for -/

/-- Whatever was resolved before, the resolution of the type comes to an answer. -/
def Answered (ms : List AdapterModule) (att : List (String × Converter)) (ty : TypeRef) : Prop :=
  ∀ s, Healthy ms att s → ∃ n x, (∀ k ≥ n, (ofModules ms att).resolve k ty s = x) ∧ ∀ s', x ≠ .error .outOfFuel s'

/-- A resolution that comes to an answer once does so always. -/
theorem answered_of_resolve {s : Store} (hs : Healthy ms att s) {fuel : Nat}
    (h : ∀ s', (ofModules ms att).resolve fuel ty s ≠ .error .outOfFuel s') : Answered ms att ty := by
  intro t ht
  rcases follows_resolve fuel ty s t ⟨hs, ht⟩ with ⟨s', hout⟩ | ⟨n, x, hx, hagree⟩
  · exact absurd hout (h s')
  · refine ⟨n, x, hx, ?_⟩
    rintro t' rfl
    cases hr : (ofModules ms att).resolve fuel ty s with
    | ok c s' =>
      rw [hr] at hagree
      exact hagree.elim
    | error e s' =>
      rw [hr] at hagree
      exact h s' (hagree.1 ▸ hr)

/-- Writes a value with the converter that the registry has for the type. -/
abbrev writeAs (reg : Registry) (k : Nat) : TypeRef → Value → WriteM Unit :=
  Converter.writeResolved reg k (Converter.write reg k)

/-- A value is written with the converter of a type if all converters of the type write it. -/
private theorem returns_writeAs (hty : Answered ms att ty) {v : Value}
    (h : ∀ ds c, Denotes ms att ds ty c → Returns (Kept ms att ds) fun k => c.write (ofModules ms att) k (some v))
    (ds : Delegates) : Returns (Kept ms att ds) fun k => (ofModules ms att).writeAs k ty v := by
  intro w hw
  by_cases ha : w.store.alive = true
  case neg => exact ⟨0, _, fun k _ => writeResolved_of_dropped ha, .error hw nofun⟩
  obtain ⟨n, x, hx, hne⟩ := hty w.store hw.healthy
  have hx₀ := hx n (Nat.le_refl n)
  cases x with
  | error e s =>
    have hs : Kept ms att w.store.delegates s :=
      ⟨hw.healthy.resolve_error hx₀, (later_of_resolve_error hx₀).extended hw.healthy⟩
    refine ⟨n, _, fun k hk => writeResolved_of_error ha (hx k hk), .error (hs.mono hw.extended) ?_⟩
    rintro rfl
    exact hne s rfl
  | ok c s =>
    have hs : Kept ms att s.delegates s := ⟨hw.healthy.resolve hx₀, fun _ _ => id⟩
    have hext : ds.Extended s.delegates := fun id c hc =>
      (later_of_resolve hx₀).extended hw.healthy id c (hw.extended id c hc)
    obtain ⟨n', y, hy, hanswer⟩ := h s.delegates c (hw.healthy.denotes hx₀) { w with store := s } hs
    refine ⟨max n n', y, fun k hk => ?_, hanswer.mono fun _ => .mono hext⟩
    exact (writeResolved_of_ok ha (hx k (le_trans (le_max_left _ _) hk))).trans
      (hy k (le_trans (le_max_right _ _) hk))

/-! ### Converters that are used -/

/-- A converter of a type, or one that comes from outside. -/
inductive Usable (ms : List AdapterModule) (att : List (String × Converter)) (ds : Delegates) : Converter → Prop
  | denotes {ty : TypeRef} {c : Converter} (h : Denotes ms att ds ty c) : Usable ms att ds c
  | quiet {c : Converter} (h : c.Quiet) : Usable ms att ds c

private theorem usable_of_parts (hatt : ∀ p ∈ att, p.2.Quiet) {ps : List Part} {cs : List Converter}
    (h : List.Forall₂ (DenotesPart ms att ds) ps cs) : ∀ c ∈ cs, Usable ms att ds c := by
  intro c hc
  obtain ⟨part, -, hpart⟩ := forall₂_of_mem_right h hc
  cases part with
  | resolved t => exact .denotes hpart
  | native kind =>
    obtain ⟨n, rfl⟩ := hpart
    exact .quiet (.mk trivial nofun)
  | attached path =>
    obtain ⟨p, hp, rfl⟩ := mem_of_attached? hpart
    exact .quiet (hatt p hp)

/-- A placeholder writes what the converter writes that it stands for. -/
private theorem Denotes.returns {v : Option Value} (hc : Denotes ms att ds ty c)
    (h : ∀ p id cs, recipe? ms ty = some p → List.Forall₂ (DenotesPart ms att ds) p.parts cs →
      Returns (Kept ms att ds) fun k => (p.assemble id cs).write (ofModules ms att) k v) :
    Returns (Kept ms att ds) fun k => c.write (ofModules ms att) k v := by
  rcases hc.shape with ⟨id, d, p, n, cs, rfl, hd, -, hp, rfl, hcs⟩ | ⟨p, n, cs, hp, rfl, hcs⟩
  · refine .of_succ fun w hw => ?_
    obtain ⟨n', x, hx, hanswer⟩ := h p n cs hp hcs w hw
    exact ⟨n', x, fun k hk => (write_placeholder (hw.extended id _ hd) v).trans (hx k hk), hanswer⟩
  · exact h p n cs hp hcs

/-! ### Absent values -/

/-- For an absent value nothing is asked of the parts. -/
private theorem returns_none_assemble (p : Recipe) (id : Nat) (cs : List Converter) :
    Returns (Kept ms att ds) fun k => (p.assemble id cs).write (ofModules ms att) k none := by
  have hE := ne_outOfFuel_of_isUnwritable
  refine .of_succ ?_
  cases p with
  | struct slot a target args =>
    have hsame (k : Nat) : ((Recipe.struct slot a target args).assemble id cs).write (ofModules ms att) (k + 1) none =
        a.writeInstance (fun _ _ => pure ⟨⟩) target none := a.writeInstance_none _ _ target
    simp only [hsame]
    exact returns_of_respects (respects_struct hE a nofun)
  | enum slot index a => exact returns_of_respects (respects_enum hE a none)
  | native kind => exact returns_of_respects (respects_native hE kind none)
  | dynamic | list | objectMap | pairMap => exact returns_of_respects (respects_token (Writer.raises_null hE))

private theorem Usable.returns_none (h : Usable ms att ds c) :
    Returns (Kept ms att ds) fun k => c.write (ofModules ms att) k none := by
  cases h with
  | denotes h => exact h.returns fun p id cs _ _ => returns_none_assemble p id cs
  | quiet h =>
    induction h with
    | mk hc _ ih => exact Converter.returns_write hc ih nofun nofun

/-! ### Values -/

private theorem isAny_of_recipe? (h : recipe? ms ty = some .dynamic) : ty.isAny = true := by
  rcases recipe?_eq_some h with ⟨slot, m, -, hm⟩ | hstandard
  · unfold Source.moduleRecipe? at hm
    split at hm
    · cases hm
    · split at hm <;> cases hm
  · unfold Source.standardRecipe? at hstandard
    by_contra hany
    rw [if_neg hany] at hstandard
    split at hstandard
    · cases hstandard
    · cases hstandard
    · split at hstandard <;> cases hstandard
    · cases hstandard

section Present

variable (hatt : ∀ p ∈ att, p.2.Quiet) {v : Value}
  (hanswered : ∀ u : Value, u.Inside v → Answered ms att u.runtimeType)
  (ih : ∀ u : Value, u.Inside v → sizeOf u < sizeOf v → ∀ ds c, Usable ms att ds c →
    Returns (Kept ms att ds) fun k => c.write (ofModules ms att) k (some u))

include hatt hanswered ih

private theorem returns_assemble {p : Recipe} (hp : p ≠ .dynamic) {id : Nat} {cs : List Converter}
    (hcs : List.Forall₂ (DenotesPart ms att ds) p.parts cs) :
    Returns (Kept ms att ds) fun k => (p.assemble id cs).write (ofModules ms att) k (some v) := by
  have hbindings (b : Converter) (hb : b ∈ (p.assemble id cs).bindings) : Usable ms att ds b :=
    usable_of_parts hatt hcs b (p.mem_of_mem_bindings hb)
  refine Converter.returns_write p.direct_assemble (fun b hb => (hbindings b hb).returns_none)
    (fun b hb v' u hv hu => ?_) fun v' u hv hu _ => ?_
  all_goals
    obtain rfl := Option.some.inj hv
    have hlt := Recipe.sizeOf_lt_of_passes hp hu
  · exact ih u hu.inside hlt ds b (hbindings b hb)
  · exact returns_writeAs (hanswered u hu.inside) (fun ds c hc => ih u hu.inside hlt ds c (.denotes hc)) ds

private theorem returns_typed {u : Value} (hu : u.Inside v) (hany : u.runtimeType.isAny = false) (ds : Delegates) :
    Returns (Kept ms att ds) fun k => (ofModules ms att).writeAs k u.runtimeType u := by
  refine returns_writeAs (hanswered u hu) (fun ds c hc => ?_) ds
  rcases hu.eq_or_lt with rfl | hlt
  · refine hc.returns fun p id cs hp hcs => returns_assemble hatt hanswered ih ?_ hcs
    rintro rfl
    rw [isAny_of_recipe? hp] at hany
    cases hany
  · exact ih u hu hlt ds c (.denotes hc)

private theorem returns_denotes (hc : Denotes ms att ds ty c) :
    Returns (Kept ms att ds) fun k => c.write (ofModules ms att) k (some v) := by
  refine hc.returns fun p id cs _ hcs => ?_
  by_cases hp : p = .dynamic
  · subst hp
    refine Converter.returns_write (Recipe.direct_assemble .dynamic) nofun nofun fun v' u hv hu hany => ?_
    obtain rfl := Option.some.inj hv
    exact returns_typed hatt hanswered ih hu.inside hany ds
  · exact returns_assemble hatt hanswered ih hp hcs

private theorem returns_quiet (hc : c.Quiet) :
    Returns (Kept ms att ds) fun k => c.write (ofModules ms att) k (some v) := by
  induction hc with
  | mk hc hbs ihc =>
    refine Converter.returns_write hc (fun b hb => (Usable.quiet (hbs b hb)).returns_none) (fun b hb v' u hv hu => ?_)
      fun v' u hv hu hany => ?_
    all_goals obtain rfl := Option.some.inj hv
    · rcases hu.inside.eq_or_lt with rfl | hlt
      · exact ihc b hb
      · exact ih u hu.inside hlt ds b (.quiet (hbs b hb))
    · exact returns_typed hatt hanswered ih hu.inside hany ds

end Present

/-- Whatever is written returns, if the registry answers for the types of all values on the way. -/
theorem Usable.returns (hatt : ∀ p ∈ att, p.2.Quiet) (v : Value)
    (hanswered : ∀ u : Value, u.Inside v → Answered ms att u.runtimeType) (ds : Delegates) (c : Converter)
    (h : Usable ms att ds c) : Returns (Kept ms att ds) fun k => c.write (ofModules ms att) k (some v) := by
  induction hn : sizeOf v using Nat.strong_induction_on generalizing v ds c with
  | _ n ih =>
    subst hn
    have hsmaller (u : Value) (hu : u.Inside v) (hlt : sizeOf u < sizeOf v) (ds : Delegates) (c : Converter)
        (hc : Usable ms att ds c) : Returns (Kept ms att ds) fun k => c.write (ofModules ms att) k (some u) :=
      ih _ hlt u (fun x hx => hanswered x (hx.trans hu)) ds c hc rfl
    cases h with
    | denotes h => exact returns_denotes hatt hanswered hsmaller h
    | quiet h => exact returns_quiet hatt hanswered hsmaller h

end Registry

end Marshal
