import Marshal.Proofs.Adapter.Bare

/-!
# Entering bindings and getters

What planning enters into its state: bindings that are named by their positions, and for each type that is taken from
the registry one getter in the catalog.  Begun with a catalog, planning enters the types that it enters into an empty
one (`Filling`).
-/

namespace Marshal

open Effect

/-! ### Catalogs -/

namespace Catalog

theorem getter?_eq_none {c : Catalog} {ty : TypeRef} (h : c.getter? ty = none) : ty ∉ c.types := by
  intro hmem
  obtain ⟨p, hp, rfl⟩ := List.mem_map.1 hmem
  have hnone : c.getters.find? (·.1 == p.1) = none := by simpa [getter?] using h
  simpa using List.find?_eq_none.1 hnone p hp

private theorem mem_types_bind (c : Catalog) (ty : TypeRef) {t : TypeRef} :
    t ∈ (c.bind ty).2.types ↔ t ∈ c.types ∨ t = ty := by
  unfold bind
  cases hget : c.getter? ty with
  | some name =>
    have hty : ty ∈ c.types := mem_types_of_getter? hget
    exact ⟨.inl, fun h => h.elim id fun e => e ▸ hty⟩
  | none => simp [types]

theorem nodup_types_bind {c : Catalog} (ty : TypeRef) (h : c.types.Nodup) : (c.bind ty).2.types.Nodup := by
  unfold bind
  cases hget : c.getter? ty with
  | some name => exact h
  | none =>
    have hty : ty ∉ c.types := getter?_eq_none hget
    simp only [types, List.map_append, List.map_cons, List.map_nil]
    refine List.nodup_append.2 ⟨h, by simp, fun a ha b hb => ?_⟩
    obtain rfl := List.mem_singleton.1 hb
    exact fun e => hty (e ▸ ha)

end Catalog

/-! ### Bindings -/

/-- The bindings are named by their positions. -/
def Numbered (namePrefix : String) (bs : List Binding) : Prop :=
  ∀ (i : Nat) (b : Binding), bs[i]? = some b → b.name = namePrefix ++ toString i

theorem Numbered.snoc {namePrefix : String} {bs : List Binding} (h : Numbered namePrefix bs) {b : Binding}
    (hb : b.name = namePrefix ++ toString bs.length) : Numbered namePrefix (bs ++ [b]) := by
  intro i b' hi
  by_cases hlt : i < bs.length
  · rw [List.getElem?_append_left hlt] at hi
    exact h i b' hi
  · rw [List.getElem?_append_right (by omega)] at hi
    have hi0 : i - bs.length = 0 := by
      have := (List.getElem?_eq_some_iff.1 hi).1
      simp only [List.length_singleton] at this
      omega
    have hlen : i = bs.length := by omega
    rw [hi0] at hi
    obtain rfl := Option.some.inj hi
    rw [hb, hlen]

/-- At most one binding was entered, named by its position, and the catalog stayed as it was. -/
structure Enters (namePrefix : String) (s t : Planning) : Prop where
  catalog : t.catalog = s.catalog
  numbered : Numbered namePrefix s.bindings → Numbered namePrefix t.bindings

namespace PlanScope

variable {scope : PlanScope} {s t : Planning} {i : Nat}

private theorem bind_enters {ty : TypeRef} {source : BindingSource} (h : scope.bind ty source s = .ok i t) :
    Enters scope.namePrefix s t := by
  rcases bind_cases h with ⟨rfl, -⟩ | ⟨-, -, rfl⟩
  · exact ⟨rfl, id⟩
  · exact ⟨rfl, fun hs => hs.snoc rfl⟩

private theorem bindAttached_enters {path : String} (h : scope.bindAttached path s = .ok i t) :
    Enters scope.namePrefix s t := by
  rcases bindAttached_cases h with ⟨rfl, -⟩ | ⟨-, -, rfl⟩
  · exact ⟨rfl, id⟩
  · exact ⟨rfl, fun hs => hs.snoc rfl⟩

private theorem bindGetter_enters {ty : TypeRef} (h : scope.bindGetter ty s = .ok i t) :
    Enters scope.namePrefix ⟨(s.catalog.bind ty).2, s.bindings⟩ t := by
  have hbind : scope.bind ty (.registry (s.catalog.bind ty).1) ⟨(s.catalog.bind ty).2, s.bindings⟩ = .ok i t := h
  exact bind_enters hbind

end PlanScope

/-! ### Beside an empty catalog -/

/-- A relation that successful steps keep can be added to one that they are abreast in. -/
private theorem Abreast.and {α β : Type} {A : α → β → Prop} {R T : Planning → Planning → Prop} {m : PlanM α}
    {m' : PlanM β} (h : Abreast R A m m') (hT : ∀ s s' a b t t', T s s' → m s = .ok a t → m' s' = .ok b t' → T t t') :
    Abreast (fun s s' => R s s' ∧ T s s') A m m' := by
  rintro s s' ⟨hR, hs⟩
  rcases h s s' hR with ⟨a, b, t, t', hm, hm', hab, ht⟩ | ⟨e, t, t', hm, hm'⟩
  · exact .inl ⟨a, b, t, t', hm, hm', hab, ht, hT s s' a b t t' hs hm hm'⟩
  · exact .inr ⟨e, t, t', hm, hm'⟩

/-- Two plans that were begun with the catalog `base` and with an empty one: their bindings are numbered, and what the
second one entered into its catalog the first one entered as well. -/
structure Filling (namePrefix : String) (base : Catalog) (s s' : Planning) : Prop where
  left : Numbered namePrefix s.bindings
  right : Numbered namePrefix s'.bindings
  types : ∀ t, t ∈ s.catalog.types ↔ t ∈ base.types ∨ t ∈ s'.catalog.types
  nodup : s.catalog.types.Nodup

namespace Filling

variable {namePrefix : String} {base : Catalog} {s s' t t' : Planning}

theorem start (h : base.types.Nodup) : Filling namePrefix base ⟨base, []⟩ ⟨.empty, []⟩ where
  left := by simp [Numbered]
  right := by simp [Numbered]
  types := by simp [Catalog.empty, Catalog.types]
  nodup := h

private theorem enters (h : Filling namePrefix base s s') (ht : Enters namePrefix s t)
    (ht' : Enters namePrefix s' t') : Filling namePrefix base t t' where
  left := ht.numbered h.left
  right := ht'.numbered h.right
  types := by rw [ht.catalog, ht'.catalog]; exact h.types
  nodup := by rw [ht.catalog]; exact h.nodup

private theorem bind (h : Filling namePrefix base s s') (ty : TypeRef) :
    Filling namePrefix base ⟨(s.catalog.bind ty).2, s.bindings⟩ ⟨(s'.catalog.bind ty).2, s'.bindings⟩ where
  left := h.left
  right := h.right
  types t := by rw [Catalog.mem_types_bind, Catalog.mem_types_bind, h.types, or_assoc]
  nodup := Catalog.nodup_types_bind ty h.nodup

end Filling

namespace PlanScope

variable {model model' : Model} {namePrefix : String} {base : Catalog} {d : Declaration} {f : Field}

/-- Models in which the same types lack an adapter give the same plan, whatever the catalog holds. -/
theorem alongside_filling
    (h : ∀ ty, lacksAdapter ⟨model', namePrefix, d, f⟩ ty = lacksAdapter ⟨model, namePrefix, d, f⟩ ty) :
    Alongside Eq (fun s s' => SameBindings s s' ∧ Filling namePrefix base s s') (fun _ => True)
      ⟨model, namePrefix, d, f⟩ ⟨model', namePrefix, d, f⟩ :=
  have hbare := alongside_of_lacksAdapter h
  { hbare with
    bindGetter := fun {ty} hty hlacks => (hbare.bindGetter hty hlacks).and fun _ _ _ _ _ _ hs hm hm' =>
      (hs.bind ty).enters (bindGetter_enters hm) (bindGetter_enters hm')
    bind := fun hty hattached hregistry => (hbare.bind hty hattached hregistry).and fun _ _ _ _ _ _ hs hm hm' =>
      hs.enters (bind_enters hm) (bind_enters hm') }

theorem abreast_bindAttached_filling (path : String) :
    Abreast (fun s s' => SameBindings s s' ∧ Filling namePrefix base s s') Eq
      (bindAttached ⟨model, namePrefix, d, f⟩ path) (bindAttached ⟨model', namePrefix, d, f⟩ path) :=
  (abreast_bindAttached rfl).and fun _ _ _ _ _ _ hs hm hm' => hs.enters (bindAttached_enters hm)
    (bindAttached_enters hm')

end PlanScope

end Marshal
