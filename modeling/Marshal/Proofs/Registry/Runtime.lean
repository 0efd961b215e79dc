import Marshal.Proofs.Registry.Returning

/-!
# Values that know their own types

A value is written by its own shape, and in it objects and constants are written with the converters that the registry
has for their types.  The same comes out if the value itself is written with the converter of its type, and if it is
written with a codec that looks for that converter (`runtime_agrees`).
-/

namespace Marshal

open Effect
open WriteM (ComesTo)

/-- By its own shape, a value with a type of its own is handed to the converter of the type, or written as a
native. -/
private theorem Value.writeAny_of_runtimeType {v : Value} (hany : v.runtimeType.isAny = false) :
    (∀ write, v.writeAny (some write) = write v.runtimeType v) ∨
      ∃ kind, v.runtimeType.native? = some kind ∧ ∀ typed, v.writeAny typed = kind.write (some v) := by
  cases v with
  | null | list | map => cases hany
  | object ty fields =>
    exact .inl fun write => by simp only [writeAny, writeTyped, hany, Bool.false_eq_true, if_false]
  | enum ty constant =>
    exact .inl fun write => by simp only [writeAny, writeTyped, hany, Bool.false_eq_true, if_false]
  | bool b => exact .inr ⟨.bool, rfl, fun _ => rfl⟩
  | int n => exact .inr ⟨.i64, rfl, fun _ => rfl⟩
  | float x => exact .inr ⟨.f64, rfl, fun _ => rfl⟩
  | char c => exact .inr ⟨.char, rfl, fun _ => rfl⟩
  | str s => exact .inr ⟨.string, rfl, fun _ => rfl⟩
  | bigInt lexeme => exact .inr ⟨.bigInt, rfl, fun _ => rfl⟩
  | decimal lexeme => exact .inr ⟨.bigDecimal, rfl, fun _ => rfl⟩
  | number lexeme => exact .inr ⟨.number, rfl, fun _ => rfl⟩
  | path s => exact .inr ⟨.path, rfl, fun _ => rfl⟩
  | ip a => exact .inr ⟨.ipAddr, rfl, fun _ => rfl⟩

namespace Registry

variable {ms : List AdapterModule} {att : List (String × Converter)} {ty : TypeRef} {c : Converter} {s : Store}

/-- A type whose recipe has no parts is resolvable. -/
private theorem resolvable_of_parts_eq_nil {p : Recipe} (hp : recipe? ms ty = some p) (hparts : p.parts = []) :
    Resolvable ms att ty := by
  have hclosure (t : TypeRef) (ht : t ∈ closure ms ty) : t = ty := by
    induction ht with
    | refl => rfl
    | tail _ hneeds ih =>
      subst ih
      obtain ⟨q, hq, hdep⟩ := hneeds
      obtain rfl := Option.some.inj (hp.symm.trans hq)
      rw [Recipe.mem_deps, hparts] at hdep
      cases hdep
  refine ⟨(Set.finite_singleton ty).subset hclosure, fun t ht => ?_⟩
  obtain rfl := hclosure t ht
  exact ⟨p, hp, fun path hpath => by rw [hparts] at hpath; cases hpath⟩

/-- The resolution of the type comes to an answer. -/
def Terminates (reg : Registry) (s : Store) (ty : TypeRef) : Prop :=
  ∃ fuel, ∀ s', reg.resolve fuel ty s ≠ .error .outOfFuel s'

section Agreement

variable (hatt : ∀ p ∈ att, p.2.Detached) (hs : Healthy ms att s) (halive : s.alive = true) {v : Value} {w : Writer}
  {o : Except Error Unit × Writer} (ho : o.1 ≠ .error .outOfFuel)

include hatt hs halive ho

/-- What a converter of a type writes is what the converter writes that the registry has for it. -/
private theorem Denotes.comesTo_writeAs (hc : Denotes ms att s.delegates ty c) (hty : Resolvable ms att ty)
    (h : ComesTo (fun k => c.write (ofModules ms att) k (some v)) ⟨w, s⟩ o) :
    ComesTo (fun k => (ofModules ms att).writeAs k ty v) ⟨w, s⟩ o := by
  obtain ⟨n, hn⟩ := h
  obtain rfl := hn n (Nat.le_refl n)
  obtain ⟨n₁, c', s₁, hresolve⟩ := hty.resolve hs
  have hres := hresolve n₁ (Nat.le_refl n₁)
  have hbeside : Beside (Both ms att s.delegates s₁.delegates) ⟨w, s⟩ ⟨w, s₁⟩ :=
    ⟨rfl, hs, hs.resolve hres, (later_of_resolve hres).alive.symm, fun _ _ => id, fun _ _ => id⟩
  have hfollows :=
    Counterparts.follows_write hatt n s.delegates s₁.delegates c c' (.typed hc (hs.denotes hres)) (some v)
  obtain ⟨n₂, hwrite⟩ := hfollows.outcome_eq (fun _ _ h => h.1) (fun _ _ h => h.1) hbeside ho
  refine ⟨max n₁ n₂, fun k hk => Eq.trans ?_ (hwrite k (le_trans (le_max_right _ _) hk))⟩
  have hwritten : (ofModules ms att).writeAs k ty v ⟨w, s⟩ = c'.write (ofModules ms att) k (some v) ⟨w, s₁⟩ :=
    WriteM.writeResolved_of_ok halive (hresolve k (le_trans (le_max_left _ _) hk))
  simp only [outcome, hwritten]

variable (hms : ∀ m ∈ ms, m.LeavesKnown)

include hms

/-- The converter for values of any shape writes a value by its shape. -/
private theorem comesTo_writeAs_of_isAny (hty : ty.isAny = true)
    (h : ComesTo (fun k => (Converter.dynamic 0 true).write (ofModules ms att) k (some v)) ⟨w, s⟩ o) :
    ComesTo (fun k => (ofModules ms att).writeAs k ty v) ⟨w, s⟩ o := by
  have hp : recipe? ms ty = some .dynamic := recipe?_dynamic hms hty
  have hc : Denotes ms att s.delegates ty (.dynamic 0 true) := denotes_of_parts_eq_nil hp rfl 0
  exact hc.comesTo_writeAs hatt hs halive ho (resolvable_of_parts_eq_nil hp rfl) h

/-- The converter of its own type writes a value as it is written by its shape. -/
private theorem comesTo_writeAs_runtimeType (hany : v.runtimeType.isAny = false)
    (h : ComesTo (fun k => v.writeAny (some ((ofModules ms att).writeAs k))) ⟨w, s⟩ o) :
    ComesTo (fun k => (ofModules ms att).writeAs k v.runtimeType v) ⟨w, s⟩ o := by
  rcases Value.writeAny_of_runtimeType hany with hwrite | ⟨kind, hkind, hwrite⟩
  · simpa only [hwrite] using h
  · have hp : recipe? ms v.runtimeType = some (.native kind) := recipe?_native hms hkind
    have hc : Denotes ms att s.delegates v.runtimeType (.native 0 kind) := denotes_native hms hkind 0
    refine hc.comesTo_writeAs hatt hs halive ho (resolvable_of_parts_eq_nil hp rfl) ?_
    simp only [hwrite] at h
    exact h.of_succ

end Agreement

/-- While a registry lives, whatever it has resolved before: writing a value with the converter that it has for the
type of the value, with the one that it has for values of any shape, and with a codec that looks for the type come to
the same output or the same fault, if the resolutions of the types of the value and of its parts come to an answer. -/
theorem runtime_agrees (hms : ∀ m ∈ ms, m.LeavesKnown) (hatt : ∀ p ∈ att, p.2.Quiet) {held : List Converter}
    (hrun : Run (ofModules ms att) s held) {v : Value} (hv : v ≠ .null)
    (hterminates : ∀ u : Value, u.Inside v → Terminates (ofModules ms att) s u.runtimeType) (declared : Codec)
    (bs : List Converter) (w : Writer) :
    ∃ o, o.1 ≠ .error .outOfFuel ∧
      ComesTo (fun k => (ofModules ms att).writeAs k v.runtimeType v) ⟨w, s⟩ o ∧
      ComesTo (fun k => (ofModules ms att).writeAs k .any v) ⟨w, s⟩ o ∧
      ComesTo (fun k => (Codec.runtimeType declared).writeWith
        (Converter.writeBinding (Converter.write (ofModules ms att) k) bs)
        (some ((ofModules ms att).writeAs k)) (some v)) ⟨w, s⟩ o := by
  obtain ⟨hs, halive⟩ := frame_healthy.of_run ⟨.empty, rfl⟩ hrun
  have hdetached (p : String × Converter) (hp : p ∈ att) : p.2.Detached := (hatt p hp).detached
  have hanswered (u : Value) (hu : u.Inside v) : Answered ms att u.runtimeType := by
    obtain ⟨fuel, hfuel⟩ := hterminates u hu
    exact answered_of_resolve hs hfuel
  -- all of them are compared with a converter for values of any shape, which returns
  have hreturns := Usable.returns hatt v hanswered s.delegates (.dynamic 0 true) (.quiet (.mk trivial nofun))
  obtain ⟨o, ho, hdynamic⟩ := hreturns.exists_comesTo (w := ⟨w, s⟩) ⟨hs, fun _ _ => id⟩
  have hshape : ComesTo (fun k => v.writeAny (some ((ofModules ms att).writeAs k))) ⟨w, s⟩ o := by
    simpa only [Converter.write, Value.present?_of_ne hv, if_true] using hdynamic.succ
  have hany {ty : TypeRef} (hty : ty.isAny = true) : ComesTo (fun k => (ofModules ms att).writeAs k ty v) ⟨w, s⟩ o :=
    comesTo_writeAs_of_isAny hdetached hs halive ho hms hty hdynamic
  refine ⟨o, ho, ?_⟩
  cases hruntime : v.runtimeType.isAny with
  | true =>
    refine ⟨hany hruntime, hany rfl, ?_⟩
    simpa only [Codec.writeWith, Value.present?_of_ne hv, hruntime, if_true] using hshape
  | false =>
    have hown := comesTo_writeAs_runtimeType hdetached hs halive ho hms hruntime hshape
    refine ⟨hown, hany rfl, ?_⟩
    simpa only [Codec.writeWith, Value.present?_of_ne hv, hruntime, Bool.false_eq_true, if_false] using hown

/-- Behind the node another one, of the same converter. -/
theorem runtime_agrees_node : ∃ o, o.1 ≠ .error .outOfFuel ∧
    ComesTo (fun k => (ofModules [nodeModule] []).writeAs k nodeType (node 1 [node (-2) []])) ⟨.empty, .empty⟩ o ∧
    ComesTo (fun k => (ofModules [nodeModule] []).writeAs k .any (node 1 [node (-2) []])) ⟨.empty, .empty⟩ o ∧
    ComesTo (fun k => (Codec.runtimeType (.native .bool)).writeWith
      (Converter.writeBinding (Converter.write (ofModules [nodeModule] []) k) [])
        (some ((ofModules [nodeModule] []).writeAs k))
      (some (node 1 [node (-2) []]))) ⟨.empty, .empty⟩ o := by
  have hms : ∀ m ∈ [nodeModule], m.LeavesKnown := by
    intro m hm
    obtain rfl := List.mem_singleton.1 hm
    unfold AdapterModule.LeavesKnown
    decide +kernel
  let types : List TypeRef := [nodeType, .named "i64" [], .any, .named "demo::Colour" []]
  have hresolves :
      ∀ ty ∈ types, succeeds (fun _ _ => true) ((ofModules [nodeModule] []).resolve 5 ty .empty) = true := by
    decide +kernel
  have hterminates (ty : TypeRef) (hty : ty ∈ types) : Terminates (ofModules [nodeModule] []) .empty ty := by
    refine ⟨5, fun s' hout => ?_⟩
    have hsucceeds := hresolves ty hty
    rw [hout] at hsucceeds
    cases hsucceeds
  have hint : NativeKind.i64.typeRef ∈ types := List.mem_of_getElem? (i := 1) rfl
  have hany : TypeRef.any ∈ types := List.mem_of_getElem? (i := 2) rfl
  have hcolour : .named "demo::Colour" [] ∈ types := List.mem_of_getElem? (i := 3) rfl
  -- what stands inside a node has one of these types, if that holds of what stands behind it
  have hnode (n : Int64) (rest : List Value) (hrest : ∀ v ∈ rest, ∀ u : Value, u.Inside v → u.runtimeType ∈ types)
      (u : Value) (hu : u.Inside (node n rest)) : u.runtimeType ∈ types := by
    cases hu with
    | self => exact List.mem_cons_self
    | field he hu =>
      simp only [List.mem_cons, List.not_mem_nil, or_false] at he
      rcases he with rfl | rfl | rfl
      · cases hu with
        | self => exact hint
      · cases hu with
        | self => exact hany
        | item hv hu => exact hrest _ hv u hu
      · cases hu with
        | self => exact hany
        | key he hu =>
          obtain rfl := List.mem_singleton.1 he
          cases hu with
          | self => exact hint
        | value he hu =>
          obtain rfl := List.mem_singleton.1 he
          cases hu with
          | self => exact hcolour
  have hinside (u : Value) (hu : u.Inside (node 1 [node (-2) []])) : u.runtimeType ∈ types := by
    refine hnode 1 _ (fun v hv => ?_) u hu
    obtain rfl := List.mem_singleton.1 hv
    exact hnode (-2) [] nofun
  have hpresent : node 1 [node (-2) []] ≠ .null := nofun
  exact runtime_agrees hms (List.forall_mem_nil _) .start hpresent (fun u hu => hterminates _ (hinside u hu))
    (.native .bool) [] .empty

end Registry

end Marshal
