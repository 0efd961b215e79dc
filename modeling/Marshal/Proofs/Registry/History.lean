import Marshal.Proofs.Registry.Counterparts

/-!
# What was resolved before does not matter

A registry that has resolved other types before, with or without success, answers a type as a new one does: it
resolves the same types, fails with the same faults, and gives converters that read and write the same.
-/

namespace Marshal

open Effect

/-- Whatever the one computation answers with some fuel, the other one answers with enough of it. -/
def AnswersAs {α : Type} (m m' : Nat → Except Error α) : Prop :=
  ∀ x, x ≠ .error .outOfFuel → (∃ k, m k = x) → ∃ n, ∀ k ≥ n, m' k = x

/-- The two computations have the same answers. -/
def SameAnswers {α : Type} (m m' : Nat → Except Error α) : Prop := AnswersAs m m' ∧ AnswersAs m' m

namespace Converter

/-- The text that a value is written as, or the fault. -/
def text (reg : Registry) (fuel : Nat) (c : Converter) (v : Option Value) (s : Store) : Except Error String :=
  match c.toJson reg fuel v s with
  | .ok text _ => .ok text
  | .error e _ => .error e

end Converter

/-- Converters that follow each other read the same documents. -/
theorem AnswersAs.of_follows_read {ds ds' : Delegates} {c c' : Converter}
    (h : ∀ fuel, ReadFollows (c.read ds fuel) fun k => c'.read ds' k) (text : String) :
    AnswersAs (fun k => c.fromJson ds k text) fun k => c'.fromJson ds' k text := by
  rintro x hx ⟨fuel, rfl⟩
  have hdocument : ReadFollows (c.readDocument ds fuel) fun k => c'.readDocument ds' k :=
    .bind (h fuel) fun v => .refl _
  rcases ReadFollows.iff.1 hdocument (Reader.ofText text.toList) with ⟨r, hout⟩ | ⟨n, hn⟩
  · refine absurd ?_ hx
    simp only [Converter.fromJson, EStateM.run, hout]
  · exact ⟨n, fun k hk => by simp only [Converter.fromJson, EStateM.run, hn k hk]⟩

/-- Converters that follow each other write the same documents. -/
theorem AnswersAs.of_follows_write {S : Store → Store → Prop} {reg reg' : Registry} {c c' : Converter} {s s' : Store}
    {v : Option Value} (h : ∀ fuel, WriteFollows S (c.write reg fuel v) fun k => c'.write reg' k v) (hs : S s s') :
    AnswersAs (fun k => c.text reg k v s) fun k => c'.text reg' k v s' := by
  rintro x hx ⟨fuel, rfl⟩
  rcases h fuel ⟨.empty, s⟩ ⟨.empty, s'⟩ ⟨rfl, hs⟩ with ⟨w, hout⟩ | ⟨n, y, hy, hagree⟩
  · refine absurd ?_ hx
    simp only [Converter.text, Converter.toJson, hout]
  · refine ⟨n, fun k hk => ?_⟩
    have hk := hy k hk
    cases hw : c.write reg fuel v ⟨.empty, s⟩ with
    | ok a w =>
      rw [hw] at hagree
      obtain ⟨b, w', rfl, -, hwriter, -⟩ := hagree.of_ok
      simp only [Converter.text, Converter.toJson, hw, hk, hwriter]
      cases w'.writer.finish <;> rfl
    | error e w =>
      rw [hw] at hagree
      obtain ⟨w', rfl, -⟩ := hagree.of_error
      simp only [Converter.text, Converter.toJson, hw, hk]

namespace Registry

variable {ms : List AdapterModule} {att : List (String × Converter)} {ds ds' : Delegates}

private theorem answersAs_fromJson (hatt : ∀ p ∈ att, p.2.Detached) {c c' : Converter}
    (h : Counterparts ms att ds ds' c c') (text : String) :
    AnswersAs (fun k => c.fromJson ds k text) fun k => c'.fromJson ds' k text :=
  .of_follows_read (fun fuel => h.follows_read hatt fuel c c') text

private theorem answersAs_text (hatt : ∀ p ∈ att, p.2.Detached) {c c' : Converter} {s s' : Store}
    (h : Counterparts ms att s.delegates s'.delegates c c') (hs : Healthy ms att s) (hs' : Healthy ms att s')
    (halive : s.alive = s'.alive) (v : Option Value) :
    AnswersAs (fun k => c.text (ofModules ms att) k v s) fun k => c'.text (ofModules ms att) k v s' := by
  have hboth : Both ms att s.delegates s'.delegates s s' := ⟨hs, hs', halive, fun _ _ => id, fun _ _ => id⟩
  exact .of_follows_write (fun fuel => Counterparts.follows_write hatt fuel _ _ c c' h v) hboth

/-- Whatever was resolved and written before, and with what success: a type is resolved exactly if a new registry
resolves it, otherwise with the same faults, and the two converters read the same from every text and write the same
for every value. -/
theorem resolve_independent (hatt : ∀ p ∈ att, p.2.Detached) {s : Store} {held : List Converter}
    (hrun : Run (ofModules ms att) s held) (ty : TypeRef) :
    ((∃ fuel c s', (ofModules ms att).resolve fuel ty s = .ok c s') ↔
        ∃ fuel c s', (ofModules ms att).resolve fuel ty .empty = .ok c s') ∧
      (∀ e, e ≠ .outOfFuel → ((∃ fuel s', (ofModules ms att).resolve fuel ty s = .error e s') ↔
        ∃ fuel s', (ofModules ms att).resolve fuel ty .empty = .error e s')) ∧
      ∀ fuel c s' fuel₀ c₀ s₀, (ofModules ms att).resolve fuel ty s = .ok c s' →
        (ofModules ms att).resolve fuel₀ ty .empty = .ok c₀ s₀ →
          (∀ text, SameAnswers (fun k => c.fromJson s'.delegates k text) fun k => c₀.fromJson s₀.delegates k text) ∧
          ∀ v, SameAnswers (fun k => c.text (ofModules ms att) k v s') fun k =>
            c₀.text (ofModules ms att) k v s₀ := by
  obtain ⟨hs, halive⟩ := frame_healthy.of_run ⟨.empty, rfl⟩ hrun
  have hempty : Healthy ms att .empty := .empty
  refine ⟨(resolve_ok_iff hs ty).trans (resolve_ok_iff hempty ty).symm, fun e he => ?_, ?_⟩
  · -- a fault in one store is a fault in every other one
    have hfault {s s' : Store} (hs : Healthy ms att s) (hs' : Healthy ms att s')
        (h : ∃ fuel s₁, (ofModules ms att).resolve fuel ty s = .error e s₁) :
        ∃ fuel s₁, (ofModules ms att).resolve fuel ty s' = .error e s₁ := by
      obtain ⟨fuel, s₁, hrun⟩ := h
      rcases follows_resolve fuel ty s s' ⟨hs, hs'⟩ with ⟨s₂, hout⟩ | ⟨n, x, hx, hagree⟩
      · rw [hrun] at hout
        cases hout
        exact absurd rfl he
      · rw [hrun] at hagree
        obtain ⟨s₂, rfl, -⟩ := hagree.of_error
        exact ⟨n, s₂, hx n (Nat.le_refl n)⟩
    exact ⟨hfault hs hempty, hfault hempty hs⟩
  · intro fuel c s' fuel₀ c₀ s₀ hc hc₀
    have hcounterparts : Counterparts ms att s'.delegates s₀.delegates c c₀ :=
      .typed (hs.denotes hc) (hempty.denotes hc₀)
    have halive' : s'.alive = s₀.alive := by
      rw [(later_of_resolve hc).alive, halive, (later_of_resolve hc₀).alive]
      rfl
    refine ⟨fun text => ⟨answersAs_fromJson hatt hcounterparts text, answersAs_fromJson hatt hcounterparts.symm text⟩,
      fun v => ⟨?_, ?_⟩⟩
    · exact answersAs_text hatt hcounterparts (hs.resolve hc) (hempty.resolve hc₀) halive' v
    · exact answersAs_text hatt hcounterparts.symm (hempty.resolve hc₀) (hs.resolve hc) halive'.symm v

/-- Of two structures that hold each other the second one was resolved first, so the converter of the first one holds
a placeholder; in a new registry it holds the converter of the second one. -/
theorem resolve_independent_ring : ∃ b s c s' c₀ s₀,
    (ofModules [ringModule] ringAttached).resolve 3 (.named "demo::B" []) .empty = .ok b s ∧
      (ofModules [ringModule] ringAttached).resolve 3 (.named "demo::A" []) s = .ok c s' ∧
      (ofModules [ringModule] ringAttached).resolve 3 (.named "demo::A" []) .empty = .ok c₀ s₀ ∧
      (c.bindings.map fun b => b matches .placeholder ..) = [true] ∧
      (c₀.bindings.map fun b => b matches .placeholder ..) = [false] ∧
      ∀ text, SameAnswers (fun k => c.fromJson s'.delegates k text) fun k => c₀.fromJson s₀.delegates k text := by
  have hatt : ∀ p ∈ ringAttached, p.2.Detached := by
    intro p hp id ty hreach
    obtain rfl := List.mem_singleton.1 hp
    cases hreach with
    | binding hb _ => cases hb
  have hcheck : succeeds (fun _ s =>
      succeeds (fun c _ => decide ((c.bindings.map fun b => b matches .placeholder ..) = [true]))
        ((ofModules [ringModule] ringAttached).resolve 3 (.named "demo::A" []) s))
      ((ofModules [ringModule] ringAttached).resolve 3 (.named "demo::B" []) .empty) = true := by decide +kernel
  have hcheck₀ : succeeds (fun c _ => decide ((c.bindings.map fun b => b matches .placeholder ..) = [false]))
      ((ofModules [ringModule] ringAttached).resolve 3 (.named "demo::A" []) .empty) = true := by decide +kernel
  obtain ⟨b, s, hB, hcheck⟩ := succeeds_iff.1 hcheck
  obtain ⟨c, s', hA, hholds⟩ := succeeds_iff.1 hcheck
  obtain ⟨c₀, s₀, hA₀, hholds₀⟩ := succeeds_iff.1 hcheck₀
  refine ⟨b, s, c, s', c₀, s₀, hB, hA, hA₀, of_decide_eq_true hholds, of_decide_eq_true hholds₀, ?_⟩
  exact ((resolve_independent hatt (.resolved .start hB) (.named "demo::A" [])).2.2 3 c s' 3 c₀ s₀ hA hA₀).1

end Registry

end Marshal
