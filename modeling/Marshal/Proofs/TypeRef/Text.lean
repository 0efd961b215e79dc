import Marshal.Proofs.TypeRef.Grammar

/-!
# Reading back a type text

The marked text of a well formed reference is derived from it, so it reads back (`parse_marked`); and whatever `parse`
accepts is well formed (`wellFormed_of_parse`).  A marked text is refused if a variable in it has the name of a path.
-/

namespace Marshal.TypeRef

/-! ### What is written is derived -/

/-- The characters of the arguments of a type. -/
def argsText : List TypeRef → List Char
  | [] => []
  | t :: ts => t.marked.toList ++ (textTail true ts).toList

private theorem marked_named_cons (path : String) (t : TypeRef) (ts : List TypeRef) :
    (named path (t :: ts)).marked.toList = path.toList ++ '<' :: (argsText (t :: ts) ++ ['>']) := by
  simp [marked, text, argsText]

private theorem marked_array (element : TypeRef) :
    (array element).marked.toList = '[' :: (element.marked.toList ++ [']']) := by
  simp [marked, text]

private theorem marked_var (x : String) : (var x).marked.toList = '$' :: x.toList := by
  simp [marked, text]

private theorem argsText_cons_cons (t u : TypeRef) (ts : List TypeRef) :
    argsText (t :: u :: ts) = t.marked.toList ++ ',' :: ' ' :: argsText (u :: ts) := by
  simp [argsText, textTail, marked]

mutual

private theorem derives_marked : ∀ t : TypeRef, t.WellFormed → Derives (.type t) t.marked.toList
  | .named _ [], h => .plain blanks_nil (named_iff.1 h).1
  | .named path (t :: ts), h => by
    rw [marked_named_cons]
    exact .applied blanks_nil (named_iff.1 h).1 blanks_nil
      (derives_argsText (t :: ts) (List.cons_ne_nil _ _) (named_iff.1 h).2)
  | .array element, h => by
    rw [marked_array]
    exact .array blanks_nil (derives_marked element (named_array.1 h)) blanks_nil
  | .var x, h => by
    rw [marked_var]
    exact .var blanks_nil blanks_nil (named_var.1 h)

private theorem derives_argsText : ∀ ts : List TypeRef, ts ≠ [] → (∀ t ∈ ts, t.WellFormed) →
    Derives (.args ts) (argsText ts ++ ['>'])
  | [], hne, _ => absurd rfl hne
  | [t], _, h => by
    have htext : argsText [t] = t.marked.toList := by simp [argsText, textTail]
    rw [htext]
    exact .last (derives_marked t (h t (by simp))) blanks_nil
  | t :: u :: ts, _, h => by
    have hblank : Blanks [' '] := List.forall_mem_singleton.2 rfl
    have htail : Derives (.args (u :: ts)) ([' '] ++ (argsText (u :: ts) ++ ['>'])) :=
      (derives_argsText (u :: ts) (List.cons_ne_nil _ _) fun v hv => h v (List.mem_cons_of_mem _ hv)).blanks hblank
    rw [argsText_cons_cons, List.append_assoc]
    exact .next (derives_marked t (h t (by simp))) blanks_nil htail

end

theorem parse_marked {t : TypeRef} (h : t.WellFormed) : parse t.marked = .ok t :=
  parse_eq_ok_iff.2 ⟨_, [], (List.append_nil _).symm, derives_marked t h, blanks_nil⟩

theorem wellFormed_of_parse {s : String} {t : TypeRef} (h : parse s = .ok t) : t.WellFormed := by
  obtain ⟨u, b, -, hu, -⟩ := parse_eq_ok_iff.1 h
  exact hu.wellFormed

/-- The well formed references are those whose marked text reads back. -/
private theorem parse_marked_iff {t : TypeRef} : parse t.marked = .ok t ↔ t.WellFormed :=
  ⟨wellFormed_of_parse, parse_marked⟩

instance (t : TypeRef) : Decidable t.WellFormed :=
  decidable_of_iff ((parse t.marked).toOption = some t) (Outcome.toOption_eq_some.trans parse_marked_iff)

/-! ### Variables that do not read back -/

private theorem readArgs_blank (n : Nat) (s : List Char) : readArgs (n + 2) (' ' :: s) = readArgs (n + 2) s := by
  have htype : readType (n + 1) (' ' :: s) = readType (n + 1) s := by
    rw [readType, readType]
    rfl
  rw [readArgs_succ, readArgs_succ, htype]

mutual

/-- The marked text of a reference reads back only if its variables are single identifiers. -/
private theorem wellFormed_of_readType_marked :
    ∀ (t : TypeRef), t.Named IsPath → ∀ (n : Nat) {s r : List Char} {u : TypeRef},
    Closes s → readType n (t.marked.toList ++ s) = .ok (u, r) → t.WellFormed ∧ r = s
  | _, _, 0, _, _, _, _, h => by cases h
  | .named path [], ht, n + 1, s, r, u, hs, h => by
    have htext : (named path []).marked = path := rfl
    rw [htext, readType_path n (named_iff.1 ht).1 hs.stops, hs.skipBlanks] at h
    split at h
    · exact absurd (hs '<' rfl) (by decide)
    · exact ⟨named_iff.2 ⟨(named_iff.1 ht).1, by simp⟩, (Prod.mk.inj (Except.ok.inj h)).2.symm⟩
  | .named path (t :: ts), ht, n + 1, s, r, u, hs, h => by
    rw [marked_named_cons, List.append_assoc, List.cons_append, List.append_assoc, List.singleton_append,
      readType_path n (named_iff.1 ht).1 (stops_angle _), skipBlanks_of_not (by decide)] at h
    obtain ⟨⟨us, r'⟩, hus, he⟩ := Outcome.map_eq_ok.1 h
    obtain ⟨-, rfl⟩ := Prod.mk.inj he
    obtain ⟨hargs, hr⟩ := wellFormed_of_readArgs_marked (t :: ts) (List.cons_ne_nil _ _) (named_iff.1 ht).2 n hus
    exact ⟨named_iff.2 ⟨(named_iff.1 ht).1, hargs⟩, hr⟩
  | .array element, ht, n + 1, s, r, u, hs, h => by
    rw [marked_array, List.cons_append, List.append_assoc, readType_array] at h
    obtain ⟨⟨e, r'⟩, he, h⟩ := Outcome.bind_eq_ok.1 h
    obtain ⟨helement, rfl⟩ := wellFormed_of_readType_marked element (named_array.1 ht) n (by simp [Closes]) he
    exact ⟨named_array.2 helement, (Prod.mk.inj (Except.ok.inj h)).2.symm⟩
  | .var x, ht, n + 1, s, r, u, hs, h => by
    rw [marked_var, List.cons_append, readType_var n (named_var.1 ht) hs.stops] at h
    by_cases hc : x.toList.contains ':' = true
    · rw [if_pos hc] at h
      cases h
    · rw [if_neg hc] at h
      exact ⟨named_var.2 ((named_var.1 ht).isIdent (by simpa using hc)), (Prod.mk.inj (Except.ok.inj h)).2.symm⟩

private theorem wellFormed_of_readArgs_marked : ∀ (ts : List TypeRef), ts ≠ [] → (∀ t ∈ ts, t.Named IsPath) →
    ∀ (n : Nat) {s r : List Char} {us : List TypeRef}, readArgs n (argsText ts ++ '>' :: s) = .ok (us, r) →
    (∀ t ∈ ts, t.WellFormed) ∧ r = s
  | _, _, _, 0, _, _, _, h => by cases h
  | [], hne, _, _, _, _, _, _ => absurd rfl hne
  | [t], _, ht, n + 1, s, r, us, h => by
    have htext : argsText [t] = t.marked.toList := by simp [argsText, textTail]
    rw [htext, readArgs_succ] at h
    obtain ⟨⟨v, r'⟩, hv, h⟩ := Outcome.bind_eq_ok.1 h
    obtain ⟨hwell, rfl⟩ := wellFormed_of_readType_marked t (ht t (by simp)) n (by simp [Closes]) hv
    exact ⟨by simpa using hwell, (Prod.mk.inj (Except.ok.inj h)).2.symm⟩
  | t :: u :: ts, _, ht, n + 1, s, r, us, h => by
    rw [argsText_cons_cons, List.append_assoc, readArgs_succ] at h
    obtain ⟨⟨v, r'⟩, hv, h⟩ := Outcome.bind_eq_ok.1 h
    obtain ⟨hwell, rfl⟩ := wellFormed_of_readType_marked t (ht t (by simp)) n (by simp [Closes]) hv
    obtain ⟨⟨ws, r''⟩, hws, he⟩ := Outcome.map_eq_ok.1 h
    obtain ⟨-, rfl⟩ := Prod.mk.inj he
    obtain ⟨m, rfl⟩ : ∃ m, n = m + 2 := by
      cases n with
      | zero => cases hws
      | succ n =>
        cases n with
        | zero => cases hws
        | succ m => exact ⟨m, rfl⟩
    have hws : readArgs (m + 2) (' ' :: (argsText (u :: ts) ++ '>' :: s)) = .ok (ws, r'') := hws
    rw [readArgs_blank] at hws
    obtain ⟨hargs, hr⟩ := wellFormed_of_readArgs_marked (u :: ts) (List.cons_ne_nil _ _)
      (fun w hw => ht w (List.mem_cons_of_mem _ hw)) (m + 2) hws
    exact ⟨List.forall_mem_cons.2 ⟨hwell, hargs⟩, hr⟩

end

/-- A marked text is refused unless each variable in it is a single identifier. -/
theorem wellFormed_of_parse_marked {t u : TypeRef} (ht : t.Named IsPath) (h : parse t.marked = .ok u) :
    t.WellFormed := by
  obtain ⟨⟨v, r⟩, hv, -⟩ := Outcome.bind_eq_ok.1 (Outcome.mapError_eq_ok.1 h)
  have hread : readType (t.marked.toList.length + 1) (t.marked.toList ++ []) = .ok (v, r) := by
    rw [List.append_nil]
    exact hv
  exact (wellFormed_of_readType_marked t ht _ (by simp [Closes]) hread).1

/-! ### Binding -/

mutual

/-- A bound variable has the name of a path. -/
theorem named_bindParams (params : List String) : ∀ t : TypeRef, t.WellFormed → (t.bindParams params).Named IsPath
  | .named path [], h => by
    rw [bindParams]
    split
    · exact named_var.2 (named_iff.1 h).1
    · exact named_iff.2 ⟨(named_iff.1 h).1, by simp⟩
  | .named path (t :: ts), h => by
    rw [bindParams]
    exact named_iff.2 ⟨(named_iff.1 h).1, named_bindParamsList params (t :: ts) (named_iff.1 h).2⟩
  | .array element, h => named_array.2 (named_bindParams params element (named_array.1 h))
  | .var x, h => named_var.2 (.ident (named_var.1 h))

private theorem named_bindParamsList (params : List String) : ∀ ts : List TypeRef, (∀ t ∈ ts, t.WellFormed) →
    ∀ t ∈ bindParamsList params ts, t.Named IsPath
  | [], _ => by simp [bindParamsList]
  | t :: ts, h => List.forall_mem_cons.2 ⟨named_bindParams params t (h t (by simp)),
      named_bindParamsList params ts fun u hu => h u (List.mem_cons_of_mem _ hu)⟩

end

mutual

/-- Binding a second time changes nothing. -/
theorem bindParams_idem (params : List String) :
    ∀ t : TypeRef, (t.bindParams params).bindParams params = t.bindParams params
  | .named path [] => by
    rw [bindParams]
    split
    · rfl
    · next h => rw [bindParams, if_neg h]
  | .named path (t :: ts) => by
    rw [bindParams, bindParams, bindParams_idem params t, bindParamsList_idem params ts]
  | .array element => by rw [bindParams, bindParams, bindParams_idem params element]
  | .var x => rfl

private theorem bindParamsList_idem (params : List String) : ∀ ts : List TypeRef,
    bindParamsList params (bindParamsList params ts) = bindParamsList params ts
  | [] => rfl
  | t :: ts => by rw [bindParamsList, bindParamsList, bindParams_idem params t, bindParamsList_idem params ts]

end

end Marshal.TypeRef
