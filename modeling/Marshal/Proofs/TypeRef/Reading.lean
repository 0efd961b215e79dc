import Marshal.Proofs.Outcome
import Marshal.TypeRef.Text

/-!
# Reading a type

What reading a path and each step of reading a type do with a text.  A reference is well formed if each path in it is
made of identifiers joined by `::` and each variable is a single identifier.
-/

namespace Marshal.TypeRef

open Text (isAsciiBlank)

/-! ### Names -/

/-- One or more ASCII letters, digits and underscores. -/
def IsIdent (s : List Char) : Prop := s ≠ [] ∧ ∀ c ∈ s, isIdentChar c = true

instance (s : List Char) : Decidable (IsIdent s) :=
  decidable_of_iff (s ≠ [] ∧ s.all isIdentChar = true) (by rw [IsIdent, List.all_eq_true])

/-- Identifiers joined by `::`. -/
inductive IsPath : List Char → Prop where
  | ident {s : List Char} (h : IsIdent s) : IsPath s
  | join {s t : List Char} (h : IsIdent s) (ht : IsPath t) : IsPath (s ++ ':' :: ':' :: t)

mutual

/-- The paths of the named types in a reference. -/
def paths : TypeRef → List String
  | named path args => path :: pathsList args
  | array element => element.paths
  | var _ => []

def pathsList : List TypeRef → List String
  | [] => []
  | t :: ts => t.paths ++ pathsList ts

end

/-- Every path is identifiers joined by `::`, and every variable is named as `V` says. -/
structure Named (V : List Char → Prop) (t : TypeRef) : Prop where
  paths : ∀ p ∈ t.paths, IsPath p.toList
  vars : ∀ x ∈ t.vars, V x.toList

/-- Every path is identifiers joined by `::`, and every variable a single identifier. -/
abbrev WellFormed (t : TypeRef) : Prop := t.Named IsIdent

@[simp] private theorem mem_pathsList {p : String} {ts : List TypeRef} :
    p ∈ pathsList ts ↔ ∃ t ∈ ts, p ∈ t.paths := by
  induction ts with
  | nil => simp [pathsList]
  | cons t ts ih => simp [pathsList, ih]

@[simp] private theorem mem_varsList {x : String} {ts : List TypeRef} : x ∈ varsList ts ↔ ∃ t ∈ ts, x ∈ t.vars := by
  induction ts with
  | nil => simp [varsList]
  | cons t ts ih => simp [varsList, ih]

section

variable {V : List Char → Prop}

theorem named_iff {path : String} {args : List TypeRef} :
    (named path args).Named V ↔ IsPath path.toList ∧ ∀ t ∈ args, t.Named V := by
  constructor
  · rintro ⟨hpaths, hvars⟩
    exact ⟨hpaths path (by simp [paths]), fun t ht =>
      ⟨fun p hp => hpaths p (by simp only [paths, List.mem_cons, mem_pathsList]; exact .inr ⟨t, ht, hp⟩),
        fun x hx => hvars x (by simp only [vars, mem_varsList]; exact ⟨t, ht, hx⟩)⟩⟩
  · rintro ⟨hpath, hargs⟩
    refine ⟨fun p hp => ?_, fun x hx => ?_⟩
    · simp only [paths, List.mem_cons, mem_pathsList] at hp
      obtain rfl | ⟨t, ht, hp⟩ := hp
      · exact hpath
      · exact (hargs t ht).paths p hp
    · simp only [vars, mem_varsList] at hx
      obtain ⟨t, ht, hx⟩ := hx
      exact (hargs t ht).vars x hx

theorem named_array {element : TypeRef} : (array element).Named V ↔ element.Named V :=
  ⟨fun h => ⟨h.paths, h.vars⟩, fun h => ⟨h.paths, h.vars⟩⟩

theorem named_var {x : String} : (var x).Named V ↔ V x.toList :=
  ⟨fun h => h.vars x (by simp [vars]), fun h => ⟨by simp [paths], by simpa [vars] using h⟩⟩

end

theorem isAsciiBlank_of_isIdentChar {c : Char} (h : isIdentChar c = true) : isAsciiBlank c = false := by
  have key : ∀ b : Char, isIdentChar b = false → c ≠ b := fun b hb e => by simp [e ▸ h] at hb
  simp [isAsciiBlank, key ' ' (by decide), key '\t' (by decide), key '\n' (by decide), key '\x0c' (by decide),
    key '\r' (by decide)]

/-! ### Reading a path -/

/-- The path that is being read does not go on in this text. -/
structure Stops (s : List Char) : Prop where
  head : ∀ c ∈ s.head?, isIdentChar c = false
  joint : ∀ t, s ≠ ':' :: ':' :: t

private theorem readPath_ident {s t : List Char} (fresh : Bool) (h : IsIdent s) :
    readPath fresh (s ++ t) = (readPath false t).map fun r => (s ++ r.1, r.2) := by
  obtain ⟨hne, hs⟩ := h
  induction s generalizing fresh with
  | nil => exact absurd rfl hne
  | cons c s ih =>
    have hc : isIdentChar c = true := hs c (by simp)
    have hstep : readPath fresh (c :: (s ++ t)) = (readPath false (s ++ t)).map fun r => (c :: r.1, r.2) := by
      rw [readPath.eq_2 _ _ _ (by rintro u rfl; exact absurd hc (by decide)), if_pos hc]
    rw [List.cons_append, hstep]
    cases s with
    | nil => rfl
    | cons d s =>
      rw [ih false (by simp) fun c' hc' => hs c' (by simp [hc'])]
      cases readPath false t <;> rfl

private theorem readPath_stops {s : List Char} (h : Stops s) : readPath false s = .ok ([], s) := by
  cases s with
  | nil => rfl
  | cons c s =>
    have hc : isIdentChar c = false := h.head c rfl
    rw [readPath.eq_2 _ _ _ fun t ht => by simpa [ht] using h.joint t, hc]
    rfl

private theorem readPath_path {s t : List Char} (h : IsPath s) (ht : Stops t) :
    readPath true (s ++ t) = .ok (s, t) := by
  induction h with
  | ident h => rw [readPath_ident true h, readPath_stops ht]; simp [Except.map]
  | join h _ ih =>
    rw [List.append_assoc, readPath_ident true h, List.cons_append, List.cons_append, readPath.eq_1,
      if_neg (by decide), ih]
    rfl

theorem IsPath.ne_nil {s : List Char} (h : IsPath s) : s ≠ [] := by
  cases h with
  | ident h => exact h.1
  | join h _ => simp

/-- A path begins with a character of an identifier. -/
private theorem IsPath.head {c : Char} {s : List Char} (h : IsPath (c :: s)) : isIdentChar c = true := by
  generalize hs : c :: s = t at h
  cases h with
  | ident h => exact h.2 c (by simp [← hs])
  | @join u v h _ =>
    obtain ⟨d, u, rfl⟩ := List.exists_cons_of_ne_nil h.1
    obtain ⟨rfl, -⟩ := List.cons.inj hs
    exact h.2 c (by simp)

theorem IsIdent.colon_notMem {s : List Char} (h : IsIdent s) : ':' ∉ s :=
  fun hmem => absurd (h.2 ':' hmem) (by decide)

theorem IsPath.isIdent {s : List Char} (h : IsPath s) (hc : ':' ∉ s) : IsIdent s := by
  cases h with
  | ident h => exact h
  | join h _ => exact absurd (by simp) hc

private theorem isIdent_snoc {s : List Char} {c : Char} (hs : ∀ c ∈ s, isIdentChar c = true)
    (hc : isIdentChar c = true) : IsIdent (s ++ [c]) :=
  ⟨by simp, fun d hd => by
    rcases List.mem_append.1 hd with hd | hd
    · exact hs d hd
    · exact List.mem_singleton.1 hd ▸ hc⟩

/-- What is read, behind the characters `pre` of the current identifier, is a path. -/
private theorem isPath_of_readPath_behind {fresh : Bool} {s p t : List Char} (pre : List Char)
    (hf : fresh = pre.isEmpty) (hpre : ∀ c ∈ pre, isIdentChar c = true) (h : readPath fresh s = .ok (p, t)) :
    IsPath (pre ++ p) ∧ s = p ++ t := by
  induction fresh, s using readPath.induct generalizing pre p with
  | case1 s => simp [readPath] at h
  | case2 fresh s hfresh ih =>
    rw [readPath.eq_1, if_neg hfresh] at h
    obtain ⟨⟨q, t'⟩, hq, he⟩ := Outcome.map_eq_ok.1 h
    obtain ⟨rfl, rfl⟩ := Prod.mk.inj he
    obtain ⟨hpath, rfl⟩ := ih [] rfl (by simp) hq
    exact ⟨.join ⟨by simpa [hf] using hfresh, hpre⟩ hpath, rfl⟩
  | case3 fresh c s hjoint hc ih =>
    rw [readPath.eq_2 _ _ _ hjoint, if_pos hc] at h
    obtain ⟨⟨q, t'⟩, hq, he⟩ := Outcome.map_eq_ok.1 h
    obtain ⟨rfl, rfl⟩ := Prod.mk.inj he
    obtain ⟨hpath, rfl⟩ := ih (pre ++ [c]) (by simp) (isIdent_snoc hpre hc).2 hq
    exact ⟨by simpa using hpath, rfl⟩
  | case4 c s hjoint hc =>
    rw [readPath.eq_2 _ _ _ hjoint, if_neg hc] at h
    cases h
  | case5 fresh c s hjoint hc hfresh =>
    rw [readPath.eq_2 _ _ _ hjoint, if_neg hc, if_neg hfresh] at h
    obtain ⟨rfl, rfl⟩ := Prod.mk.inj (Except.ok.inj h)
    exact ⟨.ident ⟨by simpa [hf] using hfresh, by simpa using hpre⟩, rfl⟩
  | case6 => simp [readPath] at h
  | case7 fresh hfresh =>
    rw [readPath, if_neg hfresh] at h
    obtain ⟨rfl, rfl⟩ := Prod.mk.inj (Except.ok.inj h)
    exact ⟨.ident ⟨by simpa [hf] using hfresh, by simpa using hpre⟩, rfl⟩

theorem isPath_of_readPath {s p t : List Char} (h : readPath true s = .ok (p, t)) : IsPath p ∧ s = p ++ t :=
  isPath_of_readPath_behind [] rfl (by simp) h

/-! ### The steps of reading a type -/

theorem skipBlanks_of_not {c : Char} {s : List Char} (h : isAsciiBlank c = false) : skipBlanks (c :: s) = c :: s := by
  simp [skipBlanks, h]

/-- What stands behind a type inside another one, or nothing. -/
def Closes (s : List Char) : Prop := ∀ c ∈ s.head?, c = ',' ∨ c = ']' ∨ c = '>'

theorem Closes.stops {s : List Char} (h : Closes s) : Stops s := by
  cases s with
  | nil => exact ⟨by simp, fun t ht => by cases ht⟩
  | cons c s =>
    obtain rfl | rfl | rfl := h c rfl <;> exact ⟨by simp; decide, fun t ht => by cases ht⟩

theorem stops_angle (s : List Char) : Stops ('<' :: s) := ⟨by simp; decide, fun t ht => by cases ht⟩

theorem Closes.skipBlanks {s : List Char} (h : Closes s) : TypeRef.skipBlanks s = s := by
  cases s with
  | nil => rfl
  | cons c s => obtain rfl | rfl | rfl := h c rfl <;> exact skipBlanks_of_not (by decide)

theorem readType_var (n : Nat) {p s : List Char} (h : IsPath p) (hs : Stops s) :
    readType (n + 1) ('$' :: (p ++ s)) =
      if p.contains ':' then .error ⟨.qualifiedVariable, s⟩ else .ok (var (String.ofList p), s) := by
  obtain ⟨c, p, rfl⟩ := List.exists_cons_of_ne_nil h.ne_nil
  have hblank : skipBlanks (c :: p ++ s) = c :: p ++ s := skipBlanks_of_not (isAsciiBlank_of_isIdentChar h.head)
  rw [readType, skipBlanks_of_not (by decide)]
  simp only [hblank, readPath_path h hs]
  rfl

theorem readType_array (n : Nat) (s : List Char) :
    readType (n + 1) ('[' :: s) = readType n s >>= fun r =>
      match skipBlanks r.2 with
      | ']' :: s => .ok (array r.1, s)
      | s => .error ⟨.expectedBracket, s⟩ := by
  rw [readType, skipBlanks_of_not (by decide)]
  rfl

theorem readType_path (n : Nat) {p s : List Char} (h : IsPath p) (hs : Stops s) :
    readType (n + 1) (p ++ s) =
      match skipBlanks s with
      | '<' :: s => (readArgs n s).map fun r => (named (String.ofList p) r.1, r.2)
      | s => .ok (named (String.ofList p) [], s) := by
  obtain ⟨c, p, rfl⟩ := List.exists_cons_of_ne_nil h.ne_nil
  have hblank : skipBlanks (c :: p ++ s) = c :: p ++ s := skipBlanks_of_not (isAsciiBlank_of_isIdentChar h.head)
  have hc : ∀ d : Char, isIdentChar d = false → c ≠ d := fun d hd e => by simp [← e, h.head] at hd
  rw [readType, hblank]
  split
  · next he => exact absurd (List.cons.inj he).1 (hc '$' (by decide))
  · next he => exact absurd (List.cons.inj he).1 (hc '[' (by decide))
  · simp only [readPath_path h hs]
    rfl

theorem readArgs_succ (n : Nat) (s : List Char) :
    readArgs (n + 1) s = readType n s >>= fun r =>
      match skipBlanks r.2 with
      | ',' :: s => (readArgs n s).map fun q => (r.1 :: q.1, q.2)
      | '>' :: s => .ok ([r.1], s)
      | s => .error ⟨.expectedCommaOrAngle, s⟩ := by
  rw [readArgs]
  rfl

end Marshal.TypeRef
