import Mathlib.Data.List.DropRight
import Marshal.Proofs.Text.Bytes
import Marshal.Proofs.TypeRef.Reading

/-!
# The grammar of type texts

A text denotes a type exactly if the grammar derives it, with blanks behind it (`parse_grammatical`).  What is read
was derived: the induction is on the fuel.  What is derived is read, in front of any text that cannot go on with it:
the induction is on the derivation, and the fuel covers its characters.  Where a text is refused, the offset is that
of a place in the text.
-/

namespace Marshal.TypeRef

open Text (isAsciiBlank utf8Size)

/-! ### The grammar -/

/-- Any run of blanks. -/
def Blanks (s : List Char) : Prop := ∀ c ∈ s, isAsciiBlank c = true

/-- What is derived in one piece: a type, or the arguments of a type up to the closing bracket. -/
inductive Phrase where
  | type (t : TypeRef)
  | args (ts : List TypeRef)

/-- The texts of types.  Blanks may stand in front of each part, but not inside a path. -/
inductive Derives : Phrase → List Char → Prop
  | var {b b' : List Char} {x : String} (hb : Blanks b) (hb' : Blanks b') (hx : IsIdent x.toList) :
    Derives (.type (.var x)) (b ++ '$' :: (b' ++ x.toList))
  | array {b s b' : List Char} {element : TypeRef} (hb : Blanks b) (hs : Derives (.type element) s)
    (hb' : Blanks b') :
    Derives (.type (.array element)) (b ++ '[' :: (s ++ (b' ++ [']'])))
  | plain {b : List Char} {path : String} (hb : Blanks b) (hpath : IsPath path.toList) :
    Derives (.type (.named path [])) (b ++ path.toList)
  | applied {b b' s : List Char} {path : String} {args : List TypeRef} (hb : Blanks b) (hpath : IsPath path.toList)
    (hb' : Blanks b') (hs : Derives (.args args) s) :
    Derives (.type (.named path args)) (b ++ (path.toList ++ (b' ++ '<' :: s)))
  | last {s b : List Char} {t : TypeRef} (hs : Derives (.type t) s) (hb : Blanks b) :
    Derives (.args [t]) (s ++ (b ++ ['>']))
  | next {s b s' : List Char} {t : TypeRef} {ts : List TypeRef} (hs : Derives (.type t) s) (hb : Blanks b)
    (hs' : Derives (.args ts) s') : Derives (.args (t :: ts)) (s ++ (b ++ ',' :: s'))

/-- A whole text: a type, and blanks behind it. -/
def DerivesWhole (t : TypeRef) (s : List Char) : Prop := ∃ u b, s = u ++ b ∧ Derives (.type t) u ∧ Blanks b

/-! ### Blanks -/

theorem blanks_nil : Blanks [] := List.forall_mem_nil _

private theorem exists_blanks (s : List Char) : ∃ b, Blanks b ∧ s = b ++ skipBlanks s :=
  ⟨s.takeWhile isAsciiBlank, fun _ hc => List.mem_takeWhile_imp hc, List.takeWhile_append_dropWhile.symm⟩

private theorem Blanks.skipBlanks {b : List Char} (hb : Blanks b) (s : List Char) :
    TypeRef.skipBlanks (b ++ s) = TypeRef.skipBlanks s := List.dropWhile_append_of_pos hb

private theorem skipBlanks_skipBlanks (s : List Char) : skipBlanks (skipBlanks s) = skipBlanks s :=
  List.dropWhile_idempotent isAsciiBlank s

private theorem Blanks.skipBlanks_cons {b : List Char} (hb : Blanks b) {c : Char} (hc : isAsciiBlank c = false)
    (s : List Char) : TypeRef.skipBlanks (b ++ c :: s) = c :: s := (hb.skipBlanks _).trans (skipBlanks_of_not hc)

/-- A path ends in front of blanks, if it could not go on behind them. -/
private theorem Stops.of_skipBlanks {s : List Char} (h : Stops (skipBlanks s)) : Stops s := by
  cases s with
  | nil => exact h
  | cons c s =>
    by_cases hc : isAsciiBlank c = true
    · refine ⟨fun d hd => ?_, fun t ht => ?_⟩
      · obtain rfl := Option.some.inj hd
        by_contra hident
        rw [isAsciiBlank_of_isIdentChar (by simpa using hident)] at hc
        cases hc
      · obtain rfl := (List.cons.inj ht).1
        exact absurd hc (by decide)
    · rwa [skipBlanks_of_not (by simpa using hc)] at h

/-! ### What is derived -/

/-- More blanks may stand in front. -/
theorem Derives.blanks {b s : List Char} {p : Phrase} (hb : Blanks b) (h : Derives p s) : Derives p (b ++ s) := by
  have happend {b' : List Char} (hb' : Blanks b') : Blanks (b ++ b') := List.forall_mem_append.2 ⟨hb, hb'⟩
  induction h with
  | var hb₁ hb' hx =>
    rw [← List.append_assoc]
    exact .var (happend hb₁) hb' hx
  | array hb₁ hs hb' _ =>
    rw [← List.append_assoc]
    exact .array (happend hb₁) hs hb'
  | plain hb₁ hpath =>
    rw [← List.append_assoc]
    exact .plain (happend hb₁) hpath
  | applied hb₁ hpath hb' hs _ =>
    rw [← List.append_assoc]
    exact .applied (happend hb₁) hpath hb' hs
  | last _ hb' ih =>
    rw [← List.append_assoc]
    exact .last ih hb'
  | next _ hb' hs' ih _ =>
    rw [← List.append_assoc]
    exact .next ih hb' hs'

def Phrase.WellFormed : Phrase → Prop
  | .type t => t.WellFormed
  | .args ts => ∀ t ∈ ts, t.WellFormed

/-- Only texts of well formed references are derived. -/
theorem Derives.wellFormed {p : Phrase} {s : List Char} (h : Derives p s) : p.WellFormed := by
  induction h with
  | var _ _ hx => exact named_var.2 hx
  | array _ _ _ ih => exact named_array.2 ih
  | plain _ hpath => exact named_iff.2 ⟨hpath, List.forall_mem_nil _⟩
  | applied _ hpath _ _ ih => exact named_iff.2 ⟨hpath, ih⟩
  | last _ _ ih => exact List.forall_mem_singleton.2 ih
  | next _ _ _ ih ih' => exact List.forall_mem_cons.2 ⟨ih, ih'⟩

/-! ### What is read was derived -/

mutual

private theorem derives_of_readType : ∀ (n : Nat) {s r : List Char} {t : TypeRef}, readType n s = .ok (t, r) →
    ∃ u b, s = u ++ (b ++ r) ∧ Derives (.type t) u ∧ Blanks b
  | 0, _, _, _, h => by cases h
  | n + 1, s, r, t, h => by
    obtain ⟨b, hb, hs⟩ := exists_blanks s
    rw [readType] at h
    split at h
    · next s₁ hskip =>
      obtain ⟨b', hb', hs₁⟩ := exists_blanks s₁
      obtain ⟨⟨x, s₂⟩, hx, h⟩ := Outcome.bind_eq_ok.1 h
      obtain ⟨hpath, hs₂⟩ := isPath_of_readPath hx
      by_cases hcolon : x.contains ':' = true
      · simp only [hcolon, if_true] at h
        cases h
      · simp only [hcolon] at h
        obtain ⟨rfl, rfl⟩ := Prod.mk.inj (Except.ok.inj h)
        have hident : IsIdent (String.ofList x).toList := by simpa using hpath.isIdent (by simpa using hcolon)
        refine ⟨_, [], ?_, .var hb hb' hident, List.forall_mem_nil _⟩
        rw [hs, hskip, hs₁, hs₂]
        simp
    · next s₁ hskip =>
      obtain ⟨⟨element, s₂⟩, helement, h⟩ := Outcome.bind_eq_ok.1 h
      obtain ⟨u, b₁, hs₁, hu, hb₁⟩ := derives_of_readType n helement
      obtain ⟨b₂, hb₂, hs₂⟩ := exists_blanks s₂
      dsimp only at h
      split at h
      · next s₃ hskip' =>
        obtain ⟨rfl, rfl⟩ := Prod.mk.inj (Except.ok.inj h)
        refine ⟨_, [], ?_, .array hb hu (List.forall_mem_append.2 ⟨hb₁, hb₂⟩), List.forall_mem_nil _⟩
        rw [hs, hskip, hs₁, hs₂, hskip']
        simp
      · cases h
    · obtain ⟨⟨path, s₁⟩, hpath, h⟩ := Outcome.bind_eq_ok.1 h
      obtain ⟨hp, hs₁⟩ := isPath_of_readPath hpath
      obtain ⟨b', hb', hs'⟩ := exists_blanks s₁
      have hp : IsPath (String.ofList path).toList := by simpa using hp
      dsimp only at h
      split at h
      · next s₂ hskip' =>
        obtain ⟨⟨args, s₃⟩, hargs, h⟩ := Outcome.bind_eq_ok.1 h
        obtain ⟨u, hs₂, hu⟩ := derives_of_readArgs n hargs
        obtain ⟨rfl, rfl⟩ := Prod.mk.inj (Except.ok.inj h)
        refine ⟨_, [], ?_, .applied hb hp hb' hu, List.forall_mem_nil _⟩
        rw [hs, hs₁, hs', hskip', hs₂]
        simp
      · obtain ⟨rfl, rfl⟩ := Prod.mk.inj (Except.ok.inj h)
        refine ⟨_, b', ?_, .plain hb hp, hb'⟩
        rw [← hs', String.toList_ofList, List.append_assoc, ← hs₁]
        exact hs

private theorem derives_of_readArgs : ∀ (n : Nat) {s r : List Char} {ts : List TypeRef}, readArgs n s = .ok (ts, r) →
    ∃ u, s = u ++ r ∧ Derives (.args ts) u
  | 0, _, _, _, h => by cases h
  | n + 1, s, r, ts, h => by
    rw [readArgs_succ] at h
    obtain ⟨⟨t, s₁⟩, ht, h⟩ := Outcome.bind_eq_ok.1 h
    obtain ⟨u, b, hs, hu, hb⟩ := derives_of_readType n ht
    obtain ⟨b₁, hb₁, hs₁⟩ := exists_blanks s₁
    have hblanks : Blanks (b ++ b₁) := List.forall_mem_append.2 ⟨hb, hb₁⟩
    dsimp only at h
    split at h
    · next s₂ hskip =>
      obtain ⟨⟨us, s₃⟩, hus, he⟩ := Outcome.map_eq_ok.1 h
      obtain ⟨u', hs₂, hu'⟩ := derives_of_readArgs n hus
      obtain ⟨rfl, rfl⟩ := Prod.mk.inj he
      refine ⟨_, ?_, .next hu hblanks hu'⟩
      rw [hs, hs₁, hskip, hs₂]
      simp
    · next s₂ hskip =>
      obtain ⟨rfl, rfl⟩ := Prod.mk.inj (Except.ok.inj h)
      refine ⟨_, ?_, .last hu hblanks⟩
      rw [hs, hs₁, hskip]
      simp
    · cases h

end

private theorem skipBlanks_suffix (s : List Char) : skipBlanks s <:+ s := List.dropWhile_suffix _

/-- A type that is read leaves an end of the text. -/
private theorem suffix_of_ok {n : Nat} {s r : List Char} {t : TypeRef} (h : readType n s = .ok (t, r)) : r <:+ s := by
  obtain ⟨u, b, rfl, -⟩ := derives_of_readType n h
  exact ⟨u ++ b, List.append_assoc u b r⟩

/-! ### What is derived is read -/

private theorem readType_blanks (n : Nat) {b : List Char} (hb : Blanks b) (s : List Char) :
    readType (n + 1) (b ++ s) = readType (n + 1) s := by
  rw [readType, readType, hb.skipBlanks]

private theorem readType_dollar (n : Nat) {b : List Char} (hb : Blanks b) (s : List Char) :
    readType (n + 1) ('$' :: (b ++ s)) = readType (n + 1) ('$' :: s) := by
  rw [readType, readType, skipBlanks_of_not (by decide), skipBlanks_of_not (by decide)]
  simp only [hb.skipBlanks]

/-- What reading makes of a phrase, whatever stands behind it.  Behind a type there must be the end of the text or of
the type around it; the blanks up to there may be read with the type. -/
def Phrase.Read (s : List Char) : Phrase → Prop
  | .type t => ∀ n rest, s.length < n → Closes (skipBlanks rest) →
      ∃ r, readType n (s ++ rest) = .ok (t, r) ∧ skipBlanks r = skipBlanks rest
  | .args ts => ∀ n rest, s.length + 1 < n → readArgs n (s ++ rest) = .ok (ts, rest)

/-- What was derived is read. -/
private theorem Derives.read {p : Phrase} {s : List Char} (h : Derives p s) : p.Read s := by
  induction h with
  | @var b b' x hb hb' hx =>
    intro n rest hn hrest
    obtain ⟨n, rfl⟩ := Nat.exists_eq_succ_of_ne_zero (Nat.ne_zero_of_lt hn)
    refine ⟨rest, ?_, rfl⟩
    rw [List.append_assoc, readType_blanks n hb, List.cons_append, List.append_assoc, readType_dollar n hb',
      readType_var n (.ident hx) (.of_skipBlanks hrest.stops), if_neg (by simpa using hx.colon_notMem),
      String.ofList_toList]
  | @array b s b' element hb _ hb' ih =>
    intro n rest hn hrest
    obtain ⟨n, rfl⟩ := Nat.exists_eq_succ_of_ne_zero (Nat.ne_zero_of_lt hn)
    have hskip : skipBlanks (b' ++ ']' :: rest) = ']' :: rest := hb'.skipBlanks_cons (by decide) rest
    simp only [List.length_append, List.length_cons] at hn
    obtain ⟨r, hr, hskip'⟩ := ih n (b' ++ ']' :: rest) (by omega) (by rw [hskip]; simp [Closes])
    refine ⟨rest, ?_, rfl⟩
    rw [List.append_assoc, readType_blanks n hb, List.cons_append, List.append_assoc, List.append_assoc,
      List.singleton_append, readType_array, hr]
    simp only [bind, Except.bind, hskip', hskip]
  | @plain b path hb hpath =>
    intro n rest hn hrest
    obtain ⟨n, rfl⟩ := Nat.exists_eq_succ_of_ne_zero (Nat.ne_zero_of_lt hn)
    refine ⟨skipBlanks rest, ?_, skipBlanks_skipBlanks rest⟩
    rw [List.append_assoc, readType_blanks n hb, readType_path n hpath (.of_skipBlanks hrest.stops)]
    split
    · next heq => exact absurd (hrest '<' (by rw [heq]; rfl)) (by decide)
    · rw [String.ofList_toList]
  | @applied b b' s path args hb hpath hb' _ ih =>
    intro n rest hn hrest
    obtain ⟨n, rfl⟩ := Nat.exists_eq_succ_of_ne_zero (Nat.ne_zero_of_lt hn)
    have hskip : skipBlanks (b' ++ '<' :: (s ++ rest)) = '<' :: (s ++ rest) := hb'.skipBlanks_cons (by decide) _
    have hstops : Stops (b' ++ '<' :: (s ++ rest)) := .of_skipBlanks (by rw [hskip]; exact stops_angle _)
    have hpos : 0 < path.toList.length := List.length_pos_iff.2 hpath.ne_nil
    simp only [List.length_append, List.length_cons] at hn
    have hargs := ih n rest (by omega)
    refine ⟨rest, ?_, rfl⟩
    rw [List.append_assoc, readType_blanks n hb, List.append_assoc, List.append_assoc, List.cons_append,
      readType_path n hpath hstops, hskip]
    simp only [hargs, Except.map, String.ofList_toList]
  | @last s b t _ hb ih =>
    intro n rest hn
    obtain ⟨n, rfl⟩ := Nat.exists_eq_succ_of_ne_zero (Nat.ne_zero_of_lt hn)
    have hskip : skipBlanks (b ++ '>' :: rest) = '>' :: rest := hb.skipBlanks_cons (by decide) rest
    simp only [List.length_append, List.length_cons] at hn
    obtain ⟨r, hr, hskip'⟩ := ih n (b ++ '>' :: rest) (by omega) (by rw [hskip]; simp [Closes])
    rw [List.append_assoc, List.append_assoc, List.singleton_append, readArgs_succ, hr]
    simp only [bind, Except.bind, hskip', hskip]
  | @next s b s' t ts _ hb _ ih ih' =>
    intro n rest hn
    obtain ⟨n, rfl⟩ := Nat.exists_eq_succ_of_ne_zero (Nat.ne_zero_of_lt hn)
    have hskip : skipBlanks (b ++ ',' :: (s' ++ rest)) = ',' :: (s' ++ rest) := hb.skipBlanks_cons (by decide) _
    simp only [List.length_append, List.length_cons] at hn
    obtain ⟨r, hr, hskip'⟩ := ih n (b ++ ',' :: (s' ++ rest)) (by omega) (by rw [hskip]; simp [Closes])
    have hargs := ih' n rest (by omega)
    rw [List.append_assoc, List.append_assoc, List.cons_append, readArgs_succ, hr]
    simp only [bind, Except.bind, hskip', hskip, hargs, Except.map]

private theorem readAll_eq_ok_iff {s : List Char} {t : TypeRef} : readAll s = .ok t ↔ DerivesWhole t s := by
  constructor
  · intro h
    obtain ⟨⟨t', r⟩, ht, h⟩ := Outcome.bind_eq_ok.1 h
    obtain ⟨u, b, hs, hu, hb⟩ := derives_of_readType _ ht
    obtain ⟨b', hb', hr⟩ := exists_blanks r
    dsimp only at h
    split at h
    · next hskip =>
      obtain rfl := Except.ok.inj h
      refine ⟨u, b ++ b', ?_, hu, List.forall_mem_append.2 ⟨hb, hb'⟩⟩
      rw [hs, hr, hskip, List.append_nil]
    · cases h
  · rintro ⟨u, b, rfl, hu, hb⟩
    have hskip : skipBlanks b = [] := List.dropWhile_eq_nil_iff.2 hb
    have hlt : u.length < (u ++ b).length + 1 := by
      rw [List.length_append]
      omega
    obtain ⟨r, hr, hskip'⟩ := hu.read _ b hlt (by rw [hskip]; simp [Closes])
    rw [readAll, hr]
    simp only [bind, Except.bind, hskip', hskip]

/-! ### Fuel -/

mutual

/-- Fuel beyond the length of the text is never used up. -/
private theorem readType_fuel :
    ∀ (n m : Nat) {s : List Char}, s.length < n → s.length < m → readType n s = readType m s
  | 0, _, _, hn, _ => absurd hn (Nat.not_lt_zero _)
  | _, 0, _, _, hm => absurd hm (Nat.not_lt_zero _)
  | n + 1, m + 1, s, hn, hm => by
    have hskip := (skipBlanks_suffix s).length_le
    rw [readType, readType]
    split
    · rfl
    · next s₁ heq =>
      rw [heq, List.length_cons] at hskip
      rw [readType_fuel n m (by omega) (by omega)]
    · cases hpath : readPath true (skipBlanks s) with
      | error e => rfl
      | ok p =>
        obtain ⟨path, s₁⟩ := p
        obtain ⟨hp, hs₁⟩ := isPath_of_readPath hpath
        have hpos : 0 < path.length := List.length_pos_iff.2 hp.ne_nil
        have hlength : (skipBlanks s).length = path.length + s₁.length := by rw [hs₁, List.length_append]
        have hskip' := (skipBlanks_suffix s₁).length_le
        simp only [bind, Except.bind]
        split
        · next s₂ heq =>
          rw [heq, List.length_cons] at hskip'
          rw [readArgs_fuel n m (by omega) (by omega)]
        · rfl

private theorem readArgs_fuel :
    ∀ (n m : Nat) {s : List Char}, s.length + 1 < n → s.length + 1 < m → readArgs n s = readArgs m s
  | 0, _, _, hn, _ => absurd hn (Nat.not_lt_zero _)
  | _, 0, _, _, hm => absurd hm (Nat.not_lt_zero _)
  | n + 1, m + 1, s, hn, hm => by
    rw [readArgs_succ, readArgs_succ, readType_fuel n m (by omega) (by omega)]
    cases htype : readType m s with
    | error e => rfl
    | ok r =>
      obtain ⟨t, s₁⟩ := r
      have hskip := ((skipBlanks_suffix s₁).trans (suffix_of_ok htype)).length_le
      simp only [bind, Except.bind]
      split
      · next s₂ heq =>
        rw [heq, List.length_cons] at hskip
        rw [readArgs_fuel n m (by omega) (by omega)]
      · rfl
      · rfl

end

/-! ### Where reading stops -/

private theorem suffix_of_readPath {fresh : Bool} {s : List Char} {e : Stop} (h : readPath fresh s = .error e) :
    e.rest <:+ s := by
  induction fresh, s using readPath.induct with
  | case1 s =>
    obtain rfl := Except.error.inj h
    exact List.suffix_rfl
  | case2 fresh s hfresh ih =>
    rw [readPath.eq_1, if_neg hfresh] at h
    exact ((ih (Outcome.map_eq_error.1 h)).trans (List.suffix_cons _ _)).trans (List.suffix_cons _ _)
  | case3 fresh c s hjoint hc ih =>
    rw [readPath.eq_2 _ _ _ hjoint, if_pos hc] at h
    exact (ih (Outcome.map_eq_error.1 h)).trans (List.suffix_cons _ _)
  | case4 c s hjoint hc =>
    rw [readPath.eq_2 _ _ _ hjoint, if_neg hc] at h
    obtain rfl := Except.error.inj h
    exact List.suffix_rfl
  | case5 fresh c s hjoint hc hfresh =>
    rw [readPath.eq_2 _ _ _ hjoint, if_neg hc, if_neg hfresh] at h
    cases h
  | case6 =>
    obtain rfl := Except.error.inj h
    exact List.suffix_rfl
  | case7 fresh hfresh =>
    rw [readPath, if_neg hfresh] at h
    cases h

mutual

private theorem suffix_of_readType : ∀ (n : Nat) {s : List Char} {e : Stop}, readType n s = .error e → e.rest <:+ s
  | 0, s, e, h => by
    obtain rfl := Except.error.inj h
    exact List.suffix_rfl
  | n + 1, s, e, h => by
    have hskip := skipBlanks_suffix s
    rw [readType] at h
    split at h
    · next s₁ heq =>
      rw [heq] at hskip
      have hs₁ : skipBlanks s₁ <:+ s := ((skipBlanks_suffix s₁).trans (List.suffix_cons _ _)).trans hskip
      rcases Outcome.bind_eq_error.1 h with h | ⟨⟨x, s₂⟩, hx, h⟩
      · exact (suffix_of_readPath h).trans hs₁
      · obtain ⟨-, hs₂⟩ := isPath_of_readPath hx
        dsimp only at h
        split at h
        · obtain rfl := Except.error.inj h
          exact (hs₂ ▸ List.suffix_append x s₂).trans hs₁
        · cases h
    · next s₁ heq =>
      rw [heq] at hskip
      have hs₁ : s₁ <:+ s := (List.suffix_cons _ _).trans hskip
      rcases Outcome.bind_eq_error.1 h with h | ⟨⟨element, s₂⟩, helement, h⟩
      · exact (suffix_of_readType n h).trans hs₁
      · dsimp only at h
        split at h
        · cases h
        · obtain rfl := Except.error.inj h
          exact ((skipBlanks_suffix s₂).trans (suffix_of_ok helement)).trans hs₁
    · rcases Outcome.bind_eq_error.1 h with h | ⟨⟨path, s₁⟩, hpath, h⟩
      · exact (suffix_of_readPath h).trans hskip
      · obtain ⟨-, hs₁⟩ := isPath_of_readPath hpath
        have hs₁ : s₁ <:+ s := (hs₁ ▸ List.suffix_append path s₁).trans hskip
        dsimp only at h
        split at h
        · next s₂ heq =>
          have hs₂ : s₂ <:+ s₁ := (List.suffix_cons _ _).trans (heq ▸ skipBlanks_suffix s₁)
          rcases Outcome.bind_eq_error.1 h with h | ⟨⟨args, s₃⟩, -, h⟩
          · exact ((suffix_of_readArgs n h).trans hs₂).trans hs₁
          · cases h
        · cases h

private theorem suffix_of_readArgs : ∀ (n : Nat) {s : List Char} {e : Stop}, readArgs n s = .error e → e.rest <:+ s
  | 0, s, e, h => by
    obtain rfl := Except.error.inj h
    exact List.suffix_rfl
  | n + 1, s, e, h => by
    rw [readArgs_succ] at h
    rcases Outcome.bind_eq_error.1 h with h | ⟨⟨t, s₁⟩, ht, h⟩
    · exact suffix_of_readType n h
    · have hs₁ : skipBlanks s₁ <:+ s := (skipBlanks_suffix s₁).trans (suffix_of_ok ht)
      dsimp only at h
      split at h
      · next s₂ heq =>
        rw [heq] at hs₁
        exact ((suffix_of_readArgs n (Outcome.map_eq_error.1 h)).trans (List.suffix_cons _ _)).trans hs₁
      · cases h
      · obtain rfl := Except.error.inj h
        exact hs₁

end

private theorem suffix_of_readAll {s : List Char} {e : Stop} (h : readAll s = .error e) : e.rest <:+ s := by
  rcases Outcome.bind_eq_error.1 h with h | ⟨⟨t, r⟩, ht, h⟩
  · exact suffix_of_readType _ h
  · dsimp only at h
    split at h
    · cases h
    · obtain rfl := Except.error.inj h
      exact (skipBlanks_suffix r).trans (suffix_of_ok ht)

/-! ### Texts -/

theorem parse_eq_ok_iff {text : String} {t : TypeRef} : parse text = .ok t ↔ DerivesWhole t text.toList :=
  Outcome.mapError_eq_ok.trans readAll_eq_ok_iff

/-- A text is read as the type that the grammar derives it from, and any other text is refused, at a place in the text
or at its end.  Reading comes to its end by itself: no more fuel changes what it does. -/
theorem parse_grammatical (text : String) :
    (∀ t, parse text = .ok t ↔ DerivesWhole t text.toList) ∧
      ((¬∃ t, DerivesWhole t text.toList) → ∃ e, parse text = .error e ∧ e.text = text ∧
        e.offset ≤ text.utf8ByteSize ∧ ∃ before rest, text.toList = before ++ rest ∧ e.offset = utf8Size before) ∧
      ∀ fuel > text.toList.length, readType fuel text.toList = readType (text.toList.length + 1) text.toList := by
  refine ⟨fun _ => parse_eq_ok_iff, fun hnone => ?_, fun fuel hfuel => readType_fuel _ _ hfuel (Nat.lt_succ_self _)⟩
  cases hparse : parse text with
  | ok t => exact absurd ⟨t, parse_eq_ok_iff.1 hparse⟩ hnone
  | error e =>
    obtain ⟨stop, hstop, rfl⟩ := Outcome.mapError_eq_error.1 hparse
    obtain ⟨before, htext⟩ := suffix_of_readAll hstop
    have hsize : utf8Size text.toList = utf8Size before + utf8Size stop.rest := by rw [← htext, Text.utf8Size_append]
    have hoffset : utf8Size text.toList - utf8Size stop.rest = utf8Size before := by omega
    refine ⟨_, rfl, rfl, ?_, before, stop.rest, htext.symm, hoffset⟩
    rw [Text.utf8ByteSize_eq]
    exact Nat.sub_le _ _

/-- Blanks may stand in front of each part of a type, but a path ends at a blank. -/
example : parse " demo::Map < $ K,[ u8 ] > " = .ok (named "demo::Map" [var "K", array (named "u8" [])]) ∧
    parse "demo ::Map" = .error ⟨"demo ::Map", 5, .trailingCharacters⟩ := ⟨rfl, rfl⟩

end Marshal.TypeRef
