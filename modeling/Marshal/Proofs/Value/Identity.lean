import Marshal.Proofs.Text.Quoted
import Marshal.Value.Text

/-!
# What the text of a value tells

The keys of a map are told by their texts (`Value.display`).  The text of a map is that of the list of its pairs, so a
text does not tell a map from a list: it tells of a value what is left when every map in it is replaced by the list of
its pairs (`Value.listed`).  That two values are told so by their texts, even in front of other texts, is
`Value.Told`; lists and maps are, if their elements are (`Value.told_list`, `Value.told_map`).
-/

namespace Marshal

open Text (escape quote)

namespace Value

/-! ### Maps as lists -/

mutual

/-- The value with every map replaced by the list of its pairs. -/
def listed : Value → Value
  | list items => list (listedItems items)
  | map entries => list (listedEntries entries)
  | v => v

def listedItems : List Value → List Value
  | [] => []
  | v :: vs => v.listed :: listedItems vs

def listedEntries : List (Value × Value) → List Value
  | [] => []
  | (k, v) :: es => list [k.listed, v.listed] :: listedEntries es

end

private theorem listedItems_eq (items : List Value) : listedItems items = items.map listed := by
  induction items with
  | nil => rfl
  | cons v vs ih => rw [listedItems, ih, List.map_cons]

/-- The list of the pairs of a map. -/
def pairs (entries : List (Value × Value)) : List Value := entries.map fun e => list [e.1, e.2]

theorem listed_list (items : List Value) : (list items).listed = list (items.map listed) := by
  rw [listed, listedItems_eq]

theorem listed_map (entries : List (Value × Value)) : (map entries).listed = (list (pairs entries)).listed := by
  have hentries : listedEntries entries = (pairs entries).map listed := by
    induction entries with
    | nil => rfl
    | cons e es ih =>
      have hpair : (list [e.1, e.2]).listed = list [e.1.listed, e.2.listed] := listed_list _
      rw [listedEntries, ih, ← hpair]
      rfl
  rw [listed_list, listed, hentries]

/-- The text of the elements of a list: the first one, and the others behind commas. -/
private theorem toList_displayItems (v : Value) (vs : List Value) : (displayItems (v :: vs)).toList =
    v.display.toList ++ vs.flatMap fun w => ',' :: w.display.toList := by
  induction vs generalizing v with
  | nil => simp [displayItems]
  | cons w vs ih => simp [displayItems, ih]

private theorem display_map (entries : List (Value × Value)) :
    (map entries).display = (list (pairs entries)).display := by
  have hentries : displayEntries entries = displayItems (pairs entries) := by
    induction entries with
    | nil => rfl
    | cons e es ih =>
      cases es with
      | nil => simp [displayEntries, displayItems, pairs, display, String.append_assoc]
      | cons e' es =>
        rw [displayEntries, ih]
        · simp [displayItems, pairs, display, String.append_assoc]
        · exact nofun
  rw [display, display, hentries]

/-- The text of a list comes from those of its elements. -/
private theorem display_list_congr {vs ws : List Value} (h : vs.map display = ws.map display) :
    (list vs).display = (list ws).display := by
  have hitems : ∀ {vs ws : List Value}, vs.map display = ws.map display → displayItems vs = displayItems ws := by
    intro vs ws h
    cases vs with
    | nil => rw [List.map_eq_nil_iff.1 h.symm]
    | cons v vs =>
      cases ws with
      | nil => cases h
      | cons w ws =>
        obtain ⟨hfirst, hrest⟩ := List.cons.inj h
        have hflat (us : List Value) : (us.flatMap fun u => ',' :: u.display.toList) =
            (us.map display).flatMap fun text => ',' :: text.toList := by rw [List.flatMap_map]
        apply String.toList_inj.1
        rw [toList_displayItems, toList_displayItems, hfirst, hflat, hflat, hrest]
  rw [display, display, hitems h]

mutual

theorem display_listed : ∀ v : Value, v.listed.display = v.display
  | list items => by rw [listed_list, display_list_congr (displays_listed items)]
  | map entries => by rw [listed_map, listed_list, display_map, display_list_congr (displays_listed_pairs entries)]
  | null | bool _ | int _ | float _ | bigInt _ | decimal _ | number _ | char _ | str _ | path _ | ip _ | enum _ _
  | object _ _ => by rw [listed] <;> exact nofun

private theorem displays_listed : ∀ items : List Value, (items.map listed).map display = items.map display
  | [] => rfl
  | v :: vs => by rw [List.map_cons, List.map_cons, List.map_cons, display_listed v, displays_listed vs]

private theorem displays_listed_pairs : ∀ entries : List (Value × Value),
    ((pairs entries).map listed).map display = (pairs entries).map display
  | [] => rfl
  | (k, v) :: es => by
    have hpair : (list [k, v]).listed.display = (list [k, v]).display := by
      rw [listed_list]
      exact display_list_congr (by simp [display_listed k, display_listed v])
    have hrest := displays_listed_pairs es
    rw [pairs] at hrest ⊢
    rw [List.map_cons, List.map_cons, List.map_cons, List.map_cons, hpair, hrest]

end

/-! ### Texts of values -/

/-- What begins with a comma or a closing bracket, which end the text of a value, or is nothing at all. -/
def Ends (s : List Char) : Prop := ∀ c, s.head? = some c → c = ',' ∨ c = ']'

/-- A text without brackets, commas and quotes. -/
structure Bare (s : List Char) : Prop where
  ne_nil : s ≠ []
  not_mem : ∀ c ∈ s, c ∉ [',', ']', '[', '\x7b', '"']

theorem bare_of_all {s : List Char} (hne : s ≠ []) (h : (s.all fun c => c ∉ [',', ']', '[', '\x7b', '"']) = true) :
    Bare s :=
  ⟨hne, fun c hc => of_decide_eq_true (List.all_eq_true.1 h c hc)⟩

/-- The opening bracket or quote of the text of a value. -/
def opening? : Value → Option Char
  | list _ | map _ => some '['
  | object .. => some '\x7b'
  | char _ | str _ | path _ | ip _ | enum .. => some '"'
  | null | bool _ | int _ | float _ | bigInt _ | decimal _ | number _ => none

/-- Without an opening bracket or quote the text of the value is bare. -/
def Spelled (v : Value) : Prop := v.opening? = none → Bare v.display.toList

variable {v w : Value}

private theorem exists_of_opening? {c : Char} (h : v.opening? = some c) :
    ∃ s, v.display.toList = c :: s ∧ c ∈ ['[', '\x7b', '"'] := by
  cases v <;> simp only [opening?, Option.some.injEq, reduceCtorEq] at h <;> subst h <;>
    simp [display, quoted, quote]

/-- The text of a value is not empty, and does not begin with what ends a text. -/
private theorem Spelled.head (h : v.Spelled) : ∃ c s, v.display.toList = c :: s ∧ c ≠ ',' ∧ c ≠ ']' ∧
    (v.opening? = none → c ∉ ['[', '\x7b', '"']) := by
  cases hv : v.opening? with
  | none =>
    obtain ⟨hne, hnot⟩ := h hv
    obtain ⟨c, s, hcs⟩ := List.exists_cons_of_ne_nil hne
    have hc := hnot c (hcs ▸ List.mem_cons_self)
    simp only [List.mem_cons, List.not_mem_nil, or_false, not_or] at hc
    exact ⟨c, s, hcs, hc.1, hc.2.1, fun _ => by simp [hc]⟩
  | some c =>
    obtain ⟨s, hcs, hc⟩ := exists_of_opening? hv
    refine ⟨c, s, hcs, ?_, ?_, nofun⟩
    · rintro rfl
      simp at hc
    · rintro rfl
      simp at hc

/-! ### Values told by their texts -/

/-- If the texts of the values are the same, even with more behind them, so are the values, up to their maps. -/
def Told (v w : Value) : Prop := ∀ s t, Ends s → Ends t → v.display.toList ++ s = w.display.toList ++ t →
  v.listed = w.listed ∧ s = t

private theorem ends_nil : Ends [] := nofun

theorem Told.listed_eq (h : v.Told w) (heq : v.display = w.display) : v.listed = w.listed :=
  (h [] [] ends_nil ends_nil (by rw [heq])).1

theorem Told.symm (h : v.Told w) : w.Told v := by
  intro s t hs ht heq
  obtain ⟨hlisted, hst⟩ := h t s ht hs heq.symm
  exact ⟨hlisted.symm, hst.symm⟩

/-- Values whose texts open differently are told. -/
theorem told_of_opening?_ne (hv : v.Spelled) (hw : w.Spelled) (h : v.opening? ≠ w.opening?) : v.Told w := by
  intro s t _ _ heq
  obtain ⟨c, s', hcs, -, -, hc⟩ := hv.head
  obtain ⟨d, t', hdt, -, -, hd⟩ := hw.head
  rw [hcs, hdt] at heq
  obtain ⟨rfl, -⟩ := List.cons.inj heq
  -- both texts begin with the same character, which opens both of them or none
  cases hov : v.opening? with
  | none =>
    cases how : w.opening? with
    | none => exact absurd (hov.trans how.symm) h
    | some e =>
      obtain ⟨_, hes, he⟩ := exists_of_opening? how
      obtain ⟨rfl, -⟩ := List.cons.inj (hdt.symm.trans hes)
      exact absurd he (hc hov)
  | some e =>
    obtain ⟨_, hes, he⟩ := exists_of_opening? hov
    obtain ⟨rfl, -⟩ := List.cons.inj (hcs.symm.trans hes)
    cases how : w.opening? with
    | none => exact absurd he (hd how)
    | some e' =>
      obtain ⟨_, hes', -⟩ := exists_of_opening? how
      obtain ⟨rfl, -⟩ := List.cons.inj (hdt.symm.trans hes')
      exact absurd (hov.trans how.symm) h

private theorem Bare.cancel {x y s t : List Char} (hx : Bare x) (hy : Bare y) (hs : Ends s) (ht : Ends t)
    (h : x ++ s = y ++ t) : x = y ∧ s = t := by
  have hnot {x : List Char} (hx : Bare x) : ∀ c ∈ x, c ≠ ',' ∧ c ≠ ']' := by
    intro c hc
    have hnot := hx.not_mem c hc
    simp only [List.mem_cons, not_or] at hnot
    exact ⟨hnot.1, hnot.2.1⟩
  -- one of the texts is the beginning of the other one, and what it leaves of it does not end a text
  rcases List.append_eq_append_iff.1 h with ⟨z, rfl, rfl⟩ | ⟨z, rfl, rfl⟩
  · cases z with
    | nil => simp
    | cons c z =>
      obtain ⟨hcomma, hbracket⟩ := hnot hy c (by simp)
      exact absurd (hs c rfl) (by simp [hcomma, hbracket])
  · cases z with
    | nil => simp
    | cons c z =>
      obtain ⟨hcomma, hbracket⟩ := hnot hx c (by simp)
      exact absurd (ht c rfl) (by simp [hcomma, hbracket])

theorem told_bare (hv : Bare v.display.toList) (hw : Bare w.display.toList)
    (h : v.display = w.display → v.listed = w.listed) : v.Told w := by
  intro s t hs ht heq
  obtain ⟨htext, hst⟩ := hv.cancel hw hs ht heq
  exact ⟨h (String.toList_inj.1 htext), hst⟩

theorem told_quoted {x y : String} (hv : v.display = quoted x) (hw : w.display = quoted y)
    (h : x = y → v.listed = w.listed) : v.Told w := by
  intro s t _ _ heq
  have hquoted : quote x.toList ++ s = quote y.toList ++ t := by simpa [hv, hw, quoted] using heq
  -- what is quoted reads back
  obtain ⟨hxy, hst⟩ := Text.quote_cancel hquoted
  exact ⟨h (String.toList_inj.1 hxy), hst⟩

/-! ### Lists -/

private theorem ends_rest (vs : List Value) (s : List Char) :
    Ends ((vs.flatMap fun w => ',' :: w.display.toList) ++ ']' :: s) := by
  intro c hc
  cases vs with
  | nil => exact .inr (Option.some.inj hc).symm
  | cons v vs => exact .inl (Option.some.inj hc).symm

/-- The elements behind the first one. -/
private theorem rest_cancel {s t : List Char} : ∀ (vs ws : List Value), (∀ p ∈ vs.zip ws, Told p.1 p.2) →
    (vs.flatMap fun w => ',' :: w.display.toList) ++ ']' :: s = (ws.flatMap fun w => ',' :: w.display.toList) ++
    ']' :: t →
      vs.map listed = ws.map listed ∧ s = t
  | [], [], _, h => ⟨rfl, (List.cons.inj h).2⟩
  | [], w :: ws, _, h => nomatch (List.cons.inj h).1
  | v :: vs, [], _, h => nomatch (List.cons.inj h).1
  | v :: vs, w :: ws, htold, h => by
    rw [List.flatMap_cons, List.flatMap_cons, List.cons_append, List.cons_append, List.cons_append, List.cons_append,
      List.append_assoc, List.append_assoc] at h
    obtain ⟨hfirst, hothers⟩ := List.forall_mem_cons.1 htold
    obtain ⟨hvw, hrest⟩ := hfirst _ _ (ends_rest vs s) (ends_rest ws t) (List.cons.inj h).2
    obtain ⟨hlisted, hst⟩ := rest_cancel vs ws hothers hrest
    rw [List.map_cons, List.map_cons, hvw, hlisted]
    exact ⟨rfl, hst⟩

/-- Lists are told if the elements in the same places are. -/
theorem told_list {vs ws : List Value} (hvs : ∀ v ∈ vs, v.Spelled) (hws : ∀ w ∈ ws, w.Spelled)
    (h : ∀ p ∈ vs.zip ws, Told p.1 p.2) : (list vs).Told (list ws) := by
  intro s t _ _ heq
  simp only [display, String.toList_append, List.append_assoc] at heq
  replace heq : (displayItems vs).toList ++ ']' :: s = (displayItems ws).toList ++ ']' :: t := (List.cons.inj heq).2
  rw [listed_list, listed_list]
  cases vs with
  | nil =>
    cases ws with
    | nil => exact ⟨rfl, (List.cons.inj heq).2⟩
    | cons w ws =>
      obtain ⟨c, t', hct, -, hc, -⟩ := (hws w List.mem_cons_self).head
      rw [toList_displayItems, hct] at heq
      exact absurd (List.cons.inj heq).1.symm hc
  | cons v vs =>
    cases ws with
    | nil =>
      obtain ⟨c, s', hcs, -, hc, -⟩ := (hvs v List.mem_cons_self).head
      rw [toList_displayItems, hcs] at heq
      exact absurd (List.cons.inj heq).1 hc
    | cons w ws =>
      rw [toList_displayItems, toList_displayItems, List.append_assoc, List.append_assoc] at heq
      obtain ⟨hfirst, hothers⟩ := List.forall_mem_cons.1 h
      obtain ⟨hvw, hrest⟩ := hfirst _ _ (ends_rest vs s) (ends_rest ws t) heq
      obtain ⟨hlisted, hst⟩ := rest_cancel vs ws hothers hrest
      rw [List.map_cons, List.map_cons, hvw, hlisted]
      exact ⟨rfl, hst⟩

theorem told_map_left {es : List (Value × Value)} (h : (list (pairs es)).Told w) : (map es).Told w := by
  unfold Told
  rwa [display_map, listed_map]

theorem told_map_right {fs : List (Value × Value)} (h : v.Told (list (pairs fs))) : v.Told (map fs) := by
  unfold Told
  rwa [display_map, listed_map]

theorem spelled_of_opening? {c : Char} (h : v.opening? = some c) : v.Spelled := fun h' => nomatch h.symm.trans h'

theorem spelled_of_mem_pairs {es : List (Value × Value)} : ∀ v ∈ pairs es, v.Spelled :=
  List.forall_mem_map.2 fun _ _ => spelled_of_opening? rfl

/-- Maps are told if their keys are and their values are. -/
theorem told_map {es fs : List (Value × Value)} (hes : ∀ e ∈ es, e.1.Spelled ∧ e.2.Spelled)
    (hfs : ∀ f ∈ fs, f.1.Spelled ∧ f.2.Spelled) (h : ∀ e ∈ es, ∀ f ∈ fs, Told e.1 f.1 ∧ Told e.2 f.2) :
    (map es).Told (map fs) := by
  refine told_map_left (told_map_right (told_list spelled_of_mem_pairs spelled_of_mem_pairs ?_))
  rintro ⟨v, w⟩ hp
  obtain ⟨hv, hw⟩ := List.of_mem_zip hp
  obtain ⟨e, he, rfl⟩ := List.mem_map.1 hv
  obtain ⟨f, hf, rfl⟩ := List.mem_map.1 hw
  obtain ⟨hkey, hvalue⟩ := h e he f hf
  have hparts {e : Value × Value} (he : e.1.Spelled ∧ e.2.Spelled) : ∀ v ∈ [e.1, e.2], v.Spelled :=
    List.forall_mem_cons.2 ⟨he.1, List.forall_mem_singleton.2 he.2⟩
  exact told_list (hparts (hes e he)) (hparts (hfs f hf))
    (List.forall_mem_cons.2 ⟨hkey, List.forall_mem_singleton.2 hvalue⟩)

end Value

end Marshal
