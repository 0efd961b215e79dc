import Marshal.Proofs.Converter.Entries
import Marshal.Proofs.Converter.Natives
import Marshal.Proofs.Number.Characters
import Marshal.Proofs.Value.Equality
import Marshal.Proofs.Value.Identity

/-!
# Keys that were read

What a native kind has read has a name, which the kind reads as the same key (`NativeKind.eq_null_or_exists_name`),
and so the texts of keys tell them apart.  So do the texts of what any codec without floats reads, up to maps in the
place of lists (`Codec.tells`), if numbers of unknown type are integers.  A codec that reads nothing of unknown type
does not read a map and a list in the same place (`Codec.parts`), and what is read without floats and paths equals
only itself (`Codec.exact`).
-/

namespace Marshal

open Value (Bare Told bare_of_all told_bare told_quoted told_list told_map told_of_opening?_ne)

/-! ### Names -/

namespace NativeKind

variable {kind : NativeKind} {k : Value}

def isFloat : NativeKind → Bool
  | f32 | f64 => true
  | _ => false

/-- The key that a name stands for. -/
def ofName? (kind : NativeKind) (name : String) : Option Value := (kind.ofDocument? (.string name)).map Value.orNull

private theorem ne_json (hkind : kind.isKey = true) : kind ≠ .json := by
  rintro rfl
  cases hkind

theorem ofName?_eq {kind : NativeKind} (hkind : kind.isKey = true) (name : String) :
    kind.ofName? name = kind.ofText? name := by
  rw [ofName?, ofDocument?_eq (by simp) (ne_json hkind) fun _ => rfl, Document.text?, Option.bind_some]
  cases kind.ofText? name <;> rfl

private theorem ofText?_bool (b : Bool) : bool.ofText? (if b then "true" else "false") = some (.bool b) := by
  cases b <;> rfl

/-- What a kind makes of a text has a text, and the kind makes the same of that one.  For integers it is another text,
and the text of a float could be that of another float. -/
private theorem exists_keyText_of_ofText? (hfloat : kind.isFloat = false) {text : String}
    (h : kind.ofText? text = some k) : ∃ name, k.keyText? = some name ∧ kind.ofText? name = some k := by
  cases fromText_of_ofText? h with
  | bool b => exact ⟨_, rfl, ofText?_bool b⟩
  | int hkind hfits =>
    refine ⟨_, rfl, ?_⟩
    rcases hkind with rfl | rfl | rfl | rfl <;>
      simp only [ofText?, integralText?_toString, Option.bind_some, hfits, if_true]
  | float hkind => rcases hkind with rfl | rfl <;> cases hfloat
  | char c => exact ⟨String.singleton c, rfl, by simp only [ofText?, String.toList_singleton]⟩
  | string text => exact ⟨text, rfl, rfl⟩
  | bigInt hlexeme | bigDecimal hlexeme | number hlexeme => exact ⟨_, rfl, if_pos hlexeme⟩
  | path text => exact ⟨text, congrArg some (Path.text_ofText text), rfl⟩
  | ipAddr a => exact ⟨a.text, rfl, by rw [ofText?, Address.ofText?_text, Option.map_some]⟩

/-- A key that was read, off a name or off the key of a pair, is a null or has a name that stands for it. -/
theorem eq_null_or_exists_name (hkind : kind.isKey = true) (hfloat : kind.isFloat = false) {j : Document}
    {u : Option Value} (h : kind.ofDocument? j = some u) :
    Value.orNull u = .null ∨ ∃ name, (Value.orNull u).keyText? = some name ∧
      kind.ofName? name = some (Value.orNull u) := by
  have hname {k : Value} {text : String} (hk : kind.ofText? text = some k) :
      ∃ name, k.keyText? = some name ∧ kind.ofName? name = some k := by
    obtain ⟨name, hname, hread⟩ := exists_keyText_of_ofText? hfloat hk
    exact ⟨name, hname, (ofName?_eq hkind name).trans hread⟩
  by_cases hnull : j = .null
  · subst hnull
    obtain rfl := Option.some.inj (kind.ofDocument?_null.symm.trans h)
    exact .inl rfl
  by_cases hflag : kind = .bool ∧ j.flag? ≠ none
  · -- a literal is read as it stands
    obtain ⟨rfl, hj⟩ := hflag
    cases j with
    | bool b =>
      obtain rfl := Option.some.inj h
      exact .inr (hname (ofText?_bool b))
    | _ => exact absurd rfl hj
  · rw [ofDocument?_eq hnull (ne_json hkind) fun hbool => by_contra fun hj => hflag ⟨hbool, hj⟩] at h
    obtain ⟨k, hk, rfl⟩ := Option.map_eq_some_iff.1 h
    obtain ⟨text, -, hk⟩ := Option.bind_eq_some_iff.1 hk
    exact .inr (hname hk)

end NativeKind

/-! ### Texts of numbers -/

section Numbers

variable {s : List Char}

/-- The characters that a bare text must not have are in no text of a number. -/
private theorem bare_of_isNumeric (hne : s ≠ []) (h : ∀ x ∈ s, isNumeric x = true) : Bare s := by
  have hnot : [',', ']', '[', '\x7b', '"'].any isNumeric = false := by decide
  exact ⟨hne, fun x hmem hx => List.any_eq_false.1 hnot x hx (h x hmem)⟩

private theorem bare_of_floatText? (h : (floatText? s).isSome = true) : Bare s := by
  refine bare_of_isNumeric ?_ (isNumeric_of_floatText? h)
  rintro rfl
  revert h
  decide

private theorem bare_of_isIntegerLexeme (h : isIntegerLexeme s = true) : Bare s := by
  refine bare_of_isNumeric ?_ (isNumeric_of_isIntegerLexeme h)
  rintro rfl
  cases h

private theorem bare_toString (n : Int) : Bare (toString n).toList := by
  have hdigits (k : Nat) : ∀ x ∈ Nat.toDigits 10 k, isNumeric x = true := isNumeric_of_isDigits (isDigits_toDigits k)
  rw [toList_toString_int]
  by_cases hn : 0 ≤ n
  · rw [if_pos hn]
    exact bare_of_isNumeric Nat.toDigits_ne_nil (hdigits _)
  · rw [if_neg hn]
    exact bare_of_isNumeric (List.cons_ne_nil _ _) (List.forall_mem_cons.2 ⟨rfl, hdigits _⟩)

end Numbers

/-! ### What is read -/

/-- All numbers of the document are plain integers. -/
inductive Document.Integral : Document → Prop
  | null : Integral .null
  | bool (b : Bool) : Integral (.bool b)
  | string (s : String) : Integral (.string s)
  | number {lexeme : String} (h : isIntegerLexeme lexeme.toList = true) : Integral (.number lexeme)
  | array {js : List Document} (h : ∀ j ∈ js, Integral j) : Integral (.array js)
  | object {es : List (String × Document)} (h : ∀ e ∈ es, Integral e.2) : Integral (.object es)

/-- The value, or null, is read off a document without numbers that are no integers. -/
def ReadOff (read : Document → Option (Option Value)) (v : Value) : Prop :=
  ∃ j : Document, j.Integral ∧ ReadAs read j v

/-- What is read is told by its text. -/
structure Tells (read : Document → Option (Option Value)) : Prop where
  spelled {v : Value} (hv : ReadOff read v) : v.Spelled
  told {v w : Value} (hv : ReadOff read v) (hw : ReadOff read w) : v.Told w

/-- What is read equals only itself. -/
def Exact (read : Document → Option (Option Value)) : Prop := ∀ ⦃v : Value⦄, ReadOff read v → v.Exact

/-- Values that are read in the same place are the same if they are when maps are replaced by lists. -/
def Parts (read : Document → Option (Option Value)) : Prop :=
  ∀ ⦃v w : Value⦄, ReadOff read v → ReadOff read w → v.listed = w.listed → v = w

section Containers

variable {read item key value : Document → Option (Option Value)}

private theorem spelled_null : Value.null.Spelled := fun _ => bare_of_all nofun rfl

private theorem exact_null : Value.null.Exact := Value.exact_of_isLeaf rfl nofun nofun

private theorem told_null : Told .null .null := told_bare (spelled_null rfl) (spelled_null rfl) fun _ => rfl

/-- What is read is null, or a list of what is read of elements. -/
def ReadsLists (read item : Document → Option (Option Value)) : Prop := ∀ v, ReadOff read v →
  v = .null ∨ ∃ vs, v = .list vs ∧ ∀ u ∈ vs, ReadOff item u

/-- What is read is null, or a map of what is read of keys to what is read of values. -/
def ReadsMaps (read key value : Document → Option (Option Value)) : Prop := ∀ v, ReadOff read v →
  v = .null ∨ ∃ es, v = .map es ∧ ∀ e ∈ es, ReadOff key e.1 ∧ ReadOff value e.2

private theorem tells_of_null (h : ∀ v, ReadOff read v → v = .null) : Tells read where
  spelled hv := h _ hv ▸ spelled_null
  told hv hw := h _ hv ▸ h _ hw ▸ told_null

/-- Of nulls and of lists, in either form, only the lists are to be told. -/
private theorem tells_of_bracket (h : ∀ v, ReadOff read v → v = .null ∨ v.opening? = some '[')
    (htold : ∀ v w, ReadOff read v → ReadOff read w → v ≠ .null → w ≠ .null → Told v w) : Tells read := by
  have hspelled {v : Value} (hv : ReadOff read v) : v.Spelled := by
    rcases h v hv with rfl | hopening
    · exact spelled_null
    · exact Value.spelled_of_opening? hopening
  refine ⟨hspelled, fun {v w} hv hw => ?_⟩
  by_cases hopening : v.opening? = w.opening?
  · rcases h v hv with rfl | hv'
    · rcases h w hw with rfl | hw'
      · exact told_null
      · cases hopening.trans hw'
    · have hw' := hopening.symm.trans hv'
      exact htold v w hv hw (by rintro rfl; cases hv') (by rintro rfl; cases hw')
  · exact told_of_opening?_ne (hspelled hv) (hspelled hw) hopening

private theorem Tells.lists (h : ReadsLists read item) (hitem : Tells item) : Tells read := by
  refine tells_of_bracket (fun v hv => ?_) fun v w hv hw hv' hw' => ?_
  · rcases h v hv with rfl | ⟨vs, rfl, -⟩
    · exact .inl rfl
    · exact .inr rfl
  · obtain ⟨vs, rfl, hvs⟩ := (h v hv).resolve_left hv'
    obtain ⟨ws, rfl, hws⟩ := (h w hw).resolve_left hw'
    refine told_list (fun u hu => hitem.spelled (hvs u hu)) (fun u hu => hitem.spelled (hws u hu)) ?_
    rintro ⟨u, u'⟩ hp
    obtain ⟨hu, hu'⟩ := List.of_mem_zip hp
    exact hitem.told (hvs u hu) (hws u' hu')

private theorem Tells.maps (h : ReadsMaps read key value) (hkey : Tells key) (hvalue : Tells value) : Tells read := by
  refine tells_of_bracket (fun v hv => ?_) fun v w hv hw hv' hw' => ?_
  · rcases h v hv with rfl | ⟨es, rfl, -⟩
    · exact .inl rfl
    · exact .inr rfl
  · obtain ⟨es, rfl, hes⟩ := (h v hv).resolve_left hv'
    obtain ⟨fs, rfl, hfs⟩ := (h w hw).resolve_left hw'
    refine told_map (fun e he => ?_) (fun f hf => ?_) fun e he f hf => ?_
    · exact ⟨hkey.spelled (hes e he).1, hvalue.spelled (hes e he).2⟩
    · exact ⟨hkey.spelled (hfs f hf).1, hvalue.spelled (hfs f hf).2⟩
    · exact ⟨hkey.told (hes e he).1 (hfs f hf).1, hvalue.told (hes e he).2 (hfs f hf).2⟩

private theorem Exact.lists (h : ReadsLists read item) (hitem : Exact item) : Exact read := by
  intro v hv
  rcases h v hv with rfl | ⟨vs, rfl, hvs⟩
  · exact exact_null
  · exact Value.exact_list fun u hu => hitem (hvs u hu)

private theorem Exact.maps (h : ReadsMaps read key value) (hkey : Exact key) (hvalue : Exact value) : Exact read := by
  intro v hv
  rcases h v hv with rfl | ⟨es, rfl, hes⟩
  · exact exact_null
  · exact Value.exact_map fun e he => ⟨hkey (hes e he).1, hvalue (hes e he).2⟩

private theorem readOff_of_entries {j : Document} {kvs : List (Value × Value)} (h : EntriesReadAs key value j kvs)
    (hj : j.Integral) : ∀ e ∈ kvs, ReadOff key e.1 ∧ ReadOff value e.2 := by
  intro e he
  cases h with
  | named h =>
    obtain ⟨p, hp, hk, hv⟩ := forall₂_of_mem_right (named?_eq_some.1 h).1 he
    cases hj with
    | object hes => exact ⟨⟨_, .string p.1, hk⟩, ⟨_, hes p hp, hv⟩⟩
  | pairs h =>
    obtain ⟨j, hmem, hread⟩ := forall₂_of_mem_right (pairs?_eq_some.1 h).1 he
    cases hj with
    | array hjs =>
      have hpair := hjs j hmem
      cases hread with
      | mk hk hv =>
        cases hpair with
        | array hparts =>
          obtain ⟨hi, hj⟩ := List.forall_mem_cons.1 hparts
          exact ⟨⟨_, hi, hk⟩, ⟨_, List.forall_mem_singleton.1 hj, hv⟩⟩

private theorem readsMaps_map? : ReadsMaps (map? key value) key value := by
  rintro v ⟨j, hj, u, hu, rfl⟩
  rcases eq_none_or_exists_of_map? hu with rfl | ⟨kvs, rfl, hread⟩
  · exact .inl rfl
  · exact .inr ⟨kvs, rfl, readOff_of_entries hread hj⟩

private theorem eq_of_map_listed {α : Type} {f : α → Value} {P : α → Prop}
    (h : ∀ a b, P a → P b → f a = f b → a = b) : ∀ {as bs : List α}, (∀ a ∈ as, P a) → (∀ b ∈ bs, P b) →
      as.map f = bs.map f → as = bs
  | [], [], _, _, _ => rfl
  | [], _ :: _, _, _, heq => nomatch heq
  | _ :: _, [], _, _, heq => nomatch heq
  | a :: as, b :: bs, has, hbs, heq => by
    obtain ⟨ha, has⟩ := List.forall_mem_cons.1 has
    obtain ⟨hb, hbs⟩ := List.forall_mem_cons.1 hbs
    rw [List.map_cons, List.map_cons] at heq
    obtain ⟨hab, hrest⟩ := List.cons.inj heq
    rw [h a b ha hb hab, eq_of_map_listed h has hbs hrest]

private theorem Parts.lists (h : ReadsLists read item) (hitem : Parts item) : Parts read := by
  intro v w hv hw heq
  rcases h v hv with rfl | ⟨vs, rfl, hvs⟩
  · rcases h w hw with rfl | ⟨ws, rfl, -⟩
    · rfl
    · cases heq
  · rcases h w hw with rfl | ⟨ws, rfl, hws⟩
    · cases heq
    · rw [Value.listed_list, Value.listed_list] at heq
      injection heq with heq
      rw [eq_of_map_listed (fun _ _ hu hu' => hitem hu hu') hvs hws heq]

private theorem Parts.maps (h : ReadsMaps read key value) (hkey : Parts key) (hvalue : Parts value) : Parts read := by
  intro v w hv hw heq
  rcases h v hv with rfl | ⟨es, rfl, hes⟩
  · rcases h w hw with rfl | ⟨fs, rfl, -⟩
    · rfl
    · rw [Value.listed_map, Value.listed_list] at heq
      cases heq
  · rcases h w hw with rfl | ⟨fs, rfl, hfs⟩
    · rw [Value.listed_map, Value.listed_list] at heq
      cases heq
    · rw [Value.listed_map, Value.listed_map, Value.listed_list, Value.listed_list, Value.pairs, Value.pairs,
        List.map_map, List.map_map] at heq
      injection heq with heq
      -- the pair of an entry is the list of its key and its value
      refine congrArg Value.map (eq_of_map_listed (P := fun e => ReadOff key e.1 ∧ ReadOff value e.2) ?_ hes hfs heq)
      rintro ⟨k, v⟩ ⟨k', v'⟩ ⟨hk, hv⟩ ⟨hk', hv'⟩ hpair
      simp only [Function.comp_apply, Value.listed_list, List.map_cons, List.map_nil, Value.list.injEq,
        List.cons.injEq, and_true] at hpair
      exact congrArg₂ Prod.mk (hkey hk hk' hpair.1) (hvalue hv hv' hpair.2)

/-- A property of reading that lists and maps inherit from what is read of their parts. -/
structure Inherited (P : (Document → Option (Option Value)) → Prop) : Prop where
  null {read : Document → Option (Option Value)} (h : ∀ v, ReadOff read v → v = .null) : P read
  lists {read item : Document → Option (Option Value)} (h : ReadsLists read item) (hitem : P item) : P read
  maps {read key value : Document → Option (Option Value)} (h : ReadsMaps read key value) (hkey : P key)
    (hvalue : P value) : P read

private theorem inherited_tells : Inherited Tells := ⟨tells_of_null, Tells.lists, Tells.maps⟩

private theorem inherited_exact : Inherited Exact := ⟨fun h _ hv => h _ hv ▸ exact_null, Exact.lists, Exact.maps⟩

private theorem inherited_parts : Inherited Parts :=
  ⟨fun h v w hv hw _ => (h v hv).trans (h w hw).symm, Parts.lists, Parts.maps⟩

end Containers

/-! ### Natives -/

/-- The text of what has a name is the name, as it is or in quotes. -/
private theorem Value.display_of_keyText? {v : Value} {name : String} (h : v.keyText? = some name) :
    v.opening? = some '"' ∧ v.display = Value.quoted name ∨ v.opening? = none ∧ v.display = name := by
  cases v <;> simp only [Value.keyText?, Option.some.injEq, reduceCtorEq] at h <;> subst h <;>
    simp [Value.opening?, Value.display]

namespace NativeKind

variable {kind : NativeKind}

private theorem FromText.spelled {v : Value} (h : kind.FromText v) (hfloat : kind.isFloat = false) : v.Spelled := by
  intro hopening
  cases h with
  | bool b => cases b <;> exact bare_of_all nofun rfl
  | @int _ n => exact bare_toString n.toInt
  | float hkind => rcases hkind with rfl | rfl <;> cases hfloat
  | bigInt hlexeme => exact bare_of_isIntegerLexeme hlexeme
  | bigDecimal hlexeme | number hlexeme => exact bare_of_floatText? hlexeme
  | char | string | path | ipAddr => cases hopening

private theorem FromText.exact {v : Value} (h : kind.FromText v) (hfloat : kind.isFloat = false)
    (hpath : kind ≠ .path) : v.Exact := by
  cases h with
  | float hkind => rcases hkind with rfl | rfl <;> cases hfloat
  | path => exact absurd rfl hpath
  | _ => exact Value.exact_of_isLeaf rfl nofun nofun

/-- No bare key has the text of a null. -/
private theorem opening?_of_ofText?_null {v : Value} (hfloat : kind.isFloat = false)
    (h : kind.ofText? "null" = some v) : v.opening? ≠ none := by
  cases kind with
  | f32 | f64 => cases hfloat
  | string | path =>
    obtain rfl := Option.some.inj h
    exact nofun
  | _ => cases h

/-- What is read of a native kind is null, or the key of a name. -/
private theorem readOff (hkind : kind.isKey = true) (hfloat : kind.isFloat = false) {v : Value}
    (h : ReadOff kind.ofDocument? v) : v = .null ∨ ∃ name, v.keyText? = some name ∧ kind.ofText? name = some v := by
  obtain ⟨j, -, u, hu, rfl⟩ := h
  refine (eq_null_or_exists_name hkind hfloat hu).imp_right fun ⟨name, hname, hkey⟩ => ?_
  exact ⟨name, hname, ofName?_eq hkind name ▸ hkey⟩

/-- A null is told from a bare key. -/
private theorem told_null_of_readOff (hkind : kind.isKey = true) (hfloat : kind.isFloat = false) {w : Value}
    (hw : ReadOff kind.ofDocument? w) (hspelled : w.Spelled) (hopening : w.opening? = none) : Told .null w := by
  rcases readOff hkind hfloat hw with rfl | ⟨name, hname, hkey⟩
  · exact told_null
  · refine told_bare (spelled_null rfl) (hspelled hopening) fun heq => ?_
    rcases Value.display_of_keyText? hname with ⟨hquoted, -⟩ | ⟨-, hdisplay⟩
    · cases hopening.symm.trans hquoted
    · exact absurd hopening (opening?_of_ofText?_null hfloat (by rwa [← hdisplay, ← heq] at hkey))

private theorem tells (hkind : kind.isKey = true) (hfloat : kind.isFloat = false) : Tells kind.ofDocument? := by
  have hspelled {v : Value} (hv : ReadOff kind.ofDocument? v) : v.Spelled := by
    rcases readOff hkind hfloat hv with rfl | ⟨name, -, hkey⟩
    · exact spelled_null
    · exact (fromText_of_ofText? hkey).spelled hfloat
  refine ⟨hspelled, fun {v w} hv hw => ?_⟩
  by_cases hopening : v.opening? = w.opening?
  · rcases readOff hkind hfloat hv with rfl | ⟨name, hname, hkey⟩
    · exact told_null_of_readOff hkind hfloat hw (hspelled hw) hopening.symm
    · rcases readOff hkind hfloat hw with rfl | ⟨name', hname', hkey'⟩
      · exact (told_null_of_readOff hkind hfloat hv (hspelled hv) hopening).symm
      · -- keys of one name are the same
        have heq (heq : name = name') : v.listed = w.listed := by
          subst heq
          rw [Option.some.inj (hkey.symm.trans hkey')]
        rcases Value.display_of_keyText? hname with ⟨hquoted, hdisplay⟩ | ⟨hbare, hdisplay⟩
        · rcases Value.display_of_keyText? hname' with ⟨-, hdisplay'⟩ | ⟨hbare', -⟩
          · exact told_quoted hdisplay hdisplay' heq
          · cases hquoted.symm.trans (hopening.trans hbare')
        · rcases Value.display_of_keyText? hname' with ⟨hquoted', -⟩ | ⟨hbare', hdisplay'⟩
          · cases hbare.symm.trans (hopening.trans hquoted')
          · exact told_bare (hspelled hv hbare) (hspelled hw hbare') fun h => heq (by rw [← hdisplay, ← hdisplay', h])
  · exact told_of_opening?_ne (hspelled hv) (hspelled hw) hopening

private theorem exact (hkind : kind.isKey = true) (hfloat : kind.isFloat = false) (hpath : kind ≠ .path) :
    Exact kind.ofDocument? := by
  intro v hv
  rcases readOff hkind hfloat hv with rfl | ⟨name, -, hkey⟩
  · exact exact_null
  · exact (fromText_of_ofText? hkey).exact hfloat hpath

/-- Natives are no lists and no maps. -/
private theorem parts (hkind : kind.isKey = true) (hfloat : kind.isFloat = false) : Parts kind.ofDocument? := by
  have hlisted {v : Value} (hv : ReadOff kind.ofDocument? v) : v.listed = v := by
    rcases readOff hkind hfloat hv with rfl | ⟨name, hname, -⟩
    · rfl
    · cases v <;> first | rfl | cases hname
  intro v w hv hw heq
  rwa [hlisted hv, hlisted hw] at heq

end NativeKind

/-! ### Values of unknown type -/

namespace Value

/-- The values of documents whose numbers are integers. -/
inductive Shaped : Value → Prop
  | null : Shaped .null
  | bool (b : Bool) : Shaped (.bool b)
  | int (n : Int64) : Shaped (.int n)
  | bigInt {lexeme : String} (hint : isIntegerLexeme lexeme.toList = true) (hn : int64Text? lexeme.toList = none) :
    Shaped (.bigInt lexeme)
  | str (s : String) : Shaped (.str s)
  | list {vs : List Value} (h : ∀ v ∈ vs, Shaped v) : Shaped (.list vs)
  | map {es : List (Value × Value)} (hkeys : ∀ e ∈ es, ∃ name, e.1 = .str name) (h : ∀ e ∈ es, Shaped e.2) :
      Shaped (.map es)

private theorem shaped_of_ofDocument? {j : Document} (hj : j.Integral) :
    ∀ {u : Option Value}, ofDocument? j = some u → (orNull u).Shaped := by
  induction hj with
  | null =>
    intro u h
    obtain rfl := Option.some.inj h
    exact .null
  | bool b =>
    intro u h
    obtain rfl := Option.some.inj h
    exact .bool b
  | string s =>
    intro u h
    obtain rfl := Option.some.inj h
    exact .str s
  | @number lexeme hint =>
    intro u h
    obtain ⟨v, hv, rfl⟩ := Option.map_eq_some_iff.1 h
    unfold ofLexeme? at hv
    cases hn : int64Text? lexeme.toList with
    | some n =>
      rw [hn] at hv
      obtain rfl := Option.some.inj hv
      exact .int n
    | none =>
      rw [hn] at hv
      dsimp only at hv
      rw [if_pos hint] at hv
      obtain rfl := Option.some.inj hv
      exact .bigInt hint hn
  | @array js _ ih =>
    intro u h
    rw [ofDocument?, ofItems?_eq] at h
    obtain ⟨vs, hvs, rfl⟩ := Option.map_eq_some_iff.1 h
    refine .list fun v hv => ?_
    obtain ⟨j, hj, w, hw, rfl⟩ := forall₂_of_mem_right (items?_eq_some.1 hvs) hv
    exact ih j hj hw
  | @object es _ ih =>
    intro u h
    rw [ofDocument?, ofEntries?_eq] at h
    obtain ⟨kvs, hkvs, rfl⟩ := Option.map_eq_some_iff.1 h
    obtain ⟨xs, hxs, hdistinct⟩ := Option.bind_eq_some_iff.1 hkvs
    obtain ⟨-, rfl⟩ := distinct?_eq_some.1 hdistinct
    have hentry : ∀ x ∈ xs, (∃ name, x.2.1 = .str name) ∧ x.2.2.Shaped := by
      intro x hx
      obtain ⟨e, he, hread⟩ := forall₂_of_mem_right (mapM_eq_some.1 hxs) hx
      obtain ⟨w, hw, rfl⟩ := Option.map_eq_some_iff.1 hread
      exact ⟨⟨e.1, rfl⟩, ih e he hw⟩
    exact .map (List.forall_mem_map.2 fun x hx => (hentry x hx).1) (List.forall_mem_map.2 fun x hx => (hentry x hx).2)

private theorem Shaped.spelled {v : Value} (h : v.Shaped) : v.Spelled := by
  intro hopening
  cases h with
  | null => exact spelled_null rfl
  | bool b => cases b <;> exact bare_of_all nofun rfl
  | int n => exact bare_toString n.toInt
  | bigInt hint => exact bare_of_isIntegerLexeme hint
  | str | list | map => cases hopening

/-- The value of a bare text. -/
private def ofBare (text : String) : Value :=
  match int64Text? text.toList with
  | some n => .int n
  | none =>
    if text = "null" then .null
    else if text = "true" then .bool true
    else if text = "false" then .bool false
    else .bigInt text

private theorem Shaped.ofBare_display {v : Value} (h : v.Shaped) (hopening : v.opening? = none) :
    ofBare v.display = v := by
  cases h with
  | null => rfl
  | bool b => cases b <;> rfl
  | int n => rw [ofBare, display, int64Text?_toString]
  | @bigInt lexeme hint hn =>
    rw [ofBare, display, hn]
    dsimp only
    rw [if_neg (by rintro rfl; cases hint), if_neg (by rintro rfl; cases hint), if_neg (by rintro rfl; cases hint)]
  | str | list | map => cases hopening

private theorem Shaped.told_of_bare {v w : Value} (hv : v.Shaped) (hopening : v.opening? = none) (hw : w.Shaped) :
    v.Told w := by
  by_cases hopening' : w.opening? = none
  · refine told_bare (hv.spelled hopening) (hw.spelled hopening') fun heq => ?_
    rw [← hv.ofBare_display hopening, heq, hw.ofBare_display hopening']
  · exact told_of_opening?_ne hv.spelled hw.spelled fun heq => hopening' (heq ▸ hopening)

private theorem told_str (s : String) {w : Value} (hw : w.Shaped) : (str s).Told w := by
  by_cases hopening : (str s).opening? = w.opening?
  · cases hw with
    | str t => exact told_quoted rfl rfl fun h => h ▸ rfl
    | _ => cases hopening
  · exact told_of_opening?_ne (Shaped.str s).spelled hw.spelled hopening

/-- A list is told if its elements are told from everything. -/
private theorem told_list_of_forall {vs : List Value} (hspelled : ∀ v ∈ vs, v.Spelled)
    (h : ∀ v ∈ vs, ∀ w : Value, w.Shaped → v.Told w) {w : Value} (hw : w.Shaped) : (list vs).Told w := by
  have hlists {ws : List Value} (hws : ∀ w ∈ ws, w.Shaped) : (list vs).Told (list ws) := by
    refine told_list hspelled (fun w hw => (hws w hw).spelled) ?_
    rintro ⟨v, w⟩ hp
    obtain ⟨hv, hw⟩ := List.of_mem_zip hp
    exact h v hv w (hws w hw)
  by_cases hopening : (list vs).opening? = w.opening?
  · cases hw with
    | list hws => exact hlists hws
    | map hkeys hvalues =>
      refine told_map_right (hlists (List.forall_mem_map.2 fun e he => .list ?_))
      obtain ⟨name, hname⟩ := hkeys e he
      exact List.forall_mem_cons.2 ⟨hname ▸ .str name, List.forall_mem_singleton.2 (hvalues e he)⟩
    | _ => cases hopening
  · exact told_of_opening?_ne (spelled_of_opening? rfl) hw.spelled hopening

private theorem Shaped.told {v : Value} (hv : v.Shaped) : ∀ w : Value, w.Shaped → v.Told w := by
  induction hv with
  | null | bool | int => exact fun w => Shaped.told_of_bare (by constructor) rfl
  | bigInt hint hn => exact fun w => (Shaped.bigInt hint hn).told_of_bare rfl
  | str s => exact fun w => told_str s
  | list hvs ih => exact fun w => told_list_of_forall (fun v hv => (hvs v hv).spelled) ih
  | map hkeys hvalues ih =>
    intro w hw
    refine told_map_left (told_list_of_forall spelled_of_mem_pairs (List.forall_mem_map.2 fun e he w hw => ?_) hw)
    obtain ⟨name, hname⟩ := hkeys e he
    refine told_list_of_forall (List.forall_mem_cons.2 ⟨?_, List.forall_mem_singleton.2 (hvalues e he).spelled⟩)
      (List.forall_mem_cons.2 ⟨fun w hw => ?_, List.forall_mem_singleton.2 (ih e he)⟩) hw
    · exact hname ▸ (Shaped.str name).spelled
    · exact hname ▸ told_str name hw

private theorem Shaped.exact {v : Value} (hv : v.Shaped) : v.Exact := by
  induction hv with
  | null | bool | int | bigInt | str => exact exact_of_isLeaf rfl nofun nofun
  | list _ ih => exact exact_list ih
  | map hkeys _ ih =>
    refine exact_map fun e he => ⟨?_, ih e he⟩
    obtain ⟨name, hname⟩ := hkeys e he
    exact hname ▸ exact_of_isLeaf rfl nofun nofun

end Value

private theorem shaped_of_readOff {v : Value} : ReadOff Value.ofDocument? v → v.Shaped := by
  rintro ⟨j, hj, u, hu, rfl⟩
  exact Value.shaped_of_ofDocument? hj hu

private theorem tells_ofDocument? : Tells Value.ofDocument? where
  spelled hv := (shaped_of_readOff hv).spelled
  told hv hw := (shaped_of_readOff hv).told _ (shaped_of_readOff hw)

private theorem exact_ofDocument? : Exact Value.ofDocument? := fun _ hv => (shaped_of_readOff hv).exact

/-! ### Codecs -/

namespace NativeKind

variable {kind : NativeKind}

private theorem ofDocument?_json : json.ofDocument? = Value.ofDocument? := by
  funext j
  cases j <;> rfl

private theorem isKey_of_ne_json (hjson : kind ≠ .json) : kind.isKey = true := by
  cases kind with
  | json => exact absurd rfl hjson
  | _ => rfl

private theorem tells_ofDocument? (hfloat : kind.isFloat = false) : Tells kind.ofDocument? := by
  by_cases hjson : kind = .json
  · rw [hjson, ofDocument?_json]
    exact Marshal.tells_ofDocument?
  · exact tells (isKey_of_ne_json hjson) hfloat

private theorem exact_ofDocument? (hfloat : kind.isFloat = false) (hpath : kind ≠ .path) :
    Exact kind.ofDocument? := by
  by_cases hjson : kind = .json
  · rw [hjson, ofDocument?_json]
    exact Marshal.exact_ofDocument?
  · exact exact (isKey_of_ne_json hjson) hfloat hpath

private theorem parts_ofDocument? (hfloat : kind.isFloat = false) (hjson : kind ≠ .json) : Parts kind.ofDocument? :=
  parts (isKey_of_ne_json hjson) hfloat

end NativeKind

namespace Codec

/-- Whether a codec reads floats. -/
def isFloat : Codec → Bool
  | native kind | objectMap kind _ _ => kind.isFloat
  | _ => false

/-- Whether a codec reads paths. -/
def isPath : Codec → Bool
  | native kind | objectMap kind _ _ => kind = .path
  | _ => false

/-- Whether a codec reads values of unknown type. -/
def isUntyped : Codec → Bool
  | dynamic => true
  | native kind | objectMap kind _ _ => kind = .json
  | _ => false

section Containers

variable {call : Nat → Document → Option (Option Value)} {key value : Codec} {i : Instantiator}

private theorem readsLists_sequence : ReadsLists ((sequence value i).ofDocument? call) (value.ofDocument? call) := by
  rintro v ⟨j, hj, u, hu, rfl⟩
  cases hj with
  | array hjs =>
    obtain ⟨vs, hvs, rfl⟩ := Option.map_eq_some_iff.1 hu
    refine .inr ⟨vs, rfl, fun v hv => ?_⟩
    obtain ⟨j, hj, hread⟩ := forall₂_of_mem_right (items?_eq_some.1 hvs) hv
    exact ⟨j, hjs j hj, hread⟩
  | null | bool | string | number | object =>
    obtain rfl := Option.some.inj hu
    exact .inl rfl

end Containers

/-- Without bindings at hand, nothing is read with one but a null. -/
private theorem eq_null_of_readOff {index : Nat} {nullSafe : Bool} {v : Value}
    (h : ReadOff ((attached index nullSafe).ofDocument? unbound) v) : v = .null := by
  obtain ⟨j, -, u, hu, rfl⟩ := h
  obtain ⟨-, heq⟩ := Option.ite_none_right_eq_some.1 hu
  rw [← Option.some.inj heq]
  rfl

/-- What a codec reads has what its natives and values of unknown type have, unless they are excluded. -/
private theorem of_inherited {P : (Document → Option (Option Value)) → Prop} (hP : Inherited P)
    {excluded : Codec → Bool} (hnative : ∀ kind, excluded (native kind) = false → P kind.ofDocument?)
    (hkey : ∀ kind value i, excluded (objectMap kind value i) = false → P kind.ofDocument?)
    (hdynamic : excluded dynamic = false → P Value.ofDocument?) {c : Codec} (h : c.any excluded = false) :
    P (c.ofDocument? unbound) := by
  induction c with
  | native kind => exact hnative kind (Bool.or_eq_false_iff.1 h).1
  | binding index => exact hP.null fun v ⟨j, _, u, hu, _⟩ => nomatch hu
  | dynamic => exact hdynamic (Bool.or_eq_false_iff.1 h).1
  | attached index nullSafe => exact hP.null fun v => eq_null_of_readOff
  | split write read _ ih =>
    simp only [any, Bool.or_eq_false_iff] at h
    exact ih h.2.2
  | runtimeType declared ih =>
    simp only [any, Bool.or_eq_false_iff] at h
    exact ih h.2
  | sequence element i ih =>
    simp only [any, Bool.or_eq_false_iff] at h
    exact hP.lists readsLists_sequence (ih h.2)
  | objectMap kind value i ih =>
    simp only [any, Bool.or_eq_false_iff] at h
    rw [ofDocument?_objectMap]
    exact hP.maps readsMaps_map? (hkey kind value i h.1) (ih h.2)
  | pairMap key value i ihk ihv =>
    simp only [any, Bool.or_eq_false_iff] at h
    rw [ofDocument?_pairMap]
    exact hP.maps readsMaps_map? (ihk h.2.1) (ihv h.2.2)

/-- What a codec without floats reads is told by its text. -/
theorem tells {c : Codec} (h : c.any isFloat = false) : Tells (c.ofDocument? unbound) :=
  of_inherited inherited_tells (fun _ => NativeKind.tells_ofDocument?) (fun _ _ _ => NativeKind.tells_ofDocument?)
    (fun _ => tells_ofDocument?) h

private theorem any_or {p q : Codec → Bool} {c : Codec} (hp : c.any p = false) (hq : c.any q = false) :
    (c.any fun c => p c || q c) = false := by
  induction c with
  | native | binding | dynamic | attached => simpa [any] using ⟨by simpa [any] using hp, by simpa [any] using hq⟩
  | runtimeType _ ih | sequence _ _ ih | objectMap _ _ _ ih =>
    simp only [any, Bool.or_eq_false_iff] at hp hq ⊢
    exact ⟨⟨hp.1, hq.1⟩, ih hp.2 hq.2⟩
  | split _ _ ih ih' | pairMap _ _ _ ih ih' =>
    simp only [any, Bool.or_eq_false_iff] at hp hq ⊢
    exact ⟨⟨hp.1, hq.1⟩, ih hp.2.1 hq.2.1, ih' hp.2.2 hq.2.2⟩

/-- What a codec without floats and paths reads equals only itself. -/
theorem exact {c : Codec} (hfloat : c.any isFloat = false) (hpath : c.any isPath = false) :
    Exact (c.ofDocument? unbound) := by
  have hkind {kind : NativeKind} (h : (kind.isFloat || decide (kind = .path)) = false) : Exact kind.ofDocument? := by
    rw [Bool.or_eq_false_iff, decide_eq_false_iff_not] at h
    exact NativeKind.exact_ofDocument? h.1 h.2
  exact of_inherited inherited_exact (fun _ => hkind) (fun _ _ _ => hkind) (fun _ => exact_ofDocument?)
    (any_or hfloat hpath)

/-- A codec that knows the types of what it reads does not read a map and a list in the same place. -/
theorem parts {c : Codec} (hfloat : c.any isFloat = false) (huntyped : c.any isUntyped = false) :
    Parts (c.ofDocument? unbound) := by
  have hkind {kind : NativeKind} (h : (kind.isFloat || decide (kind = .json)) = false) : Parts kind.ofDocument? := by
    rw [Bool.or_eq_false_iff, decide_eq_false_iff_not] at h
    exact NativeKind.parts_ofDocument? h.1 h.2
  exact of_inherited inherited_parts (fun _ => hkind) (fun _ _ _ => hkind) (fun h => by cases h)
    (any_or hfloat huntyped)

end Codec

end Marshal
