import Marshal.Proofs.Stream.Looking

/-!
# Pulling documents

However a document is spelled, its tokens can be pulled one after the other, and the reader hands over the texts, the
flags and the lexemes of the document (`Pulled`).  What is said of a piece of a document holds wherever in a text the
piece stands; the induction is on how it is spelled.
-/

namespace Marshal

open Effect
open Reader (Request Answer)

namespace Document

mutual

/-- The calls that pull a value, with what each of them hands over. -/
def requests : Document → List (Request × Answer)
  | null => [(.null, .done)]
  | bool b => [(.bool, .flag b)]
  | string s => [(.string, .text s)]
  | number lexeme => [(.number, .text lexeme)]
  | array items => (.beginArray, .done) :: itemsRequests items
  | object entries => (.beginObject, .done) :: entriesRequests entries

/-- The calls behind the opening bracket of an array, or behind an element. -/
def itemsRequests : List Document → List (Request × Answer)
  | [] => [(.endArray, .done)]
  | j :: js => j.requests ++ itemsRequests js

def entriesRequests : List (String × Document) → List (Request × Answer)
  | [] => [(.endObject, .done)]
  | (name, j) :: es => (.name, .text name) :: (j.requests ++ entriesRequests es)

end

end Document

/-! ### Dialects -/

namespace Dialect

variable {d : Dialect}

theorem Blank.loose {b : List Char} (hb : d.Blank b) : loose.Blank b := fun c hc => by
  rw [isBlank_loose]
  exact isAsciiBlank_of_isBlank (hb c hc)

theorem Separates.loose {first : Bool} {g : List Char} (hg : d.Separates first g) : loose.Separates first g := by
  cases hg with
  | first hb => exact .first hb.loose
  | next hb hb' => exact .next hb.loose hb'.loose

theorem SpellsText.loose {s t : List Char} (h : d.SpellsText s t) : loose.SpellsText s t := by
  have hunit {n : Nat} {s : List Char} (h : d.SpellsUnit n s) : Dialect.loose.SpellsUnit n s := by
    cases h with
    | digits hn hs => exact .digits hn hs
    | plus _ hn hs => exact .plus rfl hn hs
  have hchar {c : Char} {s : List Char} (h : d.SpellsChar c s) : Dialect.loose.SpellsChar c s := by
    cases h with
    | plain h =>
      simp only [isPlain, Bool.and_eq_true] at h
      exact .plain (by simp [isPlain, h.1, Dialect.loose])
    | short h => exact .short h
    | unit h => exact .unit (hunit h)
    | pair hc hs ht => exact .pair hc (hunit hs) (hunit ht)
  induction h with
  | nil => exact .nil
  | cons hc _ ih => exact .cons (hchar hc) ih

/-- What spells a part of a document in some dialect spells it in the widest one. -/
private theorem Spells.loose {part : Document.Part} {s : List Char} (h : d.Spells part s) : loose.Spells part s := by
  induction h with
  | null => exact .null
  | true => exact .true
  | false => exact .false
  | string h => exact .string h.loose
  | number h => exact .number (isLexeme_loose h.isLexeme)
  | array _ ih => exact .array ih
  | object _ ih => exact .object ih
  | endArray first hb => exact .endArray first hb.loose
  | item hg _ _ ihj ihjs => exact .item hg.loose ihj ihjs
  | endObject first hb => exact .endObject first hb.loose
  | entry hg hname hb hb' _ _ ihj ihes => exact .entry hg.loose hname.loose hb.loose hb'.loose ihj ihes

theorem SpellsDocument.loose {j : Document} {s : List Char} (h : d.SpellsDocument j s) :
    loose.SpellsDocument j s := by
  obtain ⟨hb, hj, hb'⟩ := h
  exact .mk hb.loose hj.loose hb'.loose

/-- A lexeme begins with a character of a number, and has no characters but those of a number. -/
private theorem IsLexeme.exists_isNumber {s : List Char} (h : d.IsLexeme s) :
    ∃ t, IsNumber t ∧ s.head? = t.head? ∧ ∀ c ∈ s, c ∈ t := by
  cases h with
  | number h => exact ⟨s, h, rfl, fun _ => id⟩
  | pointed _ h =>
    obtain ⟨hm, hw, he, -⟩ := h
    next minus whole exponent =>
    have hnumber : IsNumber (minus ++ (whole ++ ('.' :: '0' :: exponent))) := by
      have hs : IsMagnitude (whole ++ (['.', '0'] ++ exponent)) := ⟨hw, .digits rfl, he⟩
      rcases hm with rfl | rfl
      · exact .plain hs
      · exact .minus hs
    refine ⟨_, hnumber, ?_, ?_⟩
    · simp only [List.head?_append, List.head?_cons]
    · intro c hc
      simp only [List.mem_append, List.mem_cons] at hc ⊢
      tauto

/-- The first character of a spelling tells the kind of the value. -/
theorem Spells.head {j : Document} {s : List Char} (h : d.Spells (.value j) s) :
    ∃ c t, s = c :: t ∧ Reader.kindOf? c = some j.kind := by
  cases h with
  | number h =>
    next lexeme =>
    obtain ⟨u, hu, hhead, -⟩ := h.exists_isNumber
    obtain ⟨c, t, rfl, hc⟩ := Reader.kindOf?_of_isNumber hu
    obtain ⟨s, hs⟩ := List.head?_eq_some_iff.1 hhead
    exact ⟨c, s, hs, hc⟩
  | _ => exact ⟨_, _, rfl, rfl⟩

end Dialect

namespace Reader

open Dialect (loose)
open Document (Part)

/-! ### Calls in a row -/

/-- The calls give these answers, one after the other. -/
def Pulls (l : List (Request × Answer)) (r r' : Reader) : Prop :=
  (l.map Prod.fst).mapM Request.run r = .ok (l.map Prod.snd) r'

private theorem pulls_nil {r r' : Reader} : Pulls [] r r' ↔ r' = r := by
  unfold Pulls
  rw [List.map_nil, List.mapM_nil, pure_apply, ok_inj]
  exact ⟨fun h => h.2.symm, fun h => ⟨rfl, h.symm⟩⟩

theorem pulls_cons {q : Request} {a : Answer} {l : List (Request × Answer)} {r r' : Reader} :
    Pulls ((q, a) :: l) r r' ↔ ∃ r₁, q.run r = .ok a r₁ ∧ Pulls l r₁ r' := by
  unfold Pulls
  rw [List.map_cons, List.mapM_cons, bind_eq_ok]
  constructor
  · rintro ⟨b, r₁, hq, h⟩
    obtain ⟨as, r₂, hl, h⟩ := bind_eq_ok.1 h
    obtain ⟨has, rfl⟩ := ok_inj.1 h
    obtain ⟨rfl, rfl⟩ := List.cons.inj has
    exact ⟨r₁, hq, hl⟩
  · rintro ⟨r₁, hq, hl⟩
    exact ⟨a, r₁, hq, (bind_of_ok hl).trans rfl⟩

theorem pulls_append {l l' : List (Request × Answer)} {r r' : Reader} :
    Pulls (l ++ l') r r' ↔ ∃ r₁, Pulls l r r₁ ∧ Pulls l' r₁ r' := by
  induction l generalizing r with
  | nil => simp [pulls_nil]
  | cons qa l ih =>
    obtain ⟨q, a⟩ := qa
    simp only [List.cons_append, pulls_cons, ih]
    constructor
    · rintro ⟨r₁, hq, r₂, hl, hl'⟩
      exact ⟨r₂, ⟨r₁, hq, hl⟩, hl'⟩
    · rintro ⟨r₂, ⟨r₁, hq, hl⟩, hl'⟩
      exact ⟨r₁, hq, r₂, hl, hl'⟩

theorem pulls_one {q : Request} {a : Answer} {r r' : Reader} : Pulls [(q, a)] r r' ↔ q.run r = .ok a r' := by
  simp [pulls_cons, pulls_nil]

/-! ### What stands behind a value -/

variable {d : Dialect} {tail : List Char}

private theorem follows_blank {b s : List Char} {c : Char} (hb : d.Blank b) (hc : isNumberChar c = false) :
    Follows (b ++ c :: s) := by
  intro e he
  cases b with
  | nil =>
    obtain rfl := Option.some.inj he
    exact hc
  | cons e' b =>
    obtain rfl := Option.some.inj he
    have hblank := Dialect.isAsciiBlank_of_isBlank (hb e' (List.mem_cons_self ..))
    simp only [Text.isAsciiBlank, Bool.or_eq_true, decide_eq_true_eq] at hblank
    rcases hblank with (((rfl | rfl) | rfl) | rfl) | rfl <;> rfl

theorem follows_of_blank {b : List Char} (hb : d.Blank b) : Follows b := by
  intro e he
  cases b with
  | nil => cases he
  | cons e' b => exact follows_blank (s := []) (c := ',') hb rfl e he

/-- The rest of a container does not go on with a number. -/
theorem follows_items {js : List Document} {s : List Char} (h : d.Spells (.items false js) s) :
    Follows (s ++ tail) := by
  cases h with
  | endArray _ hb =>
    rw [List.append_assoc]
    exact follows_blank hb rfl
  | item hg _ _ =>
    cases hg with
    | next hb _ =>
      rw [List.append_assoc, List.append_assoc]
      exact follows_blank hb rfl

theorem follows_entries {es : List (String × Document)} {s : List Char} (h : d.Spells (.entries false es) s) :
    Follows (s ++ tail) := by
  cases h with
  | endObject _ hb =>
    rw [List.append_assoc]
    exact follows_blank hb rfl
  | entry hg _ _ _ _ _ =>
    cases hg with
    | next hb _ =>
      rw [List.append_assoc, List.append_assoc]
      exact follows_blank hb rfl

/-! ### Pulling a piece of a document -/

/-- What the calls for a piece do where the piece stands in front of the reader.  For a value, the next token is that
of the value; for the rest of a container, the next token has not been looked at. -/
def Pulled : Part → List Char → Prop
  | .value j, s => ∀ (r : Reader) (o : Nat) (started : Bool) (scopes : List ReadScope) (tail : List Char),
    peek r = .ok j.kind ⟨⟨s ++ tail, o⟩, started, scopes, some j.kind⟩ → Follows tail →
      scopes.length + j.depth ≤ maxDepth → ∃ o', Pulls j.requests r ⟨⟨tail, o'⟩, started, scopes, none⟩
  | .items first js, s => ∀ (o : Nat) (started : Bool) (outer : List ReadScope) (tail : List Char),
    outer.length + 1 + Document.itemsDepth js ≤ maxDepth →
      ∃ o', Pulls (Document.itemsRequests js) ⟨⟨s ++ tail, o⟩, started, itemScope first :: outer, none⟩
        ⟨⟨tail, o'⟩, started, outer, none⟩
  | .entries first es, s => ∀ (o : Nat) (started : Bool) (outer : List ReadScope) (tail : List Char),
    outer.length + 1 + Document.entriesDepth es ≤ maxDepth →
      ∃ o', Pulls (Document.entriesRequests es) ⟨⟨s ++ tail, o⟩, started, entryScope first :: outer, none⟩
        ⟨⟨tail, o'⟩, started, outer, none⟩

private theorem readQuoted_of_spellsText {cs s : List Char} (h : d.SpellsText cs s) (o : Nat) (started : Bool)
    (scopes : List ReadScope) (peeked : Option TokenKind) (tail : List Char) :
    ∃ o', readQuoted ⟨⟨'"' :: (s ++ '"' :: tail), o⟩, started, scopes, peeked⟩ =
      .ok (String.ofList cs) ⟨⟨tail, o'⟩, started, scopes, peeked⟩ := by
  obtain ⟨o', hread⟩ := Dialect.unquote_of_spellsText h tail ⟨s ++ '"' :: tail, o + 1⟩ (o + 1)
  refine ⟨o', ?_⟩
  rw [readQuoted_apply, hread]

theorem nextName_of_spellsText {name : String} {s : List Char} (h : d.SpellsText name.toList s) {r : Reader}
    {o : Nat} {started : Bool} {scope : ReadScope} {outer : List ReadScope} {peeked : Option TokenKind}
    {tail : List Char}
    (hpeek : peek r = .ok .name ⟨⟨'"' :: (s ++ '"' :: tail), o⟩, started, scope :: outer, peeked⟩) :
    ∃ o', nextName r = .ok name ⟨⟨tail, o'⟩, started, .danglingName :: outer, none⟩ := by
  obtain ⟨o', hread⟩ := readQuoted_of_spellsText h o started (scope :: outer) none tail
  refine ⟨o', ?_⟩
  unfold nextName
  rw [bind_of_ok (expect_of_peek hpeek), bind_of_ok hread, String.ofList_toList]
  rfl

private theorem pulled_string {s : String} {t : List Char} (h : d.SpellsText s.toList t) :
    Pulled (.value (.string s)) ('"' :: (t ++ ['"'])) := by
  intro r o started scopes tail hpeek _ _
  obtain ⟨o', hread⟩ := readQuoted_of_spellsText h o started scopes none tail
  refine ⟨o', pulls_one.2 ?_⟩
  rw [List.cons_append, List.append_assoc] at hpeek
  have hstring : nextString r = .ok s ⟨⟨tail, o'⟩, started, scopes, none⟩ := by
    rw [String.ofList_toList] at hread
    unfold nextString
    rw [bind_of_ok hpeek]
    exact hread
  exact bind_of_ok hstring

private theorem pulled_number {lexeme : String} (h : d.IsLexeme lexeme.toList) :
    Pulled (.value (.number lexeme)) lexeme.toList := by
  intro r o started scopes tail hpeek htail _
  obtain ⟨t, ht, -, hmem⟩ := h.exists_isNumber
  obtain ⟨o', hread⟩ := readNumber_of_isLexeme o started scopes none
    (fun c hc => isNumberChar_of_isNumber ht c (hmem c hc)) h.isLexeme htail
  refine ⟨o', pulls_one.2 ?_⟩
  have hnumber : nextNumber r = .ok lexeme ⟨⟨tail, o'⟩, started, scopes, none⟩ := by
    rw [String.ofList_toList] at hread
    unfold nextNumber
    rw [bind_of_ok hpeek]
    exact hread
  exact bind_of_ok hnumber

private theorem pulled_bool (b : Bool) :
    Pulled (.value (.bool b)) (if b then ['t', 'r', 'u', 'e'] else ['f', 'a', 'l', 's', 'e']) := by
  intro r o started scopes tail hpeek _ _
  refine ⟨o + if b then 4 else 5, pulls_one.2 ?_⟩
  have hbool : nextBool r = .ok b ⟨⟨tail, o + if b then 4 else 5⟩, started, scopes, none⟩ := by
    unfold nextBool
    rw [bind_of_ok (expect_of_peek (k := .boolean) hpeek)]
    cases b <;> rfl
  exact bind_of_ok hbool

private theorem pulled_null : Pulled (.value .null) ['n', 'u', 'l', 'l'] := by
  intro r o started scopes tail hpeek _ _
  refine ⟨o + 4, pulls_one.2 ?_⟩
  have hnull : nextNull r = .ok ⟨⟩ ⟨⟨tail, o + 4⟩, started, scopes, none⟩ := by
    unfold nextNull
    rw [bind_of_ok (expect_of_peek (k := .null) hpeek)]
    rfl
  exact bind_of_ok hnull

/-- However a piece of a document is spelled, the calls for it give the answers of the document. -/
theorem pulled_of_spells {part : Part} {s : List Char} (h : d.Spells part s) : Pulled part s := by
  induction h with
  | null => exact pulled_null
  | true => exact pulled_bool true
  | false => exact pulled_bool false
  | string h => exact pulled_string h
  | number h => exact pulled_number h
  | array _ ih =>
    intro r o started scopes tail hpeek _ hdepth
    rw [Document.depth] at hdepth
    have hbegin := beginArray_of_peek hpeek (by omega)
    obtain ⟨o', hrest⟩ := ih (o + 1) started scopes tail (by omega)
    exact ⟨o', pulls_cons.2 ⟨_, bind_of_ok hbegin, hrest⟩⟩
  | object _ ih =>
    intro r o started scopes tail hpeek _ hdepth
    rw [Document.depth] at hdepth
    have hbegin := beginObject_of_peek hpeek (by omega)
    obtain ⟨o', hrest⟩ := ih (o + 1) started scopes tail (by omega)
    exact ⟨o', pulls_cons.2 ⟨_, bind_of_ok hbegin, hrest⟩⟩
  | endArray first hb =>
    intro o started outer tail _
    rw [List.append_assoc]
    exact ⟨_, pulls_one.2 (bind_of_ok (endArray_of_peek (Scans.endArray first hb.loose).peek_eq))⟩
  | @item _ _ _ t j js hg hj hjs ihj ihjs =>
    intro o started outer tail hdepth
    rw [Document.itemsDepth] at hdepth
    obtain ⟨c, s', rfl, hc⟩ := hj.head
    rw [List.append_assoc, List.append_assoc]
    obtain ⟨o₁, hvalue⟩ := ihj _ _ started (.nonEmptyArray :: outer) (t ++ tail) (Scans.item hg.loose hc).peek_eq
      (follows_items hjs) (by rw [List.length_cons]; omega)
    obtain ⟨o', hrest⟩ := ihjs o₁ started outer tail (by omega)
    exact ⟨o', pulls_append.2 ⟨_, hvalue, hrest⟩⟩
  | endObject first hb =>
    intro o started outer tail _
    rw [List.append_assoc]
    exact ⟨_, pulls_one.2 (bind_of_ok (endObject_of_peek (Scans.endObject first hb.loose).peek_eq))⟩
  | @entry _ g n b b' _ t name j es hg hname hb hb' hj hes ihj ihes =>
    intro o started outer tail hdepth
    rw [Document.entriesDepth] at hdepth
    obtain ⟨c, s', rfl, hc⟩ := hj.head
    simp only [List.append_assoc, List.cons_append]
    obtain ⟨o₁, hread⟩ := nextName_of_spellsText hname (Scans.name hg.loose).peek_eq
    obtain ⟨o₂, hvalue⟩ :=
      ihj _ _ started (.nonEmptyObject :: outer) (t ++ tail) (Scans.value hb.loose hb'.loose hc).peek_eq
        (follows_entries hes) (by rw [List.length_cons]; omega)
    obtain ⟨o', hrest⟩ := ihes o₂ started outer tail (by omega)
    exact ⟨o', pulls_cons.2 ⟨_, bind_of_ok hread, pulls_append.2 ⟨_, hvalue, hrest⟩⟩⟩

/-- A whole document is pulled, in any dialect, and nothing is left behind it. -/
theorem pulls_of_spellsDocument {j : Document} {text : List Char} (h : d.SpellsDocument j text)
    (hdepth : j.depth ≤ maxDepth) : ∃ r r', Pulls j.requests (ofText text) r ∧ peek r = .ok .endDocument r' := by
  obtain ⟨hb, hj, hb'⟩ := h
  obtain ⟨c, s, rfl, hc⟩ := hj.head
  obtain ⟨o, hpulls⟩ := pulled_of_spells hj _ _ true [] _ (Scans.document hb.loose hc).peek_eq (follows_of_blank hb')
    (by rw [List.length_nil]; omega)
  exact ⟨_, _, hpulls, (Scans.endDocument hb'.loose).peek_eq⟩

/-! ### Standard documents -/

/-- Every spelling of a document in the standard grammar, with any blanks and any escapes, is read: the calls for its
tokens hand over the decoded names and strings, the flags and the lexemes as they are spelled, and then the text
ends. -/
theorem pulls_standard {j : Document} {text : List Char} (hdepth : j.depth ≤ maxDepth)
    (h : Dialect.standard.SpellsDocument j text) :
    ∃ r r', (j.requests.map Prod.fst).mapM Request.run (ofText text) = .ok (j.requests.map Prod.snd) r ∧
      peek r = .ok .endDocument r' :=
  pulls_of_spellsDocument h hdepth

/-- An entry whose name is spelled with a pair of surrogates. -/
def sample : Document :=
  .object [("😀", .array [.number "-1.50E+3", .string "a/\n", .null]), ("", .bool true)]

def sampleText : List Char :=
  " \x7b\"\\uD83d\\ude00\" :\t[-1.50E+3, \"\\u0061\\/\\n\" ,null\r\n] , \"\":true\x7d\n".toList

/-- The pieces of the sample. -/
private theorem sampleText_eq : sampleText =
    [' '] ++ (('\x7b' :: ([] ++ ('"' :: ((['\\', 'u', 'D', '8', '3', 'd', '\\', 'u', 'd', 'e', '0', '0'] ++ []) ++
      '"' :: ([' '] ++ ':' :: (['\t'] ++ (('[' :: ([] ++ ("-1.50E+3".toList ++ (([] ++ ',' :: [' ']) ++
        (('"' :: ((['\\', 'u', '0', '0', '6', '1'] ++ (['\\', '/'] ++ (['\\', 'n'] ++ []))) ++ ['"'])) ++
          (([' '] ++ ',' :: []) ++ (['n', 'u', 'l', 'l'] ++ (['\r', '\n'] ++ [']'])))))))) ++
      (([' '] ++ ',' :: [' ']) ++ ('"' :: ([] ++ '"' :: ([] ++ ':' :: ([] ++ (['t', 'r', 'u', 'e'] ++
        ([] ++ ['\x7d'])))))))))))))) ++ ['\n']) := by
  decide

private theorem sample_spelled : Dialect.standard.SpellsDocument sample sampleText := by
  have hblank (b : List Char) (h : b.all Dialect.standard.isBlank = true) : Dialect.standard.Blank b :=
    List.all_eq_true.1 h
  have hname : Dialect.standard.SpellsText "😀".toList
      (['\\', 'u', 'D', '8', '3', 'd', '\\', 'u', 'd', 'e', '0', '0'] ++ []) :=
    .cons (.pair (s := ['D', '8', '3', 'd']) (by decide) (.digits (by decide) (by decide))
      (.digits (by decide) (by decide))) .nil
  have hnumber : Dialect.standard.IsLexeme "-1.50E+3".toList := by
    have htext : "-1.50E+3".toList = '-' :: (['1'] ++ (['.', '5', '0'] ++ ['E', '+', '3'])) := by decide
    rw [htext]
    exact .number (.minus (.mk (.digits rfl (by decide)) (.digits rfl) (.signed (.inr rfl) (.inl rfl) rfl)))
  have hstring : Dialect.standard.SpellsText "a/\n".toList
      (['\\', 'u', '0', '0', '6', '1'] ++ (['\\', '/'] ++ (['\\', 'n'] ++ []))) :=
    .cons (.unit (.digits (by decide) (by decide))) (.cons (.short (by decide)) (.cons (.short (by decide)) .nil))
  have hitems := Dialect.Spells.item (.first (hblank [] rfl)) (.number hnumber)
    (.item (.next (hblank [] rfl) (hblank [' '] rfl)) (.string hstring)
      (.item (.next (hblank [' '] rfl) (hblank [] rfl)) .null (.endArray false (hblank ['\r', '\n'] rfl))))
  have hentries : Dialect.standard.Spells (.entries true [("😀", .array _), ("", .bool true)]) _ :=
    .entry (.first (hblank [] rfl)) hname (hblank [' '] rfl) (hblank ['\t'] rfl) (.array hitems)
      (.entry (.next (hblank [' '] rfl) (hblank [' '] rfl)) .nil (hblank [] rfl) (hblank [] rfl) .true
        (.endObject false (hblank [] rfl)))
  rw [sampleText_eq]
  exact .mk (hblank [' '] rfl) (.object hentries) (hblank ['\n'] rfl)

theorem pulls_standard_sample : sample.depth ≤ maxDepth ∧ Dialect.standard.SpellsDocument sample sampleText ∧
    ∃ r r', (sample.requests.map Prod.fst).mapM Request.run (ofText sampleText) =
      .ok (sample.requests.map Prod.snd) r ∧ peek r = .ok .endDocument r' :=
  ⟨by decide, sample_spelled, pulls_standard (by decide) sample_spelled⟩

end Reader

end Marshal
