import Marshal.Proofs.Number.Lexemes
import Marshal.Proofs.Stream.Calls
import Marshal.Proofs.Text.Quoted

/-!
# Documents

The values of compact documents, as trees.  A computation reads a value of a document (`Reader.Reads`) if, begun where
the text of the value stands, it returns a result and stops behind the text.
-/

namespace Marshal

open Effect
open Text (Cursor quote escape)

/-! ### Values of documents -/

inductive Json where
  | null
  | bool (b : Bool)
  | string (s : List Char)
  | number (lexeme : List Char) (h : IsNumber lexeme)
  | array (items : List Json)
  | object (entries : List (String × Json))

namespace Json

def zero : Json := .number ['0'] (.plain (.mk .zero .none .none))

mutual

/-- The compact text. -/
def text : Json → List Char
  | null => "null".toList
  | bool b => if b then "true".toList else "false".toList
  | string s => quote s
  | number lexeme _ => lexeme
  | array items => '[' :: (itemsText true items ++ [']'])
  | object entries => '\x7b' :: (entriesText true entries ++ ['\x7d'])

/-- The text of the elements of an array, with a comma before each but the first. -/
def itemsText (first : Bool) : List Json → List Char
  | [] => []
  | j :: js => (if first then [] else [',']) ++ (j.text ++ itemsText false js)

def entriesText (first : Bool) : List (String × Json) → List Char
  | [] => []
  | (name, j) :: es => (if first then [] else [',']) ++ (quote name.toList ++ ':' :: (j.text ++ entriesText false es))

end

mutual

/-- The number of containers that are nested in each other. -/
def depth : Json → Nat
  | null | bool _ | string _ | number _ _ => 0
  | array items => itemsDepth items + 1
  | object entries => entriesDepth entries + 1

def itemsDepth : List Json → Nat
  | [] => 0
  | j :: js => max j.depth (itemsDepth js)

def entriesDepth : List (String × Json) → Nat
  | [] => 0
  | (_, j) :: es => max j.depth (entriesDepth es)

end

/-- The token that a value begins with. -/
def kind : Json → TokenKind
  | null => .null
  | bool _ => .boolean
  | string _ => .string
  | number _ _ => .number
  | array _ => .beginArray
  | object _ => .beginObject

theorem le_length_itemsText (first : Bool) (js : List Json) (hjs : ∀ j ∈ js, j.text ≠ []) :
    js.length ≤ (itemsText first js).length := by
  induction js generalizing first with
  | nil => exact Nat.zero_le _
  | cons j js ih =>
    have hpos := List.length_pos_iff.2 (hjs j (List.mem_cons_self ..))
    have hrest := ih false fun j hj => hjs j (List.mem_cons_of_mem _ hj)
    rw [itemsText, List.length_append, List.length_append, List.length_cons]
    omega

theorem le_length_entriesText (first : Bool) (es : List (String × Json)) :
    es.length ≤ (entriesText first es).length := by
  induction es generalizing first with
  | nil => exact Nat.zero_le _
  | cons e es ih =>
    obtain ⟨name, j⟩ := e
    have hrest := ih false
    simp only [entriesText, List.length_append, List.length_cons]
    omega

end Json

namespace Reader

/-! ### The token that a value begins with -/

/-- The kind of a value that begins with a character. -/
def kindOf? (c : Char) : Option TokenKind :=
  if c = '\x7b' then some .beginObject
  else if c = '[' then some .beginArray
  else if c = '"' then some .string
  else if c = 't' || c = 'f' then some .boolean
  else if c = 'n' then some .null
  else if c = '-' || c.isDigit then some .number
  else none

theorem valueKind_of_kindOf? {r : Reader} {c : Char} {s : List Char} {kind : TokenKind} (hr : r.cursor.rest = c :: s)
    (hc : kindOf? c = some kind) : valueKind r = .ok kind r := by
  unfold valueKind
  rw [bind_of_ok (get_apply r)]
  simp only [hr]
  unfold kindOf? at hc
  split_ifs at hc ⊢ <;> cases hc <;> rfl

theorem front_of_kindOf? {c : Char} :
    (kindOf? c = some .string → c = '"') ∧ (kindOf? c = some .beginArray → c = '[') ∧
      (kindOf? c = some .beginObject → c = '\x7b') := by
  unfold kindOf?
  split_ifs <;> simp_all

theorem startsValue_of_kindOf? {c : Char} {kind : TokenKind} (hc : kindOf? c = some kind) :
    kind.startsValue = true := by
  unfold kindOf? at hc
  split_ifs at hc <;> cases hc <;> rfl

/-- The characters between the values of a document begin no value. -/
theorem ne_of_kindOf? {c d : Char} {kind : TokenKind} (hc : kindOf? c = some kind) (hd : kindOf? d = none) :
    c ≠ d := by
  rintro rfl
  rw [hd] at hc
  cases hc

theorem not_isAsciiBlank_of_kindOf? {c : Char} {kind : TokenKind} (hc : kindOf? c = some kind) :
    Text.isAsciiBlank c = false := by
  have h (d : Char) (hd : kindOf? d = none) : decide (c = d) = false := decide_eq_false (ne_of_kindOf? hc hd)
  simp only [Text.isAsciiBlank, h ' ' rfl, h '\t' rfl, h '\n' rfl, h '\x0c' rfl, h '\r' rfl, Bool.or_self]

private theorem kindOf?_of_isDigit {c : Char} (hc : c.isDigit = true) : kindOf? c = some .number := by
  have hne (d : Char) (hd : d.isDigit = false) : c ≠ d := by
    rintro rfl
    rw [hc] at hd
    cases hd
  simp only [kindOf?, hne '\x7b' rfl, hne '[' rfl, hne '"' rfl, hne 't' rfl, hne 'f' rfl, hne 'n' rfl, hc,
    decide_false, Bool.or_self, Bool.or_true, Bool.false_eq_true, if_false, if_true]

theorem kindOf?_of_isNumber {s : List Char} (h : IsNumber s) : ∃ c t, s = c :: t ∧ kindOf? c = some .number := by
  cases h with
  | plain hs =>
    obtain ⟨c, t, rfl, hc⟩ := hs.head
    exact ⟨c, t, rfl, kindOf?_of_isDigit hc⟩
  | minus hs => exact ⟨_, _, rfl, rfl⟩

/-- The first character of a value tells its kind. -/
theorem head_text (j : Json) : ∃ c s, j.text = c :: s ∧ kindOf? c = some j.kind := by
  cases j with
  | null => exact ⟨_, _, rfl, rfl⟩
  | bool b => cases b <;> exact ⟨_, _, rfl, rfl⟩
  | string s => exact ⟨_, _, rfl, rfl⟩
  | array items => exact ⟨_, _, rfl, rfl⟩
  | object entries => exact ⟨_, _, rfl, rfl⟩
  | number lexeme h => exact kindOf?_of_isNumber h

theorem text_ne_nil (j : Json) : j.text ≠ [] := by
  obtain ⟨c, s, h, -⟩ := head_text j
  rw [h]
  exact List.cons_ne_nil c s

/-! ### The next token -/

private theorem skipBlanks_eq {r : Reader} (h : ∀ c, r.cursor.rest.head? = some c → Text.isAsciiBlank c = false) :
    r.skipBlanks = r := by
  have htake : r.cursor.rest.takeWhile Text.isAsciiBlank = [] := by
    cases hr : r.cursor.rest with
    | nil => rfl
    | cons c s => exact List.takeWhile_cons_of_neg (by simp [h c (by rw [hr]; rfl)])
  rw [skipBlanks, htake]
  rfl

section Peek

variable {c : Char} {s : List Char} {o : Nat} {started : Bool} {outer : List ReadScope} {kind : TokenKind}

/-- Looking at the next token works it out and remembers it. -/
theorem peek_of_scan {r : Reader} (r' : Reader) (hr : r.peeked = none) (hscan : scan r = .ok kind r') :
    peek r = .ok kind { r' with peeked := some kind } := by
  unfold peek
  rw [bind_of_ok (get_apply r)]
  simp only [hr]
  rw [bind_of_ok hscan]
  rfl

private theorem skipBlanks_of_kindOf? {r : Reader} (hr : r.cursor.rest = c :: s) (hc : kindOf? c = some kind) :
    r.skipBlanks = r := by
  refine skipBlanks_eq fun d hd => ?_
  rw [hr] at hd
  exact Option.some.inj hd ▸ not_isAsciiBlank_of_kindOf? hc

theorem peek_document (hc : kindOf? c = some kind) :
    peek ⟨⟨c :: s, o⟩, false, [], none⟩ = .ok kind ⟨⟨c :: s, o⟩, true, [], some kind⟩ := by
  refine peek_of_scan ⟨⟨c :: s, o⟩, true, [], none⟩ rfl ?_
  rw [scan_of_asks (by rw [skipBlanks_of_kindOf? rfl hc]; exact .document rfl rfl)]
  exact valueKind_of_kindOf? rfl hc

theorem peek_item_first (hc : kindOf? c = some kind) :
    peek ⟨⟨c :: s, o⟩, started, .emptyArray :: outer, none⟩ =
      .ok kind ⟨⟨c :: s, o⟩, started, .nonEmptyArray :: outer, some kind⟩ := by
  have hclose : (c :: s).head? ≠ some ']' := fun h => ne_of_kindOf? hc rfl (Option.some.inj h)
  refine peek_of_scan ⟨⟨c :: s, o⟩, started, .nonEmptyArray :: outer, none⟩ rfl ?_
  rw [scan_of_asks (by rw [skipBlanks_of_kindOf? rfl hc]; exact .firstItem rfl hclose)]
  exact valueKind_of_kindOf? rfl hc

theorem peek_item (hc : kindOf? c = some kind) :
    peek ⟨⟨',' :: c :: s, o⟩, started, .nonEmptyArray :: outer, none⟩ =
      .ok kind ⟨⟨c :: s, o + 1⟩, started, .nonEmptyArray :: outer, some kind⟩ := by
  refine peek_of_scan ⟨⟨c :: s, o + 1⟩, started, .nonEmptyArray :: outer, none⟩ rfl ?_
  rw [scan_of_asks (.nextItem rfl rfl), skipBlanks_of_kindOf? rfl hc]
  exact valueKind_of_kindOf? rfl hc

/-- The value of an entry, behind its name. -/
theorem peek_entry_value (hc : kindOf? c = some kind) :
    peek ⟨⟨':' :: c :: s, o⟩, started, .danglingName :: outer, none⟩ =
      .ok kind ⟨⟨c :: s, o + 1⟩, started, .nonEmptyObject :: outer, some kind⟩ := by
  refine peek_of_scan ⟨⟨c :: s, o + 1⟩, started, .nonEmptyObject :: outer, none⟩ rfl ?_
  rw [scan_of_asks (.entryValue rfl rfl), skipBlanks_of_kindOf? rfl hc]
  exact valueKind_of_kindOf? rfl hc

theorem peek_name_first :
    peek ⟨⟨'"' :: s, o⟩, started, .emptyObject :: outer, none⟩ =
      .ok .name ⟨⟨'"' :: s, o⟩, started, .emptyObject :: outer, some .name⟩ := rfl

theorem peek_name :
    peek ⟨⟨',' :: '"' :: s, o⟩, started, .nonEmptyObject :: outer, none⟩ =
      .ok .name ⟨⟨'"' :: s, o + 1⟩, started, .nonEmptyObject :: outer, some .name⟩ := rfl

theorem peek_endArray {scope : ReadScope} (h : scope = .emptyArray ∨ scope = .nonEmptyArray) :
    peek ⟨⟨']' :: s, o⟩, started, scope :: outer, none⟩ =
      .ok .endArray ⟨⟨']' :: s, o⟩, started, scope :: outer, some .endArray⟩ := by
  rcases h with rfl | rfl <;> rfl

theorem peek_endObject {scope : ReadScope} (h : scope = .emptyObject ∨ scope = .nonEmptyObject) :
    peek ⟨⟨'\x7d' :: s, o⟩, started, scope :: outer, none⟩ =
      .ok .endObject ⟨⟨'\x7d' :: s, o⟩, started, scope :: outer, some .endObject⟩ := by
  rcases h with rfl | rfl <;> rfl

theorem peek_endDocument : peek ⟨⟨[], o⟩, true, [], none⟩ = .ok .endDocument ⟨⟨[], o⟩, true, [], some .endDocument⟩ :=
  rfl

end Peek

/-! ### Reading a value -/

/-- What may stand behind a value: the end of the document, or a character that does not go on with a number. -/
def Follows (s : List Char) : Prop := ∀ c, s.head? = some c → isNumberChar c = false

/-- Begun where the next token is that of the value, the computation gives the result and stops behind the value. -/
def Reads {α : Type} (m : ReadM α) (a : α) (j : Json) : Prop :=
  ∀ (r : Reader) (o : Nat) (started : Bool) (scopes : List ReadScope) (tail : List Char),
    peek r = .ok j.kind ⟨⟨j.text ++ tail, o⟩, started, scopes, some j.kind⟩ → Follows tail →
      scopes.length + j.depth ≤ maxDepth → ∃ o', m r = .ok a ⟨⟨tail, o'⟩, started, scopes, none⟩

variable {α β : Type} {m : ReadM α} {f : α → ReadM β} {a : α} {b : β} {j : Json}

theorem Reads.bind_of_state (h : Reads m a j) (hf : ∀ r, f a r = .ok b r) : Reads (m >>= f) b j := by
  intro r o started scopes tail hpeek htail hdepth
  obtain ⟨o', hm⟩ := h r o started scopes tail hpeek htail hdepth
  exact ⟨o', by rw [bind_of_ok hm, hf]⟩

theorem Reads.map (h : Reads m a j) (g : α → β) : Reads (do return g (← m)) (g a) j :=
  h.bind_of_state fun _ => rfl

/-- A value is read after a look at its token. -/
theorem reads_peek {f : TokenKind → ReadM α} (h : Reads (f j.kind) a j) : Reads (peek >>= f) a j := by
  intro r o started scopes tail hpeek htail hdepth
  rw [bind_of_ok hpeek]
  exact h _ o started scopes tail (peek_idem hpeek) htail hdepth

/-- What reads a value may do something first that leaves the reader alone. -/
theorem reads_of_state {g : β → ReadM α} {m : ReadM β} (hm : ∀ r, m r = .ok b r) (h : Reads (g b) a j) :
    Reads (m >>= g) a j := by
  intro r o started scopes tail hpeek htail hdepth
  rw [bind_of_ok (hm r)]
  exact h r o started scopes tail hpeek htail hdepth

/-! ### Leaves -/

section Leaves

variable {s tail : List Char} (o : Nat) (started : Bool) (scopes : List ReadScope) (peeked : Option TokenKind)

/-- A quoted text is read in full, and what follows it is left. -/
theorem readQuoted_quote (s tail : List Char) : readQuoted ⟨⟨quote s ++ tail, o⟩, started, scopes, peeked⟩ =
    .ok (String.ofList s) ⟨⟨tail, o + Text.utf8Size (quote s)⟩, started, scopes, peeked⟩ := by
  rw [Text.quote_append, readQuoted_apply, Text.unquote_quote, Text.utf8Size_quote, ← Nat.add_assoc, ← Nat.add_assoc]

private theorem isNumberChar_of_isDigit {c : Char} (hc : c.isDigit = true) : isNumberChar c = true := by
  simp [isNumberChar, hc]

theorem isNumberChar_of_isNumber (h : IsNumber s) : ∀ c ∈ s, isNumberChar c = true := by
  have hdigits {t : List Char} (ht : isDigits t = true) : ∀ c ∈ t, isNumberChar c = true := fun c hc =>
    isNumberChar_of_isDigit ((isDigits_iff.1 ht).2 c hc)
  have hletter {c : Char} (hc : c = 'e' ∨ c = 'E') : isNumberChar c = true := by rcases hc with rfl | rfl <;> rfl
  have hmagnitude {t : List Char} (ht : IsMagnitude t) : ∀ c ∈ t, isNumberChar c = true := by
    obtain ⟨hw, hf, he⟩ := ht
    intro c hc
    rcases List.mem_append.1 hc with hc | hc
    · exact hdigits hw.isDigits c hc
    rcases List.mem_append.1 hc with hc | hc
    · cases hf with
      | none => cases hc
      | digits hs =>
        rcases List.mem_cons.1 hc with rfl | hc
        · rfl
        · exact hdigits hs c hc
    · cases he with
      | none => cases hc
      | unsigned hl hs =>
        rcases List.mem_cons.1 hc with rfl | hc
        · exact hletter hl
        · exact hdigits hs c hc
      | signed hl hg hs =>
        rcases List.mem_cons.1 hc with rfl | hc
        · exact hletter hl
        · rcases List.mem_cons.1 hc with rfl | hc
          · rcases hg with rfl | rfl <;> rfl
          · exact hdigits hs c hc
  cases h with
  | plain hs => exact hmagnitude hs
  | minus hs =>
    intro c hc
    rcases List.mem_cons.1 hc with rfl | hc
    · rfl
    · exact hmagnitude hs c hc

/-- A lexeme is read up to the first character that does not go on with it. -/
theorem readNumber_of_isLexeme (hall : ∀ c ∈ s, isNumberChar c = true) (hlexeme : isLexeme s = true)
    (htail : Follows tail) : ∃ o', readNumber ⟨⟨s ++ tail, o⟩, started, scopes, peeked⟩ =
      .ok (String.ofList s) ⟨⟨tail, o'⟩, started, scopes, peeked⟩ := by
  have hrest : tail.takeWhile isNumberChar = [] := by
    cases ht : tail with
    | nil => rfl
    | cons c t => exact List.takeWhile_cons_of_neg (by simp [htail c (by rw [ht]; rfl)])
  have htake : (s ++ tail).takeWhile isNumberChar = s := by
    rw [List.takeWhile_append_of_pos hall, hrest, List.append_nil]
  refine ⟨o + s.length, ?_⟩
  unfold readNumber
  rw [bind_of_ok (get_apply _)]
  simp only [htake, hlexeme, if_true]
  rw [bind_of_ok (set_apply _ _)]
  simp only [advance, Cursor.advance, List.drop_left]
  rfl

private theorem readNumber_lexeme (h : IsNumber s) (htail : Follows tail) :
    ∃ o', readNumber ⟨⟨s ++ tail, o⟩, started, scopes, peeked⟩ =
      .ok (String.ofList s) ⟨⟨tail, o'⟩, started, scopes, peeked⟩ :=
  readNumber_of_isLexeme o started scopes peeked (isNumberChar_of_isNumber h) (isLexeme_of_isNumber h) htail

end Leaves

theorem reads_nextString (s : List Char) : Reads nextString (String.ofList s) (.string s) := by
  intro r o started scopes tail hpeek _ _
  refine ⟨o + Text.utf8Size (quote s), ?_⟩
  unfold nextString
  rw [bind_of_ok hpeek]
  exact readQuoted_quote o started scopes none s tail

/-- A string stands in for a number. -/
theorem reads_nextNumber_string (s : List Char) : Reads nextNumber (String.ofList s) (.string s) := by
  intro r o started scopes tail hpeek _ _
  refine ⟨o + Text.utf8Size (quote s), ?_⟩
  unfold nextNumber
  rw [bind_of_ok hpeek]
  exact readQuoted_quote o started scopes none s tail

theorem reads_nextNumber {s : List Char} (h : IsNumber s) : Reads nextNumber (String.ofList s) (.number s h) := by
  intro r o started scopes tail hpeek htail _
  obtain ⟨o', hread⟩ := readNumber_lexeme o started scopes none h htail
  refine ⟨o', ?_⟩
  unfold nextNumber
  rw [bind_of_ok hpeek]
  exact hread

theorem reads_nextBool (b : Bool) : Reads nextBool b (.bool b) := by
  intro r o started scopes tail hpeek _ _
  refine ⟨o + (Json.text (.bool b)).length, ?_⟩
  unfold nextBool
  rw [bind_of_ok (expect_of_peek (k := .boolean) hpeek)]
  cases b <;> rfl

theorem reads_nextNull : Reads nextNull ⟨⟩ .null := by
  intro r o started scopes tail hpeek _ _
  refine ⟨o + Json.null.text.length, ?_⟩
  unfold nextNull
  rw [bind_of_ok (expect_of_peek (k := .null) hpeek)]
  rfl

end Reader

end Marshal
