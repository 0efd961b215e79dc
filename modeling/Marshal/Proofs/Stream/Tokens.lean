import Mathlib.Data.List.Forall2
import Marshal.Stream.Writer
import Marshal.Proofs.Converter.Containers

/-!
# Reading what was written, token by token

A reader that makes the calls a writer made, in the same order and on the finished document, gets back what was
written (`read_written`).  One call at a time the reader stands where the writer stood (`Trails`): a call adds text to
the document, and its counterpart passes over that text (`Undoes`).
-/

namespace Marshal

open Effect
open Text (quote)

/-! ### Calls -/

/-- A call of a writer; the reader has one for each as well. -/
inductive Call where
  | beginObject
  | endObject
  | beginArray
  | endArray
  | name (s : String)
  | null
  | bool (b : Bool)
  | string (s : String)
  | number (lexeme : String) (h : IsNumber lexeme.toList)

/-- What a call of a reader hands over. -/
inductive Payload where
  | nothing
  | bool (b : Bool)
  | text (s : String)
deriving Repr, DecidableEq

namespace Call

def write : Call → TokenM Unit
  | beginObject => Writer.beginObject
  | endObject => Writer.endObject
  | beginArray => Writer.beginArray
  | endArray => Writer.endArray
  | name s => Writer.name s
  | null => Writer.null
  | bool b => Writer.bool b
  | string s => Writer.string s
  | number lexeme _ => Writer.number lexeme

/-- The counterpart of a call; what was written is not known to it. -/
def read : Call → ReadM Payload
  | beginObject => do Reader.beginObject; return .nothing
  | endObject => do Reader.endObject; return .nothing
  | beginArray => do Reader.beginArray; return .nothing
  | endArray => do Reader.endArray; return .nothing
  | name _ => do return .text (← Reader.nextName)
  | null => do Reader.nextNull; return .nothing
  | bool _ => do return .bool (← Reader.nextBool)
  | string _ => do return .text (← Reader.nextString)
  | number _ _ => do return .text (← Reader.nextNumber)

/-- What was written with a call. -/
def payload : Call → Payload
  | beginObject | endObject | beginArray | endArray | null => .nothing
  | bool b => .bool b
  | name s | string s => .text s
  | number lexeme _ => .text lexeme

end Call

namespace Writer

/-! ### Places of a writer -/

/-- The comma in front of a value, where there is one. -/
def comma (w : Writer) : List Char :=
  match w.scopes with
  | .array false :: _ => [',']
  | _ => []

/-- The colon behind a name: it is written with the name, but read with the value. -/
def colon (w : Writer) : List Char :=
  match w.scopes with
  | .object _ true :: _ => [':']
  | _ => []

/-- No number can go on here: a comma, a name or a closing bracket comes next, or nothing. -/
def Ends (w : Writer) : Prop :=
  match w.scopes with
  | [] => w.started = true
  | .array first :: _ => first = false
  | .object _ dangling :: _ => dangling = false

/-- A value is separated from what is in front of it; no container is opened for that. -/
private theorem separate_ok {w w₁ : Writer} (h : w.separate = .ok w₁) :
    w₁.out.toList = w.out.toList ++ w.comma ∧ w₁.Ends ∧ (w.Ends → w.comma = [',']) ∧
      w₁.scopes.length = w.scopes.length := by
  obtain ⟨out, started, scopes⟩ := w
  rcases scopes with _ | ⟨⟨first⟩ | ⟨first, dangling⟩, outer⟩ <;> simp only [separate] at h
  · split at h
    · cases h
    · next hstarted =>
      obtain rfl := Except.ok.inj h
      exact ⟨by simp [comma], rfl, fun hends => absurd hends hstarted, rfl⟩
  · obtain rfl := Except.ok.inj h
    cases first
    · exact ⟨by simp [comma], rfl, fun _ => rfl, rfl⟩
    · exact ⟨by simp [comma], rfl, fun hends => (by cases hends), rfl⟩
  · split at h
    · next hdangling =>
      obtain rfl := Except.ok.inj h
      exact ⟨by simp [comma], rfl, fun hends => (by simp [Ends, hdangling] at hends), rfl⟩
    · cases h

/-! ### Calls that succeed -/

variable {w w' : Writer} {u : Unit}

theorem value_ok {text : String} (h : value text w = .ok u w') : ∃ w₁, w.separate = .ok w₁ ∧ w' = w₁.emit text := by
  unfold value at h
  rw [bind_of_ok (get_apply w)] at h
  cases hw : w.separate with
  | error fault =>
    simp only [hw] at h
    cases h
  | ok w₁ =>
    simp only [hw] at h
    exact ⟨w₁, rfl, (ok_inj.1 h).2.symm⟩

theorem open_ok {text : String} {scope : WriteScope} (h : (do value text; push scope) w = .ok u w') :
    ∃ w₁, w.separate = .ok w₁ ∧ w' = { w₁.emit text with scopes := scope :: w₁.scopes } := by
  obtain ⟨_, w₂, hvalue, hpush⟩ := bind_eq_ok.1 h
  obtain ⟨w₁, hw, rfl⟩ := value_ok hvalue
  exact ⟨w₁, hw, (ok_inj.1 hpush).2.symm⟩

theorem endObject_ok (h : endObject w = .ok u w') :
    ∃ first outer, w.scopes = .object first false :: outer ∧ w' = { w.emit "\x7d" with scopes := outer } := by
  obtain ⟨out, started, scopes⟩ := w
  unfold endObject at h
  rw [bind_of_ok (get_apply _)] at h
  dsimp only at h
  split at h
  · next first outer => exact ⟨first, outer, rfl, (ok_inj.1 h).2.symm⟩
  · cases h

theorem endArray_ok (h : endArray w = .ok u w') :
    ∃ first outer, w.scopes = .array first :: outer ∧ w' = { w.emit "]" with scopes := outer } := by
  obtain ⟨out, started, scopes⟩ := w
  unfold endArray at h
  rw [bind_of_ok (get_apply _)] at h
  dsimp only at h
  split at h
  · next first outer => exact ⟨first, outer, rfl, (ok_inj.1 h).2.symm⟩
  · cases h

theorem name_ok {s : String} (h : name s w = .ok u w') :
    ∃ first outer out, w.scopes = .object first false :: outer ∧ w' = ⟨out, w.started, .object false true :: outer⟩ ∧
      out.toList = w.out.toList ++ ((if first then [] else [',']) ++ (quote s.toList ++ [':'])) := by
  obtain ⟨out, started, scopes⟩ := w
  unfold name at h
  rw [bind_of_ok (get_apply _)] at h
  dsimp only at h
  split at h
  · next first outer =>
    obtain ⟨-, rfl⟩ := ok_inj.1 h
    refine ⟨first, outer, _, rfl, rfl, ?_⟩
    cases first <;> simp [emit]
  · cases h
  · cases h

/-- A call opens at most one container. -/
private theorem length_scopes_write {call : Call} (h : call.write w = .ok u w') :
    w'.scopes.length ≤ w.scopes.length + 1 := by
  cases call with
  | beginObject | beginArray =>
    obtain ⟨w₁, hw, rfl⟩ := open_ok h
    obtain ⟨-, -, -, hlen⟩ := separate_ok hw
    exact Nat.le_of_eq (congrArg (· + 1) hlen)
  | null | bool | string | number =>
    obtain ⟨w₁, hw, rfl⟩ := value_ok h
    obtain ⟨-, -, -, hlen⟩ := separate_ok hw
    exact Nat.le_succ_of_le (Nat.le_of_eq hlen)
  | endObject =>
    obtain ⟨first, outer, hscopes, rfl⟩ := endObject_ok h
    rw [hscopes, List.length_cons]
    exact Nat.le_add_right _ 2
  | endArray =>
    obtain ⟨first, outer, hscopes, rfl⟩ := endArray_ok h
    rw [hscopes, List.length_cons]
    exact Nat.le_add_right _ 2
  | name s =>
    obtain ⟨first, outer, out, hscopes, rfl, -⟩ := name_ok h
    rw [hscopes]
    exact Nat.le_succ _

/-- A run of calls nests containers no deeper than it is long. -/
private theorem length_scopes_writes {calls : List Call} (h : calls.forM Call.write w = .ok u w') :
    w'.scopes.length ≤ w.scopes.length + calls.length := by
  induction calls generalizing w with
  | nil =>
    obtain ⟨-, rfl⟩ := ok_inj.1 h
    exact Nat.le_refl _
  | cons call calls ih =>
    obtain ⟨_, w₁, hcall, hrest⟩ := bind_eq_ok.1 h
    have hone := length_scopes_write hcall
    have hmore := ih hrest
    rw [List.length_cons]
    omega

end Writer

namespace Reader

/-! ### The reader behind the writer -/

/-- A container with an entry, as the writer and as the reader knows it. -/
inductive Filled : WriteScope → ReadScope → Prop
  | array : Filled (.array false) .nonEmptyArray
  | object : Filled (.object false false) .nonEmptyObject

/-- The containers that a writer and a reader have open.  All but the innermost hold the next one, so they are
filled. -/
inductive SameScopes : List WriteScope → List ReadScope → Prop
  | filled {ws : List WriteScope} {rs : List ReadScope} (h : List.Forall₂ Filled ws rs) : SameScopes ws rs
  | emptyArray {ws : List WriteScope} {rs : List ReadScope} (h : List.Forall₂ Filled ws rs) :
    SameScopes (.array true :: ws) (.emptyArray :: rs)
  | emptyObject {ws : List WriteScope} {rs : List ReadScope} (h : List.Forall₂ Filled ws rs) :
    SameScopes (.object true false :: ws) (.emptyObject :: rs)
  | danglingName {ws : List WriteScope} {rs : List ReadScope} (h : List.Forall₂ Filled ws rs) :
    SameScopes (.object false true :: ws) (.danglingName :: rs)

/-- The reader stands where the writer stood when the rest of the document was still to be written. -/
inductive Trails (w : Writer) (rest : List Char) : Reader → Prop
  | mk (o : Nat) {scopes : List ReadScope} (h : SameScopes w.scopes scopes) :
    Trails w rest ⟨⟨w.colon ++ rest, o⟩, w.started, scopes, none⟩

variable {w w₁ w' : Writer} {r : Reader} {u : Unit}

/-- In filled containers no name waits for its value. -/
private theorem Trails.of_filled {scopes : List ReadScope} (o : Nat) (rest : List Char)
    (h : List.Forall₂ Filled w.scopes scopes) : Trails w rest ⟨⟨rest, o⟩, w.started, scopes, none⟩ := by
  have hcolon : w.colon = [] := by
    unfold Writer.colon
    cases hs : w.scopes with
    | nil => rfl
    | cons scope outer =>
      rw [hs] at h
      obtain ⟨_, _, hscope, -, -⟩ := List.forall₂_cons_left_iff.1 h
      cases hscope <;> rfl
  have htrails : Trails w rest ⟨⟨w.colon ++ rest, o⟩, w.started, scopes, none⟩ := .mk o (.filled h)
  rwa [hcolon] at htrails

/-- In front of a value, the next token is that of the value; the comma or the colon is passed over. -/
private theorem peek_value (hw : w.separate = .ok w₁) {c : Char} {s : List Char} {kind : TokenKind}
    (hc : kindOf? c = some kind) (hr : Trails w (w.comma ++ c :: s) r) :
    ∃ o scopes, peek r = .ok kind ⟨⟨c :: s, o⟩, w₁.started, scopes, some kind⟩ ∧
      List.Forall₂ Filled w₁.scopes scopes := by
  obtain ⟨o, h⟩ := hr
  obtain ⟨out, started, scopes⟩ := w
  cases h with
  | filled h =>
    cases h with
    | nil =>
      simp only [Writer.separate] at hw
      split at hw
      · cases hw
      · next hstarted =>
        obtain rfl := Except.ok.inj hw
        obtain rfl : started = false := by simpa using hstarted
        exact ⟨o, [], peek_document hc, .nil⟩
    | cons hscope houter =>
      cases hscope with
      | array =>
        obtain rfl := Except.ok.inj hw
        exact ⟨o + 1, _, peek_item hc, .cons .array houter⟩
      | object => cases hw
  | emptyArray houter =>
    obtain rfl := Except.ok.inj hw
    exact ⟨o, _, peek_item_first hc, .cons .array houter⟩
  | emptyObject houter => cases hw
  | danglingName houter =>
    obtain rfl := Except.ok.inj hw
    exact ⟨o + 1, _, peek_entry_value hc, .cons .object houter⟩

/-! ### One call -/

/-- The call of the writer adds text, and the call of the reader passes over it and hands over what was written. -/
structure Undoes (call : Call) (w w' : Writer) (chunk : List Char) : Prop where
  out_eq : w'.out.toList = w.out.toList ++ chunk
  follows : w.Ends → ∀ tail, Follows (chunk ++ tail)
  reads : ∀ r tail, (w'.Ends → Follows tail) → w'.scopes.length ≤ maxDepth → Trails w (chunk ++ tail) r →
    ∃ r', call.read r = .ok call.payload r' ∧ Trails w' tail r'

private theorem follows_cons {c : Char} (s : List Char) (hc : isNumberChar c = false) : Follows (c :: s) := by
  intro d hd
  obtain rfl := Option.some.inj hd
  exact hc

private theorem follows_comma {s tail : List Char} (h : w.comma = [',']) : Follows (w.comma ++ s ++ tail) := by
  rw [h]
  exact follows_cons _ rfl

private theorem undoes_leaf {call : Call} {j : Json} {text : String} (htext : text.toList = j.text)
    (hread : Reads call.read call.payload j) (hdepth : j.depth = 0) (h : Writer.value text w = .ok u w') :
    Undoes call w w' (w.comma ++ j.text) := by
  obtain ⟨w₁, hw, rfl⟩ := Writer.value_ok h
  obtain ⟨hout, hends, hcomma, -⟩ := Writer.separate_ok hw
  refine ⟨?_, fun hstart tail => follows_comma (hcomma hstart), ?_⟩
  · simp only [Writer.emit, String.toList_append, hout, htext, List.append_assoc]
  · intro r tail htail hlen hr
    obtain ⟨c, s, hs, hkind⟩ := head_text j
    have hr' : Trails w (w.comma ++ c :: (s ++ tail)) r := by simpa [hs] using hr
    obtain ⟨o, scopes, hpeek, hscopes⟩ := peek_value hw hkind hr'
    have hpeek' : peek r = .ok j.kind ⟨⟨j.text ++ tail, o⟩, w₁.started, scopes, some j.kind⟩ := by
      rw [hpeek, hs]
      rfl
    have hlen' : scopes.length + j.depth ≤ maxDepth := by
      rw [← hscopes.length_eq, hdepth]
      exact hlen
    obtain ⟨o', hreads⟩ := hread r o w₁.started scopes tail hpeek' (htail hends) hlen'
    exact ⟨_, hreads, .of_filled (w := w₁.emit text) o' tail hscopes⟩

/-- Both kinds of container are opened alike. -/
private theorem undoes_open {call : Call} {bracket : Char} {text : String} {kind : TokenKind} {scope : WriteScope}
    {seen : ReadScope} (htext : text.toList = [bracket]) (hkind : kindOf? bracket = some kind)
    (hscope : ∀ (w : Writer) {scopes : List ReadScope} (o : Nat) (tail : List Char),
      List.Forall₂ Filled w.scopes scopes →
      Trails { w with scopes := scope :: w.scopes } tail ⟨⟨tail, o⟩, w.started, seen :: scopes, none⟩)
    (hread : ∀ {r : Reader} {s : List Char} {o : Nat} {started : Bool} {outer : List ReadScope},
      peek r = .ok kind ⟨⟨bracket :: s, o⟩, started, outer, some kind⟩ → outer.length < maxDepth →
        call.read r = .ok call.payload ⟨⟨s, o + 1⟩, started, seen :: outer, none⟩)
    (h : (do Writer.value text; Writer.push scope) w = .ok u w') :
    Undoes call w w' (w.comma ++ [bracket]) := by
  obtain ⟨w₁, hw, rfl⟩ := Writer.open_ok h
  obtain ⟨hout, -, hcomma, -⟩ := Writer.separate_ok hw
  refine ⟨?_, fun hstart tail => follows_comma (hcomma hstart), ?_⟩
  · simp only [Writer.emit, String.toList_append, hout, htext, List.append_assoc]
  · intro r tail _ hlen hr
    rw [List.append_assoc] at hr
    obtain ⟨o, scopes, hpeek, hscopes⟩ := peek_value hw hkind hr
    have hdepth : scopes.length < maxDepth := by
      rw [← hscopes.length_eq]
      exact hlen
    exact ⟨_, hread hpeek hdepth, hscope (w₁.emit text) (o + 1) tail hscopes⟩

private theorem undoes_endObject (h : Writer.endObject w = .ok u w') : Undoes .endObject w w' ['\x7d'] := by
  obtain ⟨out, started, scopes⟩ := w
  obtain ⟨first, outer, rfl, rfl⟩ := Writer.endObject_ok h
  refine ⟨by simp [Writer.emit], fun _ tail => follows_cons tail rfl, ?_⟩
  rintro r tail - - ⟨o, hscopes⟩
  cases hscopes with
  | filled hfilled =>
    obtain ⟨_, scopes, ⟨⟩, houter, rfl⟩ := List.forall₂_cons_left_iff.1 hfilled
    exact ⟨_, bind_of_ok (endObject_of_peek (peek_endObject (.inr rfl))), .of_filled (o + 1) tail houter⟩
  | emptyObject houter =>
    exact ⟨_, bind_of_ok (endObject_of_peek (peek_endObject (.inl rfl))), .of_filled (o + 1) tail houter⟩

private theorem undoes_endArray (h : Writer.endArray w = .ok u w') : Undoes .endArray w w' [']'] := by
  obtain ⟨out, started, scopes⟩ := w
  obtain ⟨first, outer, rfl, rfl⟩ := Writer.endArray_ok h
  refine ⟨by simp [Writer.emit], fun _ tail => follows_cons tail rfl, ?_⟩
  rintro r tail - - ⟨o, hscopes⟩
  cases hscopes with
  | filled hfilled =>
    obtain ⟨_, scopes, ⟨⟩, houter, rfl⟩ := List.forall₂_cons_left_iff.1 hfilled
    exact ⟨_, bind_of_ok (endArray_of_peek (peek_endArray (.inr rfl))), .of_filled (o + 1) tail houter⟩
  | emptyArray houter =>
    exact ⟨_, bind_of_ok (endArray_of_peek (peek_endArray (.inl rfl))), .of_filled (o + 1) tail houter⟩

/-- A name is read after a look at it. -/
private theorem nextName_of_peek {r₁ : Reader} (h : peek r = .ok .name r₁) : nextName r = nextName r₁ := by
  unfold nextName
  rw [bind_of_ok (expect_of_peek h), bind_of_ok (expect_of_peek (peek_idem h))]

private theorem undoes_name {s : String} (h : Writer.name s w = .ok u w') : ∃ chunk, Undoes (.name s) w w' chunk := by
  obtain ⟨out, started, scopes⟩ := w
  obtain ⟨first, outer, out', rfl, rfl, hout⟩ := Writer.name_ok h
  refine ⟨_, hout, fun _ tail => ?_, ?_⟩
  · cases first <;> exact follows_cons _ rfl
  rintro r tail - - ⟨o, hscopes⟩
  cases hscopes with
  | filled hfilled =>
    obtain ⟨_, scopes, ⟨⟩, houter, rfl⟩ := List.forall₂_cons_left_iff.1 hfilled
    obtain ⟨o', hname⟩ := nextName_quote s (o + 1) started .nonEmptyObject scopes (':' :: tail)
    refine ⟨⟨⟨':' :: tail, o'⟩, started, .danglingName :: scopes, none⟩, ?_, .mk o' (.danglingName houter)⟩
    have hrest : (if false = true then [] else [',']) ++ (quote s.toList ++ [':']) ++ tail =
        ',' :: (quote s.toList ++ ':' :: tail) := by simp
    rw [hrest]
    exact bind_of_ok ((nextName_of_peek peek_name).trans hname)
  | @emptyObject _ scopes houter =>
    obtain ⟨o', hname⟩ := nextName_quote s o started .emptyObject scopes (':' :: tail)
    refine ⟨⟨⟨':' :: tail, o'⟩, started, .danglingName :: scopes, none⟩, ?_, .mk o' (.danglingName houter)⟩
    have hrest : (if true = true then [] else [',']) ++ (quote s.toList ++ [':']) ++ tail =
        quote s.toList ++ ':' :: tail := by simp
    rw [hrest]
    exact bind_of_ok ((nextName_of_peek peek_name_first).trans hname)

/-- Every call of a writer is undone by its counterpart. -/
private theorem undoes_of_write {call : Call} (h : call.write w = .ok u w') : ∃ chunk, Undoes call w w' chunk := by
  cases call with
  | beginObject => exact ⟨_, undoes_open rfl rfl (fun _ _ o _ hs => .mk o (.emptyObject hs))
      (fun hpeek hdepth => bind_of_ok (beginObject_of_peek hpeek hdepth)) h⟩
  | endObject => exact ⟨_, undoes_endObject h⟩
  | beginArray => exact ⟨_, undoes_open rfl rfl (fun _ _ o _ hs => .mk o (.emptyArray hs))
      (fun hpeek hdepth => bind_of_ok (beginArray_of_peek hpeek hdepth)) h⟩
  | endArray => exact ⟨_, undoes_endArray h⟩
  | name s => exact undoes_name h
  | null => exact ⟨_, undoes_leaf (j := .null) rfl (reads_nextNull.map fun _ => Payload.nothing) rfl h⟩
  | bool b => exact ⟨_, undoes_leaf (j := .bool b) (by cases b <;> rfl) ((reads_nextBool b).map Payload.bool) rfl h⟩
  | string s =>
    have hread := (reads_nextString s.toList).map Payload.text
    rw [String.ofList_toList] at hread
    exact ⟨_, undoes_leaf (j := .string s.toList) String.toList_ofList hread rfl h⟩
  | number lexeme hlexeme =>
    have hread := (reads_nextNumber hlexeme).map Payload.text
    rw [String.ofList_toList] at hread
    exact ⟨_, undoes_leaf (j := .number lexeme.toList hlexeme) rfl hread rfl h⟩

/-! ### A run of calls -/

/-- A run of calls is undone by the run of their counterparts. -/
private theorem reads_of_writes {calls : List Call} (h : calls.forM Call.write w = .ok u w')
    (hdepth : ∀ before v, before <+: calls → before.forM Call.write w = .ok ⟨⟩ v → v.scopes.length ≤ maxDepth) :
    ∃ text, w'.out.toList = w.out.toList ++ text ∧ ∀ tail, (w'.Ends → Follows tail) →
      (w.Ends → Follows (text ++ tail)) ∧
      ∀ r, Trails w (text ++ tail) r →
        ∃ r', calls.mapM Call.read r = .ok (calls.map Call.payload) r' ∧ Trails w' tail r' := by
  induction calls generalizing w with
  | nil =>
    obtain ⟨-, rfl⟩ := ok_inj.1 h
    refine ⟨[], by simp, fun tail htail => ⟨htail, fun r hr => ⟨r, ?_, hr⟩⟩⟩
    rw [List.mapM_nil]
    rfl
  | cons call calls ih =>
    obtain ⟨_, w₁, hcall, hrest⟩ := bind_eq_ok.1 h
    have hlen : w₁.scopes.length ≤ maxDepth := hdepth [call] w₁ (by simp) (bind_of_ok hcall)
    obtain ⟨chunk, hout, hfollows, hreads⟩ := undoes_of_write hcall
    obtain ⟨text, hout', hrun⟩ := ih hrest fun before v hbefore hv =>
      hdepth (call :: before) v (List.cons_prefix_cons.2 ⟨rfl, hbefore⟩) ((bind_of_ok hcall).trans hv)
    refine ⟨chunk ++ text, by rw [hout', hout, List.append_assoc], fun tail htail => ?_⟩
    obtain ⟨hends, hread⟩ := hrun tail htail
    rw [List.append_assoc]
    refine ⟨fun hw => hfollows hw _, fun r hr => ?_⟩
    obtain ⟨r₁, hcall', hr₁⟩ := hreads r (text ++ tail) hends hlen hr
    obtain ⟨r', hrest', hr'⟩ := hread r₁ hr₁
    refine ⟨r', ?_, hr'⟩
    rw [List.mapM_cons, bind_of_ok hcall', bind_of_ok hrest']
    rfl

/-- What a run of calls wrote, a reader gets back when it makes the same calls on the finished document; behind them
the document ends. -/
theorem read_written {calls : List Call} {text : String} (hwrite : calls.forM Call.write Writer.empty = .ok ⟨⟩ w)
    (hfinish : w.finish = .ok text)
    (hdepth : ∀ before v, before <+: calls → before.forM Call.write Writer.empty = .ok ⟨⟩ v →
      v.scopes.length ≤ maxDepth) :
    ∃ r r', calls.mapM Call.read (ofText text.toList) = .ok (calls.map Call.payload) r ∧
      peek r = .ok .endDocument r' := by
  have hdone : w.scopes = [] ∧ w.started = true ∧ w.out = text := by
    unfold Writer.finish at hfinish
    split at hfinish
    · cases hfinish
    · next hscopes =>
      split at hfinish
      · next hstarted => exact ⟨by simpa using hscopes, hstarted, Except.ok.inj hfinish⟩
      · cases hfinish
  obtain ⟨hscopes, hstarted, rfl⟩ := hdone
  obtain ⟨t, hout, hrun⟩ := reads_of_writes hwrite hdepth
  have ht : w.out.toList = t := by
    rw [hout]
    rfl
  obtain ⟨-, hread⟩ := hrun [] fun _ c hc => by cases hc
  rw [List.append_nil] at hread
  obtain ⟨r, hr, htrails⟩ := hread (ofText t) (.of_filled (w := Writer.empty) 0 t .nil)
  obtain ⟨o, hsame⟩ := htrails
  have hcolon : w.colon = [] := by
    unfold Writer.colon
    rw [hscopes]
  rw [hscopes] at hsame
  cases hsame with
  | filled hfilled =>
    cases hfilled
    rw [hcolon, hstarted] at hr
    refine ⟨_, _, ?_, peek_endDocument (o := o)⟩
    rw [ht]
    exact hr

private theorem isNumber_sample : IsNumber "-0.5e3".toList := by
  have htext : "-0.5e3".toList = '-' :: (['0'] ++ (['.', '5'] ++ ['e', '3'])) := by simp
  rw [htext]
  exact .minus (.mk .zero (.digits rfl) (.unsigned (.inl rfl) rfl))

/-- An entry with an array and an empty object. -/
def entryCalls : List Call :=
  [.beginObject, .name "a", .beginArray, .number "-0.5e3" isNumber_sample,
    .bool true, .null, .string "é\n", .endArray, .name "", .beginObject, .endObject, .endObject]

theorem read_written_entries : ∃ w text, entryCalls.forM Call.write Writer.empty = .ok ⟨⟩ w ∧ w.finish = .ok text ∧
    ∃ r r', entryCalls.mapM Call.read (ofText text.toList) = .ok (entryCalls.map Call.payload) r ∧
      peek r = .ok .endDocument r' := by
  refine ⟨_, _, rfl, rfl, read_written rfl rfl fun before v hbefore hv => ?_⟩
  have hlen := Writer.length_scopes_writes hv
  have hcalls := hbefore.length_le
  simp only [entryCalls, Writer.empty, List.length_cons, List.length_nil] at hlen hcalls
  unfold maxDepth
  omega

end Reader

end Marshal
