import Marshal.Proofs.Stream.Tokens

/-!
# Well-formed sequences of tokens

The calls that a writer takes are those that derive from the grammar of values (`accepted_iff_isValue`): what has been
written so far is at every moment the beginning of a derivation, and the open containers say which one (`Reaches`).  A
call that is refused leaves the writer as it was.
-/

namespace Marshal

open Effect

/-- A call of a writer; a number may be spelled in any way. -/
inductive WriteCall where
  | beginObject
  | endObject
  | beginArray
  | endArray
  | name (s : String)
  | null
  | bool (b : Bool)
  | string (s : String)
  | number (lexeme : String)
  | int (n : Int64)
  | float (x : Binary64)
deriving Repr, DecidableEq

namespace WriteCall

def run : WriteCall → TokenM Unit
  | beginObject => Writer.beginObject
  | endObject => Writer.endObject
  | beginArray => Writer.beginArray
  | endArray => Writer.endArray
  | name s => Writer.name s
  | null => Writer.null
  | bool b => Writer.bool b
  | string s => Writer.string s
  | number lexeme => Writer.number lexeme
  | int n => Writer.int n
  | float x => Writer.float x

/-- Whether the call writes a value by itself. -/
def isLeaf : WriteCall → Bool
  | null | bool _ | string _ | number _ | int _ | float _ => true
  | beginObject | endObject | beginArray | endArray | name _ => false

/-- A float can be written only if it is finite. -/
def isFinite : WriteCall → Bool
  | float x => x.isFinite
  | _ => true

/-! ### The grammar -/

/-- The calls for an entry of an object. -/
def entry (e : String × List WriteCall) : List WriteCall := name e.1 :: e.2

/-- The calls for one value: a leaf, an array of values, or an object of named values. -/
inductive IsValue : List WriteCall → Prop
  | leaf {c : WriteCall} (h : c.isLeaf = true) : IsValue [c]
  | array {values : List (List WriteCall)} (h : ∀ v ∈ values, IsValue v) :
    IsValue (beginArray :: (values.flatten ++ [endArray]))
  | object {entries : List (String × List WriteCall)} (h : ∀ e ∈ entries, IsValue e.2) :
    IsValue (beginObject :: (entries.flatMap entry ++ [endObject]))

/-- The writers that calls can lead to, each with the derivation that the calls begin.  What the writer has put out
plays no part in it. -/
inductive Reaches : List WriteCall → Writer → Prop
  | start (out : String) : Reaches [] ⟨out, false, []⟩
  | whole {calls : List WriteCall} (h : IsValue calls) (out : String) : Reaches calls ⟨out, true, []⟩
  | array {calls : List WriteCall} {w w₁ : Writer} {values : List (List WriteCall)} (h : Reaches calls w)
    (hw : w.separate = .ok w₁) (hvalues : ∀ v ∈ values, IsValue v) (out : String) (first : Bool) :
    Reaches (calls ++ beginArray :: values.flatten) ⟨out, w₁.started, .array first :: w₁.scopes⟩
  | object {calls : List WriteCall} {w w₁ : Writer} {entries : List (String × List WriteCall)} (h : Reaches calls w)
    (hw : w.separate = .ok w₁) (hentries : ∀ e ∈ entries, IsValue e.2) (out : String) (first : Bool) :
    Reaches (calls ++ beginObject :: entries.flatMap entry) ⟨out, w₁.started, .object first false :: w₁.scopes⟩
  | name {calls : List WriteCall} {w w₁ : Writer} {entries : List (String × List WriteCall)} (h : Reaches calls w)
    (hw : w.separate = .ok w₁) (hentries : ∀ e ∈ entries, IsValue e.2) (s out : String) :
    Reaches (calls ++ beginObject :: (entries.flatMap entry ++ [name s]))
      ⟨out, w₁.started, .object false true :: w₁.scopes⟩

variable {calls v : List WriteCall} {call : WriteCall} {w w₁ w' : Writer} {u : Unit} {e : Error}

/-! ### What is written derives from the grammar -/

private theorem run_leaf_ok (hleaf : call.isLeaf = true) (h : call.run w = .ok u w') :
    ∃ text w₁, w.separate = .ok w₁ ∧ w' = w₁.emit text := by
  cases call with
  | beginObject | endObject | beginArray | endArray | name => cases hleaf
  | null | bool | string | number | int =>
    obtain ⟨w₁, hw⟩ := Writer.value_ok h
    exact ⟨_, w₁, hw⟩
  | float x =>
    simp only [run, Writer.float] at h
    split at h
    · obtain ⟨w₁, hw⟩ := Writer.value_ok h
      exact ⟨_, w₁, hw⟩
    · cases h

/-- A value may be written wherever the writer takes one. -/
private theorem Reaches.value (h : Reaches calls w) (hw : w.separate = .ok w₁) (hv : IsValue v) (out : String) :
    Reaches (calls ++ v) { w₁ with out } := by
  cases h with
  | start =>
    obtain rfl := Except.ok.inj hw
    exact .whole hv out
  | whole => cases hw
  | @array calls w₀ w₂ values h₀ hw₀ hvalues =>
    obtain rfl := Except.ok.inj hw
    have hall : ∀ v' ∈ values ++ [v], IsValue v' := by
      intro v' hv'
      rcases List.mem_append.1 hv' with hv' | hv'
      · exact hvalues v' hv'
      · exact List.mem_singleton.1 hv' ▸ hv
    have hreach := Reaches.array h₀ hw₀ hall out false
    simpa using hreach
  | object => cases hw
  | @name calls w₀ w₂ entries h₀ hw₀ hentries s =>
    obtain rfl := Except.ok.inj hw
    have hall : ∀ e ∈ entries ++ [(s, v)], IsValue e.2 := by
      intro e he
      rcases List.mem_append.1 he with he | he
      · exact hentries e he
      · exact List.mem_singleton.1 he ▸ hv
    have hreach := Reaches.object h₀ hw₀ hall out false
    simpa [entry] using hreach

/-- A call that succeeds goes on with the derivation. -/
private theorem Reaches.step (h : Reaches calls w) (hcall : call.run w = .ok u w') :
    Reaches (calls ++ [call]) w' := by
  by_cases hleaf : call.isLeaf = true
  · obtain ⟨text, w₁, hw, rfl⟩ := run_leaf_ok hleaf hcall
    exact h.value hw (.leaf hleaf) _
  cases call with
  | null | bool | string | number | int | float => exact absurd rfl hleaf
  | beginArray =>
    obtain ⟨w₁, hw, rfl⟩ := Writer.open_ok hcall
    exact h.array hw (fun _ hv => absurd hv (List.not_mem_nil)) _ true
  | beginObject =>
    obtain ⟨w₁, hw, rfl⟩ := Writer.open_ok hcall
    exact h.object hw (fun _ he => absurd he (List.not_mem_nil)) _ true
  | endArray =>
    obtain ⟨first, outer, hscopes, rfl⟩ := Writer.endArray_ok hcall
    cases h with
    | array h₀ hw₀ hvalues out =>
      obtain ⟨-, rfl⟩ := List.cons.inj hscopes
      have hreach := h₀.value hw₀ (.array hvalues) (out ++ "]")
      simpa [Writer.emit] using hreach
    | _ => simp at hscopes
  | endObject =>
    obtain ⟨first, outer, hscopes, rfl⟩ := Writer.endObject_ok hcall
    cases h with
    | object h₀ hw₀ hentries out =>
      obtain ⟨-, rfl⟩ := List.cons.inj hscopes
      have hreach := h₀.value hw₀ (.object hentries) (out ++ "\x7d")
      simpa [Writer.emit] using hreach
    | _ => simp at hscopes
  | name s =>
    obtain ⟨first, outer, out, hscopes, rfl, -⟩ := Writer.name_ok hcall
    cases h with
    | object h₀ hw₀ hentries =>
      obtain ⟨-, rfl⟩ := List.cons.inj hscopes
      have hreach := h₀.name hw₀ hentries s out
      simpa using hreach
    | _ => simp at hscopes

/-- A run of calls that succeed goes on with the derivation. -/
private theorem Reaches.run (h : Reaches calls w) {more : List WriteCall}
    (hrun : more.forM WriteCall.run w = .ok u w') : Reaches (calls ++ more) w' := by
  induction more generalizing calls w with
  | nil =>
    obtain ⟨-, rfl⟩ := ok_inj.1 hrun
    simpa using h
  | cons call more ih =>
    obtain ⟨_, w₁, hcall, hmore⟩ := bind_eq_ok.1 hrun
    have hreach := ih (h.step hcall) hmore
    simpa using hreach

/-! ### What derives from the grammar is written -/

private theorem value_of_separate (hw : w.separate = .ok w₁) (text : String) :
    Writer.value text w = .ok ⟨⟩ (w₁.emit text) := by
  unfold Writer.value
  rw [bind_of_ok (get_apply w)]
  simp only [hw]
  rfl

private theorem open_of_separate (hw : w.separate = .ok w₁) (text : String) (scope : WriteScope) :
    (do Writer.value text; Writer.push scope) w = .ok ⟨⟩ ⟨w₁.out ++ text, w₁.started, scope :: w₁.scopes⟩ :=
  bind_of_ok (value_of_separate hw text)

private theorem run_leaf (hw : w.separate = .ok w₁) (hleaf : call.isLeaf = true) (hfinite : call.isFinite = true) :
    ∃ out, call.run w = .ok ⟨⟩ { w₁ with out } := by
  cases call with
  | beginObject | endObject | beginArray | endArray | name => cases hleaf
  | null | bool | string | number | int => exact ⟨_, value_of_separate hw _⟩
  | float x => exact ⟨w₁.out ++ x.display, (congrFun (if_pos hfinite) w).trans (value_of_separate hw x.display)⟩

/-- The calls for a value can be made where a value may stand, and lead to where it stood. -/
def Runs (v : List WriteCall) : Prop :=
  ∀ w w₁ : Writer, w.separate = .ok w₁ → ∃ out, v.forM WriteCall.run w = .ok ⟨⟩ { w₁ with out }

private theorem runs_values {values : List (List WriteCall)} (h : ∀ v ∈ values, Runs v) (out : String)
    (started first : Bool) (outer : List WriteScope) :
    ∃ out' first', values.flatten.forM WriteCall.run ⟨out, started, .array first :: outer⟩ =
      .ok ⟨⟩ ⟨out', started, .array first' :: outer⟩ := by
  induction values generalizing out first with
  | nil => exact ⟨out, first, rfl⟩
  | cons v values ih =>
    obtain ⟨out₁, hv⟩ := h v (List.mem_cons_self ..) ⟨out, started, .array first :: outer⟩ _ rfl
    obtain ⟨out', first', hvalues⟩ := ih (fun v' hv' => h v' (List.mem_cons_of_mem _ hv')) out₁ false
    refine ⟨out', first', ?_⟩
    rw [List.flatten_cons, forM_append_of_ok hv]
    exact hvalues

private theorem runs_entries {entries : List (String × List WriteCall)} (h : ∀ e ∈ entries, Runs e.2) (out : String)
    (started first : Bool) (outer : List WriteScope) :
    ∃ out' first', (entries.flatMap entry).forM WriteCall.run ⟨out, started, .object first false :: outer⟩ =
      .ok ⟨⟩ ⟨out', started, .object first' false :: outer⟩ := by
  induction entries generalizing out first with
  | nil => exact ⟨out, first, rfl⟩
  | cons e entries ih =>
    obtain ⟨out₁, hv⟩ := h e (List.mem_cons_self ..) ⟨_, started, .object false true :: outer⟩ _ rfl
    obtain ⟨out', first', hentries⟩ := ih (fun e' he' => h e' (List.mem_cons_of_mem _ he')) out₁ false
    refine ⟨out', first', ?_⟩
    have hentry : (entry e).forM WriteCall.run ⟨out, started, .object first false :: outer⟩ =
        .ok ⟨⟩ ⟨out₁, started, .object false false :: outer⟩ := hv
    rw [List.flatMap_cons, forM_append_of_ok hentry]
    exact hentries

/-- The calls for a value, its floats being finite, can be made where a value may stand. -/
private theorem IsValue.runs (h : IsValue v) (hfinite : ∀ c ∈ v, c.isFinite = true) : Runs v := by
  induction h with
  | @leaf c hleaf =>
    intro w w₁ hw
    obtain ⟨out, hrun⟩ := run_leaf hw hleaf (hfinite c (List.mem_singleton_self c))
    exact ⟨out, bind_of_ok hrun⟩
  | @array values _ ih =>
    intro w w₁ hw
    have hvalues : ∀ v ∈ values, Runs v := fun v hv => ih v hv fun c hc => hfinite c (by
      simp only [List.mem_cons, List.mem_append, List.mem_flatten]
      exact .inr (.inl ⟨v, hv, hc⟩))
    obtain ⟨out, first, hitems⟩ := runs_values hvalues (w₁.out ++ "[") w₁.started true w₁.scopes
    refine ⟨out ++ "]", (bind_of_ok (open_of_separate hw "[" (.array true))).trans ?_⟩
    exact forM_append_of_ok hitems
  | @object entries _ ih =>
    intro w w₁ hw
    have hentries : ∀ e ∈ entries, Runs e.2 := fun e he => ih e he fun c hc => hfinite c (by
      simp only [List.mem_cons, List.mem_append, List.mem_flatMap]
      exact .inr (.inl ⟨e, he, List.mem_cons_of_mem _ hc⟩))
    obtain ⟨out, first, hmembers⟩ := runs_entries hentries (w₁.out ++ "\x7b") w₁.started true w₁.scopes
    refine ⟨out ++ "\x7d", (bind_of_ok (open_of_separate hw "\x7b" (.object true false))).trans ?_⟩
    exact forM_append_of_ok hmembers

/-! ### Calls that are refused -/

private theorem value_error {text : String} (h : Writer.value text w = .error e w') : w' = w := by
  unfold Writer.value at h
  rw [bind_of_ok (get_apply w)] at h
  cases hw : w.separate with
  | ok w₁ =>
    simp only [hw] at h
    cases h
  | error fault =>
    simp only [hw] at h
    cases h
    rfl

/-- Opening a container fails only in front of its bracket. -/
private theorem open_error {text : String} {scope : WriteScope}
    (h : (do Writer.value text; Writer.push scope) w = .error e w') : w' = w := by
  rcases bind_eq_error.1 h with h | ⟨_, w₁, -, h⟩
  · exact value_error h
  · cases h

/-- A call that is refused leaves the writer as it was. -/
private theorem run_error (h : call.run w = .error e w') : w' = w := by
  obtain ⟨out, started, scopes⟩ := w
  cases call with
  | null | bool | string | number | int => exact value_error h
  | beginObject | beginArray => exact open_error h
  | float x =>
    simp only [run, Writer.float] at h
    split at h
    · exact value_error h
    · cases h
      rfl
  | endObject =>
    change Writer.endObject _ = _ at h
    unfold Writer.endObject at h
    rw [bind_of_ok (get_apply _)] at h
    dsimp only at h
    split at h <;> cases h
    rfl
  | endArray =>
    change Writer.endArray _ = _ at h
    unfold Writer.endArray at h
    rw [bind_of_ok (get_apply _)] at h
    dsimp only at h
    split at h <;> cases h
    rfl
  | name s =>
    change Writer.name s _ = _ at h
    unfold Writer.name at h
    rw [bind_of_ok (get_apply _)] at h
    dsimp only at h
    split at h <;> cases h <;> rfl

private theorem isFinite_of_run (h : call.run w = .ok u w') : call.isFinite = true := by
  cases call with
  | float x =>
    simp only [run, Writer.float] at h
    split at h
    · next hx => exact hx
    · cases h
  | _ => rfl

private theorem isFinite_of_forM (h : calls.forM run w = .ok u w') : ∀ c ∈ calls, c.isFinite = true := by
  induction calls generalizing w with
  | nil => simp
  | cons call calls ih =>
    obtain ⟨_, w₁, hcall, hcalls⟩ := bind_eq_ok.1 h
    intro c hc
    rcases List.mem_cons.1 hc with rfl | hc
    · exact isFinite_of_run hcall
    · exact ih hcalls c hc

/-- The calls that a new writer takes up to the end of the document are those for one value, with finite floats only.
A call that is refused, in any state of a writer, changes neither what was put out nor what is open. -/
theorem accepted_iff_isValue (calls : List WriteCall) :
    ((∃ w text, calls.forM run Writer.empty = .ok ⟨⟩ w ∧ w.finish = .ok text) ↔
      IsValue calls ∧ ∀ c ∈ calls, c.isFinite = true) ∧
    ∀ (w : Writer) (call : WriteCall) (e : Error) (w' : Writer), call.run w = .error e w' → w' = w := by
  refine ⟨⟨?_, ?_⟩, fun _ _ _ _ => run_error⟩
  · rintro ⟨w, text, hrun, hfinish⟩
    refine ⟨?_, isFinite_of_forM hrun⟩
    have hreach : Reaches calls w := (Reaches.start "").run hrun
    cases hreach with
    | start => cases hfinish
    | whole h => exact h
    | array | object | name => cases hfinish
  · rintro ⟨hvalue, hfinite⟩
    obtain ⟨out, hrun⟩ := hvalue.runs hfinite Writer.empty ⟨"", true, []⟩ rfl
    exact ⟨_, out, hrun, rfl⟩

/-- An object with a number and an array. -/
def pointCalls : List WriteCall :=
  [beginObject, name "x", int 1, name "ys", beginArray, null, string "é", endArray, endObject]

/-- The calls of the sample derive from the grammar; and an object that waits for a value is not closed. -/
theorem accepted_iff_isValue_point : (IsValue pointCalls ∧ ∀ c ∈ pointCalls, c.isFinite = true) ∧
    ∃ e w', endObject.run ⟨"\x7b\"x\":", true, [.object false true]⟩ = .error e w' ∧
      w' = ⟨"\x7b\"x\":", true, [.object false true]⟩ :=
  ⟨(accepted_iff_isValue pointCalls).1.1 ⟨_, _, rfl, rfl⟩, _, _, rfl, (accepted_iff_isValue []).2 _ endObject _ _ rfl⟩

end WriteCall

end Marshal
