import Marshal.Proofs.Converter.Assembling
import Marshal.Proofs.Converter.Emission

/-!
# Texts that do not depend on their place

A codec that hands nothing to a binding writes a value the same wherever the value stands (`WriteM.Repeats`): what it
appends in one place, as a document of its own or as a part of another, it appends in every place.  The parts of a
container are appended as texts in a row, with commas between them (`WriteM.joined`).
-/

namespace Marshal

open Effect
open Text (quote)

namespace WriteM

variable {s : Store} {m m' : WriteM Unit} {text text' : List Char} {ts ts' : List (List Char)}
  {scope : Bool → WriteScope}

/-! ### Appending a text -/

/-- Begun where a value may stand, the computation appends the text. -/
def Appends (s : Store) (m : WriteM Unit) (text : List Char) : Prop :=
  ∀ (w : Writer) (out : String) (started : Bool) (scopes : List WriteScope), w.separate = .ok ⟨out, started, scopes⟩ →
    m ⟨w, s⟩ = .ok ⟨⟩ ⟨⟨out ++ String.ofList text, started, scopes⟩, s⟩

/-- The texts of the parts of a container, the first of which may be the first of all. -/
def joined : (first : Bool) → List (List Char) → List Char
  | _, [] => []
  | first, t :: ts => (if first then [] else [',']) ++ (t ++ joined false ts)

/-- Begun in an open container, the computation appends parts of it; `scope` is the state of the container, by whether
it is empty so far. -/
def AppendsParts (scope : Bool → WriteScope) (s : Store) (m : WriteM Unit) (ts : List (List Char)) : Prop :=
  ∀ (out : String) (started first : Bool) (outer : List WriteScope), m ⟨⟨out, started, scope first :: outer⟩, s⟩ =
    .ok ⟨⟩ ⟨⟨out ++ String.ofList (joined first ts), started, scope (first && ts.isEmpty) :: outer⟩, s⟩

/-- The scope of an object between its entries. -/
abbrev entries (empty : Bool) : WriteScope := .object empty false

private theorem joined_append (first : Bool) (ts ts' : List (List Char)) :
    joined first (ts ++ ts') = joined first ts ++ joined (first && ts.isEmpty) ts' := by
  induction ts generalizing first with
  | nil => simp [joined]
  | cons t ts ih => simp [joined, ih]

theorem appends_value (t : String) : Appends s (token (Writer.value t)) t.toList := by
  intro w out started scopes hw
  rw [value_apply t hw, String.ofList_toList]

private theorem appendsParts_nil : AppendsParts scope s (pure ⟨⟩) [] := by
  intro out started first outer
  simp [joined, pure_apply]

private theorem AppendsParts.append (h : AppendsParts scope s m ts) (h' : AppendsParts scope s m' ts') :
    AppendsParts scope s (do m; m') (ts ++ ts') := by
  intro out started first outer
  have hempty : (first && ts.isEmpty && ts'.isEmpty) = (first && (ts ++ ts').isEmpty) := by cases ts <;> simp
  rw [bind_of_ok (h out started first outer), h', joined_append, String.ofList_append, String.append_assoc, hempty]

theorem appendsParts_writeEach {α : Type} {write : α → WriteM Unit} {as : List α}
    (h : List.Forall₂ (fun a t => AppendsParts scope s (write a) [t]) as ts) :
    AppendsParts scope s (Codec.writeEach write as) ts := by
  induction h with
  | nil => exact appendsParts_nil
  | cons ha _ ih => exact ha.append ih

/-- The parts in front of one that is refused are appended. -/
theorem writeEach_of_throw {α : Type} {write : α → WriteM Unit} {before : List α} {a : α} {e : Error}
    (h : List.Forall₂ (fun a t => AppendsParts scope s (write a) [t]) before ts) (ha : write a = throw e)
    (behind : List α) (out : String) (started first : Bool) (outer : List WriteScope) :
    Codec.writeEach write (before ++ a :: behind) ⟨⟨out, started, scope first :: outer⟩, s⟩ =
      .error e ⟨⟨out ++ String.ofList (joined first ts), started, scope (first && ts.isEmpty) :: outer⟩, s⟩ := by
  rw [Codec.writeEach_append, bind_of_ok (appendsParts_writeEach h out started first outer), Codec.writeEach, ha]
  rfl

private theorem Appends.item (h : Appends s m text) : AppendsParts .array s m [text] := by
  intro out started first outer
  rw [h _ (if first then out else out ++ ",") started (.array false :: outer) rfl]
  cases first
  · simp [joined, String.append_assoc]
  · simp [joined]

theorem Appends.entry (h : Appends s m text) (name : String) :
    AppendsParts entries s (do
      token (Writer.name name)
      m) [quote name.toList ++ ':' :: text] := by
  intro out started first outer
  rw [bind_of_ok (name_apply name out started first outer), h _ _ started (entries false :: outer) rfl]
  have htext : (out ++ if first then String.ofList (quote name.toList) ++ ":"
      else "," ++ (String.ofList (quote name.toList) ++ ":")) ++ String.ofList text =
        out ++ String.ofList (joined first [quote name.toList ++ ':' :: text]) := by
    apply String.toList_inj.1
    cases first <;> simp [joined]
  rw [htext, List.isEmpty_cons, Bool.and_false]

theorem AppendsParts.array (h : AppendsParts .array s m ts) :
    Appends s (do
      token Writer.beginArray
      m
      token Writer.endArray) ('[' :: (joined true ts ++ [']'])) := by
  intro w out started scopes hw
  have htext : out ++ "[" ++ String.ofList (joined true ts) ++ "]" =
      out ++ String.ofList ('[' :: (joined true ts ++ [']'])) := by
    apply String.toList_inj.1
    simp
  rw [bind_of_ok (beginArray_apply hw), bind_of_ok (h _ _ _ _), endArray_apply, htext]

theorem AppendsParts.object (h : AppendsParts entries s m ts) :
    Appends s (do
      token Writer.beginObject
      m
      token Writer.endObject) ('\x7b' :: (joined true ts ++ ['\x7d'])) := by
  intro w out started scopes hw
  have htext : out ++ "\x7b" ++ String.ofList (joined true ts) ++ "\x7d" =
      out ++ String.ofList ('\x7b' :: (joined true ts ++ ['\x7d'])) := by
    apply String.toList_inj.1
    simp
  rw [bind_of_ok (beginObject_apply hw), bind_of_ok (h _ _ _ _), endObject_apply, htext]

/-- A pair of values is an array of the two. -/
theorem Appends.pair (h : Appends s m text) (h' : Appends s m' text') :
    AppendsParts .array s (do
      token Writer.beginArray
      m
      m'
      token Writer.endArray) ['[' :: (joined true [text, text'] ++ [']'])] := by
  have harray := (h.item.append h'.item).array
  simpa only [bind_assoc, List.singleton_append] using harray.item

/-! ### Repeating what was appended -/

/-- If the computation succeeds once where a value may stand, it appends one and the same text wherever a value may
stand. -/
def Repeats (s : Store) (m : WriteM Unit) : Prop :=
  ∀ (w : Writer) (out : String) (started : Bool) (scopes : List WriteScope) (w' : Writing),
    w.separate = .ok ⟨out, started, scopes⟩ → m ⟨w, s⟩ = .ok ⟨⟩ w' → ∃ text, Appends s m text

/-- If the computation succeeds once in an open container, it appends the same parts to every open container. -/
def RepeatsParts (scope : Bool → WriteScope) (s : Store) (m : WriteM Unit) : Prop :=
  ∀ (out : String) (started first : Bool) (outer : List WriteScope) (w' : Writing),
    m ⟨⟨out, started, scope first :: outer⟩, s⟩ = .ok ⟨⟩ w' → ∃ ts, AppendsParts scope s m ts

private theorem Appends.repeats (h : Appends s m text) : Repeats s m := fun _ _ _ _ _ _ _ => ⟨text, h⟩

theorem repeats_throw (e : Error) : Repeats s (throw e) := fun _ _ _ _ _ _ h => nomatch h

private theorem repeatsParts_throw (e : Error) : RepeatsParts scope s (throw e) := fun _ _ _ _ _ h => nomatch h

private theorem repeatsParts_nil : RepeatsParts scope s (pure ⟨⟩) := fun _ _ _ _ _ _ => ⟨[], appendsParts_nil⟩

private theorem RepeatsParts.append (h : RepeatsParts scope s m) (h' : RepeatsParts scope s m') :
    RepeatsParts scope s (do m; m') := by
  intro out started first outer w' hrun
  obtain ⟨_, w₁, hm, hm'⟩ := bind_eq_ok.1 hrun
  obtain ⟨ts, hts⟩ := h _ _ _ _ _ hm
  obtain ⟨-, rfl⟩ := ok_inj.1 ((hts out started first outer).symm.trans hm)
  obtain ⟨ts', hts'⟩ := h' _ _ _ _ _ hm'
  exact ⟨ts ++ ts', hts.append hts'⟩

private theorem Repeats.item (h : Repeats s m) : RepeatsParts .array s m := by
  intro out started first outer w' hm
  obtain ⟨text, htext⟩ := h _ _ _ _ _ rfl hm
  exact ⟨[text], htext.item⟩

private theorem Repeats.entry (h : Repeats s m) (name : String) :
    RepeatsParts entries s (do
      token (Writer.name name)
      m) := by
  intro out started first outer w' hrun
  rw [bind_of_ok (name_apply name out started first outer)] at hrun
  obtain ⟨text, htext⟩ := h _ _ _ _ _ rfl hrun
  exact ⟨_, htext.entry name⟩

private theorem RepeatsParts.array (h : RepeatsParts .array s m) :
    Repeats s (do
      token Writer.beginArray
      m
      token Writer.endArray) := by
  intro w out started scopes w' hw hrun
  rw [bind_of_ok (beginArray_apply hw)] at hrun
  obtain ⟨_, w₁, hm, -⟩ := bind_eq_ok.1 hrun
  obtain ⟨ts, hts⟩ := h _ _ _ _ _ hm
  exact ⟨_, hts.array⟩

private theorem RepeatsParts.object (h : RepeatsParts entries s m) :
    Repeats s (do
      token Writer.beginObject
      m
      token Writer.endObject) := by
  intro w out started scopes w' hw hrun
  rw [bind_of_ok (beginObject_apply hw)] at hrun
  obtain ⟨_, w₁, hm, -⟩ := bind_eq_ok.1 hrun
  obtain ⟨ts, hts⟩ := h _ _ _ _ _ hm
  exact ⟨_, hts.object⟩

/-! ### Codecs -/

private theorem repeats_value (t : String) : Repeats s (token (Writer.value t)) := (appends_value t).repeats

private theorem repeats_float (x : Binary64) : Repeats s (token (Writer.float x)) := by
  rw [Writer.float]
  by_cases hx : x.isFinite = true
  · rw [if_pos hx]
    exact repeats_value x.display
  · rw [if_neg hx]
    exact fun _ _ _ _ _ _ h => nomatch h

/-- Without a registry at hand, no part of a value is written in another way than by its shape. -/
private theorem repeats_assembles :
    Assembles none (fun _ => True) (Repeats s) (RepeatsParts .array s) (RepeatsParts entries s) where
  part _ _ := trivial
  null := repeats_value _
  bool _ := repeats_value _
  int _ := repeats_value _
  float := repeats_float
  string _ := repeats_value _
  number _ _ := repeats_value _
  typed := nofun
  refused _ _ := repeats_throw _
  refusedEntry _ _ := repeatsParts_throw _
  noItems := repeatsParts_nil
  item := Repeats.item
  items := .append
  array := RepeatsParts.array
  noEntries := repeatsParts_nil
  entry := Repeats.entry
  entries := .append
  object := RepeatsParts.object

/-- A codec repeats itself if the bindings do. -/
theorem repeats_codec {call : Nat → Option Value → WriteM Unit} (hcall : ∀ i v, Repeats s (call i v)) (c : Codec)
    (v : Option Value) : Repeats s (c.writeWith call none v) := by
  cases v with
  | none => exact repeats_assembles.codec_none c fun i _ => hcall i none
  | some v => exact repeats_assembles.codec c (fun i _ => hcall i none) (fun i u _ => hcall i (some u)) trivial

end WriteM

end Marshal
