import Marshal.Text.Quoted

/-!
# Writing tokens

A writer appends tokens to a compact document.  A token that does not fit where it is asked for is refused, and then
the writer is left as it was.
-/

namespace Marshal

open Text (Cursor quote unquote)

/-- What has been written into an open container. -/
inductive WriteScope where
  | array (empty : Bool)
  /-- `dangling` says that a name waits for its value. -/
  | object (empty dangling : Bool)
deriving Repr, DecidableEq, Inhabited

structure Writer where
  out : String
  /-- Whether the value of the document has begun. -/
  started : Bool
  /-- The open containers, innermost first. -/
  scopes : List WriteScope
deriving Repr, DecidableEq, Inhabited

abbrev TokenM := EStateM Error Writer

namespace Writer

def empty : Writer := ⟨"", false, []⟩

def emit (text : String) (w : Writer) : Writer := { w with out := w.out ++ text }

def misuse {α : Type} (fault : WriterFault) : TokenM α := throw (.writerMisuse fault)

/-- The document, once exactly one value has been written in full. -/
def finish (w : Writer) : Except Error String :=
  if !w.scopes.isEmpty then .error (.writerMisuse .unclosed)
  else if w.started then .ok w.out
  else .error (.writerMisuse .nothingWritten)

/-! ### Values -/

/-- The writer with the comma that a value needs before it, if a value may stand here. -/
def separate (w : Writer) : Except WriterFault Writer :=
  match w.scopes with
  | [] => if w.started then .error .secondValue else .ok { w with started := true }
  | .array isFirst :: outer =>
    .ok { w with out := if isFirst then w.out else w.out ++ ",", scopes := .array false :: outer }
  | .object isFirst dangling :: outer =>
    if dangling then .ok { w with scopes := .object isFirst false :: outer } else .error .valueWithoutName

/-- Writes the text of a whole value, or the bracket that opens one. -/
def value (text : String) : TokenM Unit := do
  match (← get).separate with
  | .ok w => set (w.emit text)
  | .error fault => misuse fault

def null : TokenM Unit := value "null"

def bool (b : Bool) : TokenM Unit := value (if b then "true" else "false")

def string (s : String) : TokenM Unit := value (String.ofList (quote s.toList))

/-- Writes a number as the caller spells it. -/
def number (lexeme : String) : TokenM Unit := value lexeme

def int (n : Int64) : TokenM Unit := number (toString n.toInt)

def float (x : Binary64) : TokenM Unit :=
  if x.isFinite then number x.display else throw (.nonFinite x)

/-! ### Containers -/

def push (scope : WriteScope) : TokenM Unit := modify fun w => { w with scopes := scope :: w.scopes }

def beginObject : TokenM Unit := do
  value "\x7b"
  push (.object true false)

def beginArray : TokenM Unit := do
  value "["
  push (.array true)

def endObject : TokenM Unit := do
  let w ← get
  match w.scopes with
  | .object _ false :: outer => set { w.emit "\x7d" with scopes := outer }
  | _ => misuse .mismatchedClose

def endArray : TokenM Unit := do
  let w ← get
  match w.scopes with
  | .array _ :: outer => set { w.emit "]" with scopes := outer }
  | _ => misuse .mismatchedClose

/-- Writes the name of an entry; its value comes next. -/
def name (s : String) : TokenM Unit := do
  let w ← get
  match w.scopes with
  | .object isFirst false :: outer =>
    let entry := String.ofList (quote s.toList) ++ ":"
    set { w.emit (if isFirst then entry else "," ++ entry) with scopes := .object false true :: outer }
  | .object _ true :: _ => misuse .secondName
  | _ => misuse .nameOutsideObject

end Writer

end Marshal
