import Marshal.Model.Error

/-!
# Stored forms

Models, codecs and generated modules are stored as trees of texts, numbers, lists and records.  A record names its
entries, and a record that stands for a value of its own may also be given as the list of them in their usual order.
A choice between alternatives is a text, for an alternative that carries nothing, or a record whose only entry is
named for the alternative.

Of several faults the first counts.  The entries of a record are decoded in the order of their names, those of a list
as they stand, and only then is it noticed that an entry is missing or that there are too many.
-/

namespace Marshal

inductive Form where
  | null
  | flag (value : Bool)
  | nat (value : Nat)
  /-- A number that is not natural; nothing that is stored needs one. -/
  | otherNumber
  | text (value : String)
  | list (items : List Form)
  | record (entries : List (String × Form))
deriving Repr, Inhabited

/-- Why a form does not decode: it is not of the expected shape, or what it describes is no model. -/
inductive FormError where
  | shape
  | model (e : ModelError)
deriving Repr, DecidableEq

namespace Form

abbrev Decoder (α : Type) := Form → Except FormError α

/-! ### Leaves -/

def asText : Decoder String
  | text s => .ok s
  | _ => .error .shape

def asFlag : Decoder Bool
  | flag b => .ok b
  | _ => .error .shape

/-- A count or a position. -/
def asNat : Decoder Nat
  | nat n => .ok n
  | _ => .error .shape

def asType : Decoder TypeRef
  | text s => (TypeRef.parse s).mapError fun e => .model (.invalidType e)
  | _ => .error .shape

def ofType (t : TypeRef) : Form := text t.marked

/-- A value that may be missing. -/
def asOption {α : Type} (decode : Decoder α) : Decoder (Option α)
  | null => .ok none
  | f => (decode f).map some

def asList {α : Type} (decode : Decoder α) : Decoder (List α)
  | list items => items.mapM decode
  | _ => .error .shape

/-! ### Records -/

/-- The entry of a name, decoded, if there is one. -/
def entry? {α : Type} (entries : List (String × Form)) (name : String) (decode : Decoder α) :
    Except FormError (Option α) :=
  match entries.lookup name with
  | some f => (decode f).map some
  | none => .ok none

/-- An entry that must be there. -/
def needed {α : Type} : Option α → Except FormError α
  | some a => .ok a
  | none => .error .shape

end Form

/-- The entries that do not decode, in their usual order.  An entry that is missing is not among them. -/
abbrev EntryFaults := List (String × FormError)

namespace EntryFaults

/-- The fault of the entry that stands first. -/
def first : EntryFaults → FormError
  | [] => .shape
  | (_, e) :: _ => e

/-- The fault of the entry with the least name. -/
def leastNamed : EntryFaults → FormError
  | [] => .shape
  | w :: ws => (ws.foldl (fun v w => if w.1 < v.1 then w else v) w).2

end EntryFaults

/-- A way to decode the entries of a record: their names in the usual order, and what they make together. -/
structure RecordDecoder (α : Type) where
  names : List String
  decode : (String → Option Form) → Except EntryFaults α

namespace RecordDecoder

/-- An entry that must be there. -/
def needs {α : Type} (name : String) (decode : Form.Decoder α) : RecordDecoder α where
  names := [name]
  decode entry? :=
    match entry? name with
    | some f => (decode f).mapError fun e => [(name, e)]
    | none => .error []

/-- An entry that may be left out. -/
def mayHave {α : Type} (name : String) (decode : Form.Decoder α) (standard : α) : RecordDecoder α where
  names := [name]
  decode entry? :=
    match entry? name with
    | some f => (decode f).mapError fun e => [(name, e)]
    | none => .ok standard

/-- All entries are decoded, whether or not one of them fails. -/
def seq {α β : Type} (d : RecordDecoder (α → β)) (e : RecordDecoder α) : RecordDecoder β where
  names := d.names ++ e.names
  decode entry? :=
    match d.decode entry?, e.decode entry? with
    | .ok f, .ok a => .ok (f a)
    | .ok _, .error ws | .error ws, .ok _ => .error ws
    | .error vs, .error ws => .error (vs ++ ws)

instance : Applicative RecordDecoder where
  pure a := ⟨[], fun _ => .ok a⟩
  seq d e := d.seq (e ())

end RecordDecoder

namespace Form

/-- A record that names its entries. -/
def asNamed {α : Type} (d : RecordDecoder α) : Decoder α
  | record entries => (d.decode fun name => entries.lookup name).mapError EntryFaults.leastNamed
  | _ => .error .shape

/-- A record, or the list of its entries. -/
def asRecord {α : Type} (d : RecordDecoder α) : Decoder α
  | list items => do
    let a ← (d.decode fun name => (d.names.zip items).lookup name).mapError EntryFaults.first
    if items.length ≤ d.names.length then .ok a else .error .shape
  | f => asNamed d f

/-! ### Alternatives -/

/-- The name of an alternative, and what it carries. -/
def asVariant : Decoder (String × Option Form)
  | text tag => .ok (tag, none)
  | record [(tag, body)] => .ok (tag, some body)
  | _ => .error .shape

/-- Whether an alternative carries nothing. -/
def isBare : Option Form → Bool
  | none | some null => true
  | some _ => false

/-- An alternative that carries nothing, found by its name. -/
def asLabel {α : Type} (find? : String → Option α) : Decoder α := fun f => do
  let (tag, body) ← asVariant f
  match find? tag with
  | some a => if isBare body then .ok a else .error .shape
  | none => .error .shape

/-- An alternative with its content. -/
def variant (tag : String) (body : Form) : Form := record [(tag, body)]

end Form

end Marshal
