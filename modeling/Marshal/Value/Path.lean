import Marshal.Text.Utf8

/-!
# Paths

A path is any bytes, of which slashes cut names.  Most are the bytes of a text, but a path need not be: `Path.text`
shows any path, and tells only those that are.  Paths are equal if they lead the same way (`Path.same`): a slash more,
or a dot between slashes, makes no difference.
-/

namespace Marshal

structure Path where
  bytes : List UInt8
deriving Repr, DecidableEq, Inhabited

namespace Path

def ofText (s : String) : Path := ⟨Text.bytes s.toList⟩

/-- The text that a path shows, with the replacement character for what is no text. -/
def text (p : Path) : String := String.ofList (Text.decodeLossy p.bytes)

/-- A text stands for the path with its bytes. -/
instance : Coe String Path := ⟨ofText⟩

/-- Where a text is called for, a path stands for the text that it shows. -/
instance : CoeOut Path String := ⟨text⟩

theorem text_ofText (s : String) : (ofText s).text = s := by
  rw [text, ofText, Text.decodeLossy_bytes, String.ofList_toList]

/-- The path is the bytes of a text. -/
def IsText (p : Path) : Prop := p = ofText p.text

theorem isText_ofText (s : String) : (ofText s).IsText := by rw [IsText, text_ofText]

/-! ### Equality -/

/-- The names between the slashes, with empty ones. -/
def names : List UInt8 → List (List UInt8)
  | [] => [[]]
  | b :: bs =>
    if b = 0x2F then [] :: names bs
    else
      match names bs with
      | [] => [[b]]
      | name :: rest => (b :: name) :: rest

/-- Whether a path begins at the root, and the names on the way.  Empty names and dots are left out, but for a dot at
the beginning. -/
def components (p : Path) : Bool × List (List UInt8) :=
  let all := names p.bytes
  let kept := all.filter fun name => name ≠ [] && name ≠ [0x2E]
  (p.bytes.head? = some 0x2F, if all.head? = some [0x2E] then [0x2E] :: kept else kept)

def same (p q : Path) : Bool := p.components = q.components

end Path

end Marshal
