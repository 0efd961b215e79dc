import Marshal.Text.Blank
import Marshal.TypeRef.Basic

/-!
# The text of a type reference

A named type is written `demo::Box<i32, [u8]>` and an array `[u8]`.  There are two forms of a variable: the plain form
`T`, which reads back only where the parameters in scope are known, and the marked form `$T`, which always reads
back.  `TypeRef.parse` reads both; blanks may stand between the parts of a type, but not inside a path.
-/

namespace Marshal.TypeRef

open Text (isAsciiBlank utf8Size)

/-! ### Writing -/

mutual

/-- The text of a reference, with variables marked by `$` if `marked` holds. -/
def text (marked : Bool) : TypeRef → String
  | named path [] => path
  | named path (t :: ts) => path ++ "<" ++ t.text marked ++ textTail marked ts ++ ">"
  | array element => "[" ++ element.text marked ++ "]"
  | var name => if marked then "$" ++ name else name

/-- The text of the arguments after the first one. -/
def textTail (marked : Bool) : List TypeRef → String
  | [] => ""
  | t :: ts => ", " ++ t.text marked ++ textTail marked ts

end

/-- The text with plain variables, for messages. -/
def plain (t : TypeRef) : String := t.text false

/-- The text with marked variables, which reads back into the same reference. -/
def marked (t : TypeRef) : String := t.text true

/-! ### Reading -/

/-- Why a text is no type. -/
inductive Reason where
  | trailingCharacters
  | qualifiedVariable
  | expectedBracket
  | expectedCommaOrAngle
  | expectedIdentifier
deriving Repr, DecidableEq

def Reason.message : Reason → String
  | .trailingCharacters => "trailing characters"
  | .qualifiedVariable => "type variables are single identifiers"
  | .expectedBracket => "expected `]`"
  | .expectedCommaOrAngle => "expected `,` or `>`"
  | .expectedIdentifier => "expected identifier"

/-- Where reading a type stopped: the reason and the text that was left. -/
structure Stop where
  reason : Reason
  rest : List Char
deriving Repr, DecidableEq

/-- A text that is no type: what is wrong, and the byte offset at which it was noticed. -/
structure Malformed where
  text : String
  offset : Nat
  reason : Reason
deriving Repr, DecidableEq

def Malformed.message (e : Malformed) : String :=
  "invalid type `" ++ e.text ++ "` at offset " ++ toString e.offset ++ ": " ++ e.reason.message

/-- ASCII letters, digits and the underscore. -/
def isIdentChar (c : Char) : Bool := c.isAlphanum || c = '_'

def skipBlanks (s : List Char) : List Char := s.dropWhile isAsciiBlank

/-- Reads the rest of a path: identifiers joined by `::`.  `fresh` says that the current identifier is still empty. -/
def readPath (fresh : Bool) : List Char → Except Stop (List Char × List Char)
  | ':' :: ':' :: s =>
    if fresh then .error ⟨.expectedIdentifier, ':' :: ':' :: s⟩
    else (readPath true s).map fun r => (':' :: ':' :: r.1, r.2)
  | c :: s =>
    if isIdentChar c then (readPath false s).map fun r => (c :: r.1, r.2)
    else if fresh then .error ⟨.expectedIdentifier, c :: s⟩
    else .ok ([], c :: s)
  | [] => if fresh then .error ⟨.expectedIdentifier, []⟩ else .ok ([], [])

mutual

/-- Reads one type off the front of a text.  Each level of `fuel` pays for a character of the text, so fuel beyond
the length of the text is never used up. -/
def readType : (fuel : Nat) → List Char → Except Stop (TypeRef × List Char)
  | 0, s => .error ⟨.expectedIdentifier, s⟩
  | fuel + 1, s =>
    match skipBlanks s with
    | '$' :: s => do
      let (name, s) ← readPath true (skipBlanks s)
      if name.contains ':' then .error ⟨.qualifiedVariable, s⟩ else .ok (var (String.ofList name), s)
    | '[' :: s => do
      let (element, s) ← readType fuel s
      match skipBlanks s with
      | ']' :: s => .ok (array element, s)
      | s => .error ⟨.expectedBracket, s⟩
    | s => do
      let (path, s) ← readPath true s
      match skipBlanks s with
      | '<' :: s => do
        let (args, s) ← readArgs fuel s
        .ok (named (String.ofList path) args, s)
      | s => .ok (named (String.ofList path) [], s)

/-- Reads the arguments of a type up to the closing `>`; there is at least one. -/
def readArgs : (fuel : Nat) → List Char → Except Stop (List TypeRef × List Char)
  | 0, s => .error ⟨.expectedIdentifier, s⟩
  | fuel + 1, s => do
    let (t, s) ← readType fuel s
    match skipBlanks s with
    | ',' :: s => do
      let (ts, s) ← readArgs fuel s
      .ok (t :: ts, s)
    | '>' :: s => .ok ([t], s)
    | s => .error ⟨.expectedCommaOrAngle, s⟩

end

/-- Reads a whole text as one type. -/
def readAll (s : List Char) : Except Stop TypeRef := do
  let (t, s) ← readType (s.length + 1) s
  match skipBlanks s with
  | [] => .ok t
  | s => .error ⟨.trailingCharacters, s⟩

/-- The type a text denotes, with no parameters in scope. -/
def parse (text : String) : Except Malformed TypeRef :=
  (readAll text.toList).mapError fun e => ⟨text, utf8Size text.toList - utf8Size e.rest, e.reason⟩

/-- The type a text denotes, where bare names listed in `params` are variables. -/
def parseIn (params : List String) (text : String) : Except Malformed TypeRef :=
  (parse text).map (bindParams params)

end Marshal.TypeRef
