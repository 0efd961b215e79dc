import Marshal.Proofs.Stream.Dialect

/-!
# The grammar of documents

A document as a tree, and the texts that spell it in a dialect: any blanks between the tokens, any spelling of each
string and number.
-/

namespace Marshal

/-- What a document says; a number is kept as it is spelled. -/
inductive Document where
  | null
  | bool (b : Bool)
  | string (s : String)
  | number (lexeme : String)
  | array (items : List Document)
  | object (entries : List (String × Document))

namespace Document

mutual

/-- The number of containers that are nested in each other. -/
def depth : Document → Nat
  | null | bool _ | string _ | number _ => 0
  | array items => itemsDepth items + 1
  | object entries => entriesDepth entries + 1

def itemsDepth : List Document → Nat
  | [] => 0
  | j :: js => max j.depth (itemsDepth js)

def entriesDepth : List (String × Document) → Nat
  | [] => 0
  | (_, j) :: es => max j.depth (entriesDepth es)

end

/-- The token that a value begins with. -/
def kind : Document → TokenKind
  | null => .null
  | bool _ => .boolean
  | string _ => .string
  | number _ => .number
  | array _ => .beginArray
  | object _ => .beginObject

/-- What is spelled in one piece: a value, or the rest of a container, up to its closing bracket.  The rest begins
behind the opening bracket (`first`) or behind an element. -/
inductive Part where
  | value (j : Document)
  | items (first : Bool) (js : List Document)
  | entries (first : Bool) (es : List (String × Document))

end Document

namespace Dialect

open Document (Part)

variable (d : Dialect)

/-- What stands in front of an element: blanks, with a comma among them behind another element. -/
inductive Separates : Bool → List Char → Prop
  | first {b : List Char} (hb : d.Blank b) : Separates true b
  | next {b b' : List Char} (hb : d.Blank b) (hb' : d.Blank b') : Separates false (b ++ ',' :: b')

inductive Spells : Part → List Char → Prop
  | null : Spells (.value .null) ['n', 'u', 'l', 'l']
  | true : Spells (.value (.bool true)) ['t', 'r', 'u', 'e']
  | false : Spells (.value (.bool false)) ['f', 'a', 'l', 's', 'e']
  | string {s : String} {t : List Char} (h : d.SpellsText s.toList t) : Spells (.value (.string s))
      ('"' :: (t ++ ['"']))
  | number {lexeme : String} (h : d.IsLexeme lexeme.toList) : Spells (.value (.number lexeme)) lexeme.toList
  | array {js : List Document} {s : List Char} (h : Spells (.items Bool.true js) s) :
      Spells (.value (.array js)) ('[' :: s)
  | object {es : List (String × Document)} {s : List Char} (h : Spells (.entries Bool.true es) s) :
    Spells (.value (.object es)) ('\x7b' :: s)
  | endArray (first : Bool) {b : List Char} (hb : d.Blank b) : Spells (.items first []) (b ++ [']'])
  | item {first : Bool} {g s t : List Char} {j : Document} {js : List Document} (hg : d.Separates first g)
    (hj : Spells (.value j) s) (hjs : Spells (.items Bool.false js) t) :
    Spells (.items first (j :: js)) (g ++ (s ++ t))
  | endObject (first : Bool) {b : List Char} (hb : d.Blank b) : Spells (.entries first []) (b ++ ['\x7d'])
  | entry {first : Bool} {g n b b' s t : List Char} {name : String} {j : Document} {es : List (String × Document)}
    (hg : d.Separates first g) (hname : d.SpellsText name.toList n) (hb : d.Blank b) (hb' : d.Blank b')
    (hj : Spells (.value j) s) (hes : Spells (.entries Bool.false es) t) :
    Spells (.entries first ((name, j) :: es)) (g ++ ('"' :: (n ++ '"' :: (b ++ ':' :: (b' ++ (s ++ t))))))

/-- A whole document: a value between blanks. -/
inductive SpellsDocument (j : Document) : List Char → Prop
  | mk {b s b' : List Char} (hb : d.Blank b) (hj : d.Spells (.value j) s) (hb' : d.Blank b') :
    SpellsDocument j (b ++ (s ++ b'))

end Dialect

end Marshal
