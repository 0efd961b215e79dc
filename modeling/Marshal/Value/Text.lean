import Marshal.Number.Shortest
import Marshal.Text.Quoted
import Marshal.Value.Basic

/-!
# Texts of values

`Value.display` renders any value compactly; two keys of a map are the same key if they render alike.
`Value.keyText?` is the name that a value has as the key of an object, where it has one.
-/

namespace Marshal.Value

def quoted (s : String) : String := String.ofList (Text.quote s.toList)

mutual

/-- The compact text of a value.  A map is an array of pairs, and an object shows all its fields. -/
def display : Value → String
  | null => "null"
  | bool b => if b then "true" else "false"
  | int n => toString n.toInt
  | float x => x.display
  | bigInt lexeme | decimal lexeme | number lexeme => lexeme
  | char c => quoted (String.singleton c)
  | str s => quoted s
  | path p => quoted p.text
  | ip a => quoted a.text
  | enum _ constant => quoted constant
  | list items => "[" ++ displayItems items ++ "]"
  | map entries => "[" ++ displayEntries entries ++ "]"
  | object _ fields => "\x7b" ++ displayFields fields ++ "\x7d"

def displayItems : List Value → String
  | [] => ""
  | [v] => v.display
  | v :: vs => v.display ++ "," ++ displayItems vs

def displayEntries : List (Value × Value) → String
  | [] => ""
  | [(k, v)] => "[" ++ k.display ++ "," ++ v.display ++ "]"
  | (k, v) :: es => "[" ++ k.display ++ "," ++ v.display ++ "]," ++ displayEntries es

def displayFields : List (String × Value) → String
  | [] => ""
  | [(name, v)] => quoted name ++ ":" ++ v.display
  | (name, v) :: fs => quoted name ++ ":" ++ v.display ++ "," ++ displayFields fs

end

/-- The name of a value as the key of an object. -/
def keyText? : Value → Option String
  | bool b => some (if b then "true" else "false")
  | int n => some (toString n.toInt)
  | float x => some x.display
  | char c => some (String.singleton c)
  | str s => some s
  | path p => some p.text
  | bigInt lexeme | decimal lexeme | number lexeme => some lexeme
  | ip a => some a.text
  | enum _ constant => some constant
  | null | list _ | map _ | object .. => none

end Marshal.Value
