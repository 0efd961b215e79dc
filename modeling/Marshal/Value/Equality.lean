import Marshal.Value.Basic

/-!
# Equality of values

Values are equal (`==`) if they are of one kind and have equal parts, in the same order.  Numbers are compared as
numbers, and paths by the way they lead, so equal values need not be written alike.
-/

namespace Marshal.Value

mutual

def same : Value → Value → Bool
  | null, w => w.isNull
  | bool b, w => match w with
    | bool b' => b = b'
    | _ => false
  | int n, w => match w with
    | int n' => n = n'
    | _ => false
  | float x, w => match w with
    | float y => x.same y
    | _ => false
  | char c, w => match w with
    | char c' => c = c'
    | _ => false
  | str s, w => match w with
    | str s' => s = s'
    | _ => false
  | bigInt lexeme, w => match w with
    | bigInt lexeme' => lexeme = lexeme'
    | _ => false
  | decimal lexeme, w => match w with
    | decimal lexeme' => lexeme = lexeme'
    | _ => false
  | number lexeme, w => match w with
    | number lexeme' => lexeme = lexeme'
    | _ => false
  | path p, w => match w with
    | path q => p.same q
    | _ => false
  | ip a, w => match w with
    | ip a' => a = a'
    | _ => false
  | list items, w => match w with
    | list items' => sameItems items items'
    | _ => false
  | map entries, w => match w with
    | map entries' => sameEntries entries entries'
    | _ => false
  | object ty fields, w => match w with
    | object ty' fields' => ty = ty' && sameFields fields fields'
    | _ => false
  | enum ty constant, w => match w with
    | enum ty' constant' => ty = ty' && constant = constant'
    | _ => false
termination_by structural v => v

def sameItems : List Value → List Value → Bool
  | [], [] => true
  | v :: vs, w :: ws => v.same w && sameItems vs ws
  | _, _ => false
termination_by structural vs => vs

def sameEntries : List (Value × Value) → List (Value × Value) → Bool
  | [], [] => true
  | (k, v) :: es, (k', v') :: es' => k.same k' && v.same v' && sameEntries es es'
  | _, _ => false
termination_by structural es => es

def sameFields : List (String × Value) → List (String × Value) → Bool
  | [], [] => true
  | (name, v) :: fs, (name', v') :: fs' => name = name' && v.same v' && sameFields fs fs'
  | _, _ => false
termination_by structural fs => fs

end

instance : BEq Value := ⟨same⟩

example : Value.path "a//b/" == .path "a/./b" := by decide

end Marshal.Value
