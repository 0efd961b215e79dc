/-!
# Type references

A type reference is a named type applied to arguments, an array, or a variable that stands for a generic parameter of
the enclosing type.  Equal references denote the same converter, so a reference is the key of every table of
converters.
-/

namespace Marshal

inductive TypeRef where
  | named (path : String) (args : List TypeRef)
  | array (element : TypeRef)
  | var (name : String)
deriving Repr, Inhabited

namespace TypeRef

/-! ### Equality -/

mutual

def decEq : (a b : TypeRef) → Decidable (a = b)
  | named p as, named q bs =>
    match decEq' as bs with
    | .isTrue h => if e : p = q then .isTrue (by rw [h, e]) else .isFalse (by simp [e])
    | .isFalse h => .isFalse (by simp [h])
  | array a, array b =>
    match decEq a b with
    | .isTrue h => .isTrue (by rw [h])
    | .isFalse h => .isFalse (by simp [h])
  | var x, var y => if e : x = y then .isTrue (by rw [e]) else .isFalse (by simp [e])
  | named .., array _ | named .., var _ | array _, named .. | array _, var _ | var _, named .. | var _, array _ =>
    .isFalse nofun

def decEq' : (as bs : List TypeRef) → Decidable (as = bs)
  | [], [] => .isTrue rfl
  | a :: as, b :: bs =>
    match decEq a b, decEq' as bs with
    | .isTrue h, .isTrue h' => .isTrue (by rw [h, h'])
    | .isFalse h, _ => .isFalse (by simp [h])
    | _, .isFalse h => .isFalse (by simp [h])
  | [], _ :: _ | _ :: _, [] => .isFalse nofun

end

instance : DecidableEq TypeRef := decEq

/-! ### Parts -/

/-- The path of the dynamic type, which also stands in for every argument a generic type is used without. -/
def anyPath : String := "stitch::Any"

def any : TypeRef := named anyPath []

/-- The path of a named type. -/
def path? : TypeRef → Option String
  | named path _ => some path
  | _ => none

/-- The arguments of a named type; other references have none. -/
def args : TypeRef → List TypeRef
  | named _ args => args
  | _ => []

def isAny (t : TypeRef) : Bool := t.path? == some anyPath

/-- The argument at a position, the dynamic type where it is missing. -/
def argOrAny (args : List TypeRef) (i : Nat) : TypeRef := args.getD i any

mutual

/-- The variables of a reference, depth first, from left to right, with repetitions. -/
def vars : TypeRef → List String
  | named _ args => varsList args
  | array element => element.vars
  | var name => [name]

def varsList : List TypeRef → List String
  | [] => []
  | t :: ts => t.vars ++ varsList ts

end

mutual

/-- A reference is concrete if no variable occurs in it. -/
def isConcrete : TypeRef → Bool
  | named _ args => areConcrete args
  | array element => element.isConcrete
  | var _ => false

def areConcrete : List TypeRef → Bool
  | [] => true
  | t :: ts => t.isConcrete && areConcrete ts

end

/-! ### Substitution -/

/-- The position of a parameter in a list of parameters. -/
def paramIndex? (params : List String) (name : String) : Option Nat := params.idxOf? name

mutual

/-- Replaces each variable named in `params` by the argument at its position; one without an argument becomes the
dynamic type, and a variable that `params` does not name stays. -/
def substitute (params : List String) (args : List TypeRef) : TypeRef → TypeRef
  | named path inner => named path (substituteList params args inner)
  | array element => array (element.substitute params args)
  | var name =>
    match paramIndex? params name with
    | some i => argOrAny args i
    | none => var name

def substituteList (params : List String) (args : List TypeRef) : List TypeRef → List TypeRef
  | [] => []
  | t :: ts => t.substitute params args :: substituteList params args ts

end

mutual

/-- Turns each bare name that is one of `params` into a variable. -/
def bindParams (params : List String) : TypeRef → TypeRef
  | named path [] => if params.contains path then var path else named path []
  | named path (t :: ts) => named path (t.bindParams params :: bindParamsList params ts)
  | array element => array (element.bindParams params)
  | var name => var name

def bindParamsList (params : List String) : List TypeRef → List TypeRef
  | [] => []
  | t :: ts => t.bindParams params :: bindParamsList params ts

end

/-! ### Order -/

mutual

/-- Named types come before arrays and arrays before variables; paths and names are ordered by code points, and
argument lists lexicographically. -/
def compare : TypeRef → TypeRef → Ordering
  | named p as, named q bs => (Ord.compare p q).then (compareList as bs)
  | named .., _ => .lt
  | array _, named .. => .gt
  | array a, array b => a.compare b
  | array _, var _ => .lt
  | var x, var y => Ord.compare x y
  | var _, _ => .gt

def compareList : List TypeRef → List TypeRef → Ordering
  | [], [] => .eq
  | [], _ :: _ => .lt
  | _ :: _, [] => .gt
  | a :: as, b :: bs => (a.compare b).then (compareList as bs)

end

instance : Ord TypeRef := ⟨compare⟩

/-- The references in ascending order, each once. -/
def sortDedup (ts : List TypeRef) : List TypeRef :=
  (ts.mergeSort fun a b => (a.compare b).isLE).eraseReps

end TypeRef

end Marshal
