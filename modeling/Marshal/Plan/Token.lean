import Marshal.TypeRef.Basic

/-!
# Type tokens

A token describes a type relative to the parameters of the declaration that mentions it: variables have become
positions.  `TypeToken.ofType` builds the token of a type, and `TypeToken.resolve` gives back the type for actual
arguments; together they do what substitution does.
-/

namespace Marshal

inductive TypeToken where
  /-- A concrete type, used as it is. -/
  | «class» (ty : TypeRef)
  /-- The argument at a position. -/
  | param (index : Nat)
  | array (element : TypeToken)
  | parameterized (raw : String) (args : List TypeToken)
deriving Repr, Inhabited

namespace TypeToken

mutual

def decEq : (a b : TypeToken) → Decidable (a = b)
  | .class a, .class b => if e : a = b then .isTrue (by rw [e]) else .isFalse (by simp [e])
  | .param a, .param b => if e : a = b then .isTrue (by rw [e]) else .isFalse (by simp [e])
  | .array a, .array b =>
    match decEq a b with
    | .isTrue h => .isTrue (by rw [h])
    | .isFalse h => .isFalse (by simp [h])
  | .parameterized p as, .parameterized q bs =>
    match decEq' as bs with
    | .isTrue h => if e : p = q then .isTrue (by rw [h, e]) else .isFalse (by simp [e])
    | .isFalse h => .isFalse (by simp [h])
  | .class _, .param _ | .class _, .array _ | .class _, .parameterized .. => .isFalse nofun
  | .param _, .class _ | .param _, .array _ | .param _, .parameterized .. => .isFalse nofun
  | .array _, .class _ | .array _, .param _ | .array _, .parameterized .. => .isFalse nofun
  | .parameterized .., .class _ | .parameterized .., .param _ | .parameterized .., .array _ => .isFalse nofun

def decEq' : (as bs : List TypeToken) → Decidable (as = bs)
  | [], [] => .isTrue rfl
  | a :: as, b :: bs =>
    match decEq a b, decEq' as bs with
    | .isTrue h, .isTrue h' => .isTrue (by rw [h, h'])
    | .isFalse h, _ => .isFalse (by simp [h])
    | _, .isFalse h => .isFalse (by simp [h])
  | [], _ :: _ | _ :: _, [] => .isFalse nofun

end

instance : DecidableEq TypeToken := decEq

mutual

/-- The type a token denotes for the given arguments; a missing one is the dynamic type. -/
def resolve (args : List TypeRef) : TypeToken → TypeRef
  | .class ty => ty
  | .param i => TypeRef.argOrAny args i
  | .array element => .array (element.resolve args)
  | .parameterized raw inner => .named raw (resolveList args inner)

def resolveList (args : List TypeRef) : List TypeToken → List TypeRef
  | [] => []
  | t :: ts => t.resolve args :: resolveList args ts

end

mutual

/-- The token of a type that may mention `params`, or the first variable that is not one of them. -/
def ofType (params : List String) : TypeRef → Except String TypeToken
  | .var name =>
    match TypeRef.paramIndex? params name with
    | some i => .ok (.param i)
    | none => .error name
  | .array element =>
    if element.isConcrete then .ok (.class (.array element))
    else (ofType params element).map .array
  | .named path args =>
    if TypeRef.areConcrete args then .ok (.class (.named path args))
    else (ofTypes params args).map (.parameterized path)

def ofTypes (params : List String) : List TypeRef → Except String (List TypeToken)
  | [] => .ok []
  | t :: ts => do
    let token ← ofType params t
    let tokens ← ofTypes params ts
    .ok (token :: tokens)

end

end TypeToken

end Marshal
