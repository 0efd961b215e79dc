import Marshal.Known.Shape
import Marshal.Plan.Token

/-!
# Codecs and bindings

A codec says how one value is encoded, container by container.  Its leaves are native values, values of any shape, and
delegations to the bindings of the adapter it belongs to; a binding names the source of a converter.
-/

namespace Marshal

/-! ### Bindings -/

/-- Where a bound converter comes from when an adapter is constructed. -/
inductive BindingSource where
  /-- The built-in converter of a native kind. -/
  | known (kind : NativeKind) (converter : String)
  /-- The registry's converter for exactly the bound type. -/
  | registry (getter : String)
  /-- The converter for the argument at a position. -/
  | param (index : Nat)
  /-- The converter for the type a token denotes. -/
  | discover (token : TypeToken)
  /-- The converter attached under a path. -/
  | attached (path : String)
deriving Repr, DecidableEq, Inhabited

def BindingSource.isAttached : BindingSource → Bool
  | .attached _ => true
  | _ => false

def BindingSource.isRegistry : BindingSource → Bool
  | .registry _ => true
  | _ => false

def BindingSource.isDiscover : BindingSource → Bool
  | .discover _ => true
  | _ => false

/-- A converter that an adapter holds, and the declared type that it converts. -/
structure Binding where
  name : String
  ty : TypeRef
  source : BindingSource
deriving Repr, DecidableEq, Inhabited

/-! ### Codecs -/

inductive Codec where
  | native (kind : NativeKind)
  /-- Hands the value to a binding. -/
  | binding (index : Nat)
  /-- A value of any shape. -/
  | dynamic
  /-- Writes with the converter of the value's own type and reads as declared. -/
  | runtimeType (declared : Codec)
  /-- An array of the elements. -/
  | sequence (element : Codec) (instantiator : Instantiator)
  /-- An object whose names are the texts of the keys. -/
  | objectMap (key : NativeKind) (value : Codec) (instantiator : Instantiator)
  /-- An array of pairs of key and value. -/
  | pairMap (key value : Codec) (instantiator : Instantiator)
  /-- An attached converter; unless it is null-safe it also handles absent values and null tokens. -/
  | attached (binding : Nat) (nullSafe : Bool)
  /-- A codec for each direction. -/
  | split (write read : Codec)
deriving Repr, DecidableEq, Inhabited

namespace Codec

/-- The tokens that a field with this codec accepts; none listed means that any value reaches the codec. -/
def acceptedTokens : Codec → List TokenKind
  | native kind => kind.acceptedTokens
  | sequence .. => [.beginArray]
  | objectMap .. | pairMap .. => [.beginObject, .beginArray]
  | runtimeType declared => declared.acceptedTokens
  | split _ read => read.acceptedTokens
  | binding _ | dynamic | attached .. => []

/-- Whether an absent field is handed to the codec instead of being left out. -/
def writesNull : Codec → Bool
  | attached _ nullSafe => !nullSafe
  | split write _ => write.writesNull
  | _ => false

/-- Whether a null token is handed to the codec instead of clearing the field. -/
def readsNull : Codec → Bool
  | attached _ nullSafe => !nullSafe
  | split _ read => read.readsNull
  | _ => false

/-- Whether a test holds of the codec or of one inside it. -/
def any (p : Codec → Bool) (c : Codec) : Bool :=
  p c ||
    match c with
    | runtimeType declared => declared.any p
    | sequence element _ => element.any p
    | objectMap _ value _ => value.any p
    | pairMap key value _ => key.any p || value.any p
    | split write read => write.any p || read.any p
    | native _ | binding _ | dynamic | attached .. => false

def isRuntimeType : Codec → Bool
  | runtimeType _ => true
  | _ => false

def isDynamic : Codec → Bool
  | dynamic => true
  | _ => false

end Codec

end Marshal
