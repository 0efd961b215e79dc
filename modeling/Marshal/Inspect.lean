import Marshal.Registry.Basic
import Marshal.Text.Hidden

/-!
# Pictures

One-line pictures of types, codecs, converters and registries, for diagnosis.  A picture names the parts of what it
shows; texts stand in quotes, and hidden characters are shown by number.
-/

namespace Marshal.Inspect

/-! ### Texts -/

def escape (c : Char) : String :=
  if c = '"' then "\\\""
  else if c = '\\' then "\\\\"
  else if c = '\n' then "\\n"
  else if c = '\r' then "\\r"
  else if c = '\t' then "\\t"
  else if c = '\x00' then "\\0"
  else if Text.isHidden c then "\\u\x7b" ++ String.ofList (Nat.toDigits 16 c.toNat) ++ "\x7d"
  else String.singleton c

def text (s : String) : String := "\"" ++ String.join (s.toList.map escape) ++ "\""

/-! ### Composition -/

def list (items : List String) : String := "[" ++ ", ".intercalate items ++ "]"

def record (name : String) (fields : List (String × String)) : String :=
  name ++ " \x7b " ++ ", ".intercalate (fields.map fun (n, v) => n ++ ": " ++ v) ++ " \x7d"

def call (name argument : String) : String := name ++ "(" ++ argument ++ ")"

def flag (b : Bool) : String := if b then "true" else "false"

/-! ### Types and codecs -/

mutual

def type : TypeRef → String
  | .named path args => record "Named" [("path", text path), ("args", list (types args))]
  | .array element => call "Array" (type element)
  | .var name => call "Var" (text name)

def types : List TypeRef → List String
  | [] => []
  | t :: ts => type t :: types ts

end

def codec : Codec → String
  | .native kind => call "Native" kind.label
  | .binding index => call "Binding" (toString index)
  | .dynamic => "Dynamic"
  | .runtimeType declared => record "RuntimeType" [("declared", codec declared)]
  | .sequence element i => record "Sequence" [("element", codec element), ("instantiator", i.label)]
  | .objectMap key value i =>
    record "ObjectMap" [("key", key.label), ("value", codec value), ("instantiator", i.label)]
  | .pairMap key value i => record "PairMap" [("key", codec key), ("value", codec value), ("instantiator", i.label)]
  | .attached index nullSafe => record "Attached" [("binding", toString index), ("null_safe", flag nullSafe)]
  | .split write read => record "Split" [("write", codec write), ("read", codec read)]

/-! ### Converters and registries -/

def codecConverter (c : Codec) (bindings : Nat) : String :=
  record "CodecConverter" [("codec", codec c), ("bindings", toString bindings)]

def placeholder (ty : TypeRef) (bound : Bool) : String :=
  record "PlaceholderConverter" [("ty", type ty), ("bound", flag bound)]

def adapterModule (m : AdapterModule) : String :=
  record "InterpretedModule"
    [("name", text m.name), ("adapters", toString m.adapters.length), ("required", list (types m.required))]

def context (c : Context) : String :=
  record "ResolutionContext"
    [("trace", list (types c.trace)), ("pending", list (types c.finished)), ("constructed", toString c.constructed)]

def registry (reg : Registry) (s : Store) : String :=
  record "AdapterRegistry" [("chain", list (reg.names.map text)), ("cached", toString s.cache.length)]

def handle (s : Store) : String := record "WeakRegistry" [("alive", flag s.alive)]

end Marshal.Inspect
