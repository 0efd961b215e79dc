import Marshal.Token
import Marshal.TypeRef.Basic

/-!
# Native kinds

The types with a built-in converter.  Some of them are inline: a generated adapter reads and writes them itself.  The
others are bound by a generated adapter to their built-in converter.
-/

namespace Marshal

inductive NativeKind where
  | bool
  | i8
  | i16
  | i32
  | i64
  | f32
  | f64
  | char
  | string
  | bigInt
  | bigDecimal
  | number
  | path
  | ipAddr
  | json
deriving Repr, DecidableEq, Inhabited

namespace NativeKind

def all : List NativeKind :=
  [bool, i8, i16, i32, i64, f32, f64, char, string, bigInt, bigDecimal, number, path, ipAddr, json]

/-- The spelling in stored adapters. -/
def label : NativeKind → String
  | bool => "Bool"
  | i8 => "I8"
  | i16 => "I16"
  | i32 => "I32"
  | i64 => "I64"
  | f32 => "F32"
  | f64 => "F64"
  | char => "Char"
  | string => "String"
  | bigInt => "BigInt"
  | bigDecimal => "BigDecimal"
  | number => "Number"
  | path => "Path"
  | ipAddr => "IpAddr"
  | json => "Json"

def ofLabel? (s : String) : Option NativeKind := all.find? (·.label == s)

/-- The path of the type a kind stands for. -/
def typePath : NativeKind → String
  | bool => "bool"
  | i8 => "i8"
  | i16 => "i16"
  | i32 => "i32"
  | i64 => "i64"
  | f32 => "f32"
  | f64 => "f64"
  | char => "char"
  | string => "String"
  | bigInt => "BigInt"
  | bigDecimal => "BigDecimal"
  | number => "Number"
  | path => "PathBuf"
  | ipAddr => "IpAddr"
  | json => "Json"

def typeRef (k : NativeKind) : TypeRef := .named k.typePath []

/-- The kinds that a generated adapter handles without a binding. -/
def isInline : NativeKind → Bool
  | bool | i32 | i64 | f32 | f64 | string | number => true
  | _ => false

/-- The name under which a generated adapter refers to the built-in converter. -/
def converterPath (k : NativeKind) : String :=
  "stitch_runtime::known::" ++
    match k with
    | bool => "BOOL"
    | i8 => "I8"
    | i16 => "I16"
    | i32 => "I32"
    | i64 => "I64"
    | f32 => "F32"
    | f64 => "F64"
    | char => "CHAR"
    | string => "STRING"
    | bigInt => "BIG_INT"
    | bigDecimal => "BIG_DECIMAL"
    | number => "NUMBER"
    | path => "PATH"
    | ipAddr => "IP_ADDR"
    | json => "JSON"

/-- The tokens that a field of this kind accepts; none listed means any.  Numbers and strings stand in for each
other. -/
def acceptedTokens : NativeKind → List TokenKind
  | bool => [.boolean]
  | string | char | path | ipAddr => [.string, .number]
  | i8 | i16 | i32 | i64 | f32 | f64 | bigInt | bigDecimal | number => [.number, .string]
  | json => []

/-- The kinds whose values can be the names of an object. -/
def isKey : NativeKind → Bool
  | json => false
  | _ => true

/-- The kind a path names; text has two paths. -/
def ofPath? (path : String) : Option NativeKind :=
  if path == "str" then some string else all.find? (·.typePath == path)

end NativeKind

/-- The native kind a type stands for: a known path without arguments. -/
def TypeRef.native? : TypeRef → Option NativeKind
  | .named path [] => NativeKind.ofPath? path
  | _ => none

end Marshal
