/-!
# Tokens

The kinds of token a stream of values is made of.  Readers and writers share this vocabulary, and a field lists the
kinds that it accepts.
-/

namespace Marshal

inductive TokenKind where
  | beginObject
  | endObject
  | beginArray
  | endArray
  | name
  | string
  | number
  | boolean
  | null
  | endDocument
deriving Repr, DecidableEq, Inhabited

namespace TokenKind

def all : List TokenKind :=
  [beginObject, endObject, beginArray, endArray, name, string, number, boolean, null, endDocument]

/-- The tokens that begin a value. -/
def startsValue : TokenKind → Bool
  | beginObject | beginArray | string | number | boolean | null => true
  | endObject | endArray | name | endDocument => false

/-- The spelling in messages. -/
def display : TokenKind → String
  | beginObject => "BEGIN_OBJECT"
  | endObject => "END_OBJECT"
  | beginArray => "BEGIN_ARRAY"
  | endArray => "END_ARRAY"
  | name => "NAME"
  | string => "STRING"
  | number => "NUMBER"
  | boolean => "BOOLEAN"
  | null => "NULL"
  | endDocument => "END_DOCUMENT"

/-- The spelling in stored adapters. -/
def label : TokenKind → String
  | beginObject => "BeginObject"
  | endObject => "EndObject"
  | beginArray => "BeginArray"
  | endArray => "EndArray"
  | name => "Name"
  | string => "String"
  | number => "Number"
  | boolean => "Boolean"
  | null => "Null"
  | endDocument => "EndDocument"

def ofLabel? (s : String) : Option TokenKind := all.find? (·.label == s)

end TokenKind

end Marshal
