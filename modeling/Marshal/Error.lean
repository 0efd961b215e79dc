import Marshal.Number.Shortest
import Marshal.Token
import Marshal.TypeRef.Text

/-!
# Faults of conversion

What can go wrong when a converter is resolved, when a document is read and when one is written.  Most faults concern
only the call that raised them.  `Error.breaksOff` holds of the few that mean a broken invariant or an aborted source:
nothing is tidied up after them.
-/

namespace Marshal

/-- Why a document is not well formed. -/
inductive SyntaxFault where
  | trailingCharacters
  | expectedCommaOrBracket
  | expectedCommaOrBrace
  | expectedName
  | expectedColon
  | unexpectedCharacter
  | unexpectedEnd
  | invalidLiteral
  | unterminatedString
  | invalidEscape
  | truncatedUnicodeEscape
  | invalidUnicodeEscape
  | unpairedSurrogate
  | malformedNumber
  | nestingTooDeep
deriving Repr, DecidableEq

def SyntaxFault.message : SyntaxFault → String
  | trailingCharacters => "trailing characters after document"
  | expectedCommaOrBracket => "expected `,` or `]`"
  | expectedCommaOrBrace => "expected `,` or `\x7d`"
  | expectedName => "expected a quoted name"
  | expectedColon => "expected `:`"
  | unexpectedCharacter => "unexpected character"
  | unexpectedEnd => "unexpected end of input"
  | invalidLiteral => "invalid literal"
  | unterminatedString => "unterminated string"
  | invalidEscape => "invalid escape sequence"
  | truncatedUnicodeEscape => "truncated unicode escape"
  | invalidUnicodeEscape => "invalid unicode escape"
  | unpairedSurrogate => "unpaired surrogate"
  | malformedNumber => "malformed number"
  | nestingTooDeep => "nesting too deep"

/-- Why a token cannot be written where it was asked for. -/
inductive WriterFault where
  | secondValue
  | valueWithoutName
  | mismatchedClose
  | nameOutsideObject
  | secondName
  | nothingWritten
  | unclosed
deriving Repr, DecidableEq

def WriterFault.message : WriterFault → String
  | secondValue => "document already has a value"
  | valueWithoutName => "object value without a name"
  | mismatchedClose => "mismatched close"
  | nameOutsideObject => "name outside of an object"
  | secondName => "two names in a row"
  | nothingWritten => "nothing was written"
  | unclosed => "unclosed object or array"

/-- A broken invariant of the resolver. -/
inductive Violation where
  | doubleBind (ty : TypeRef)
  | unsetDelegate (ty : TypeRef)
  | missingBinding (index held : Nat)
deriving Repr, DecidableEq

def Violation.message : Violation → String
  | doubleBind ty => "placeholder for `" ++ ty.plain ++ "` was bound twice"
  | unsetDelegate ty => "placeholder for `" ++ ty.plain ++ "` was used before it was bound"
  | missingBinding index held =>
    "codec refers to binding " ++ toString index ++ " but the converter holds " ++ toString held

inductive Error where
  /-- No source has a converter for the type; the trace lists the types that were being resolved. -/
  | unsupportedType (ty : TypeRef) (trace : List TypeRef)
  | nonNull (owner field : String)
  | duplicateKey (key : String)
  | malformed (fault : SyntaxFault) (offset : Nat)
  | unexpectedToken (expected : String) (found : TokenKind) (offset : Nat)
  | invalidValue (expected found : String)
  | valueMismatch (expected found : String)
  | nonFinite (value : Binary64)
  | writerMisuse (fault : WriterFault)
  | registryDropped
  | unknownConverter (path : String)
  | violation (violation : Violation)
  /-- A source gave up without an answer. -/
  | aborted (message : String)
  /-- The fuel of the computation was used up. -/
  | outOfFuel
deriving Repr, DecidableEq

namespace Error

/-- The trace of an unsupported type, outermost type first. -/
def traceText (trace : List TypeRef) : String :=
  if trace.isEmpty then "" else " (while resolving " ++ " -> ".intercalate (trace.map TypeRef.plain) ++ ")"

def message : Error → String
  | unsupportedType ty trace => "no converter for `" ++ ty.plain ++ "`" ++ traceText trace
  | nonNull owner field => "field `" ++ owner ++ "." ++ field ++ "` is non-null but absent"
  | duplicateKey key => "duplicate map key `" ++ key ++ "`"
  | malformed fault offset => "syntax error at offset " ++ toString offset ++ ": " ++ fault.message
  | unexpectedToken expected found offset =>
    "expected " ++ expected ++ " but found " ++ found.display ++ " at offset " ++ toString offset
  | invalidValue expected found => "invalid " ++ expected ++ ": `" ++ found ++ "`"
  | valueMismatch expected found => "expected a " ++ expected ++ " value, got " ++ found
  | nonFinite value => "non-finite number " ++ value.display ++ " cannot be written"
  | writerMisuse fault => "writer misuse: " ++ fault.message
  | registryDropped => "the registry owning this converter was dropped"
  | unknownConverter path => "no attached converter registered as `" ++ path ++ "`"
  | violation v => v.message
  | aborted text => text
  | outOfFuel => "out of fuel"

/-- Whether a fault leaves everything as it stands. -/
def breaksOff : Error → Bool
  | violation _ | aborted _ | outOfFuel => true
  | _ => false

end Error

end Marshal
