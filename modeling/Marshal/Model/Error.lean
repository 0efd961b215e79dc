import Marshal.TypeRef.Text

/-!
# Faults of a model

Why a declaration or a model cannot be built.
-/

namespace Marshal

inductive ModelError where
  | invalidType (e : TypeRef.Malformed)
  | duplicateType (path : String)
  | duplicateParam (path param : String)
deriving Repr, DecidableEq

def ModelError.message : ModelError → String
  | .invalidType e => e.message
  | .duplicateType path => "type `" ++ path ++ "` was scanned more than once"
  | .duplicateParam path param => "type `" ++ path ++ "` declares generic parameter `" ++ param ++ "` twice"

end Marshal
