import Marshal.Adapter.Generate
import Marshal.Form.Basic

/-!
# Stored models

The form of a scan: the declarations in scan order and the marked subtype adapters.  What may be left out when a form
is decoded is left out when it is encoded, except that a field always shows its owner and its flags.
-/

namespace Marshal

open Form
open RecordDecoder (needs mayHave)

/-! ### Fields -/

def ConverterUse.label : ConverterUse → String
  | .both => "Both"
  | .write => "Write"
  | .read => "Read"

def ConverterUse.ofLabel? (s : String) : Option ConverterUse :=
  [both, write, read].find? (·.label == s)

namespace FieldConverter

def toForm (c : FieldConverter) : Form :=
  .record [("path", .text c.path), ("null_safe", .flag c.nullSafe), ("usage", .text c.usage.label)]

def ofForm : Decoder FieldConverter :=
  asRecord (mk <$> needs "path" asText <*> mayHave "null_safe" asFlag true <*>
    mayHave "usage" (asLabel ConverterUse.ofLabel?) .both)

end FieldConverter

/-- An entry that is left out if there is nothing to show. -/
def Form.entryIfSome {α : Type} (name : String) (encode : α → Form) : Option α → List (String × Form)
  | some a => [(name, encode a)]
  | none => []

namespace Field

def toForm (owner : String) (f : Field) : Form :=
  .record ([("owner", .text owner), ("name", .text f.name)] ++ entryIfSome "serialized_name" .text f.rename ++
    [("ty", Form.ofType f.ty), ("flags", .text f.flags.text)] ++
    entryIfSome "converter" FieldConverter.toForm f.converter)

def asFlags : Decoder FieldFlags
  | .text s => needed (FieldFlags.ofText? s)
  | _ => .error .shape

/-- The owner of a stored field is not kept: it is always the declaration that the field stands in. -/
def ofForm : Decoder Field :=
  asRecord ((fun _ => mk) <$> mayHave "owner" asText "" <*> needs "name" asText <*>
    mayHave "serialized_name" (asOption asText) none <*> needs "ty" asType <*> mayHave "flags" asFlags .none <*>
    mayHave "converter" (asOption FieldConverter.ofForm) none)

end Field

namespace Constant

def toForm (c : Constant) : Form :=
  .record (("name", .text c.name) :: entryIfSome "serialized_name" .text c.rename)

def ofForm : Decoder Constant :=
  asRecord (mk <$> needs "name" asText <*> mayHave "serialized_name" (asOption asText) none)

end Constant

/-! ### Declarations -/

namespace Declaration

def kindForm (path : String) : DeclarationKind → Form
  | .structure fields => variant "Struct" (.list (fields.map (Field.toForm path)))
  | .enumeration constants => variant "Enum" (.list (constants.map Constant.toForm))
  | .abstract => .text "Abstract"

def kindOfForm : Decoder DeclarationKind := fun f => do
  match ← asVariant f with
  | ("Struct", some body) => (asList Field.ofForm body).map .structure
  | ("Enum", some body) => (asList Constant.ofForm body).map .enumeration
  | ("Abstract", body) => if isBare body then .ok .abstract else .error .shape
  | _ => .error .shape

def toForm (d : Declaration) : Form :=
  .record ([("path", .text d.path)] ++
    (if d.params.isEmpty then [] else [("params", .list (d.params.map .text))]) ++ [("kind", kindForm d.path d.kind)])

def ofForm : Decoder Declaration := fun f => do
  let d ← asRecord (ofParts <$> needs "path" asText <*> mayHave "params" (asList asText) [] <*>
    needs "kind" kindOfForm) f
  d.mapError .model

end Declaration

/-! ### Models and options -/

namespace Model

def toForm (m : Model) : Form :=
  .record ([("types", .list (m.types.map Declaration.toForm))] ++
    if m.subtypeAdapters.isEmpty then [] else [("subtype_adapters", .list (m.subtypeAdapters.map .text))])

def ofForm : Decoder Model := fun f => do
  let m ← asRecord (ofScan <$> needs "types" (asList Declaration.ofForm) <*>
    mayHave "subtype_adapters" (asList asText) []) f
  m.mapError .model

/-- The model after it was stored and loaded again. -/
def reload (m : Model) : Except FormError Model := ofForm m.toForm

end Model

def AccessStrategy.ofLabel? : String → Option AccessStrategy
  | "direct" => some .direct
  | "methods" => some .methods
  | _ => none

def GeneratorOptions.ofForm : Decoder GeneratorOptions :=
  asRecord (mk <$> mayHave "module" asText standard.moduleName <*>
    mayHave "access" (asLabel AccessStrategy.ofLabel?) standard.access <*>
    mayHave "binding_prefix" asText standard.bindingPrefix)

end Marshal
