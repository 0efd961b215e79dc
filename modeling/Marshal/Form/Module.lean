import Marshal.Adapter.Basic
import Marshal.Form.Basic

/-!
# Stored modules

The forms of tokens, bindings, codecs, procedures and whole modules.  Each has an encoder and a decoder.
-/

namespace Marshal

open Form
open RecordDecoder (needs mayHave)

/-! ### Tokens and bindings -/

namespace TypeToken

mutual

def toForm : TypeToken → Form
  | .class ty => variant "Class" (Form.ofType ty)
  | .param index => variant "Param" (.nat index)
  | .array element => variant "Array" element.toForm
  | .parameterized raw args => variant "Parameterized" (.record [("raw", .text raw), ("args", .list (toForms args))])

def toForms : List TypeToken → List Form
  | [] => []
  | t :: ts => t.toForm :: toForms ts

end

mutual

def ofForm : Form → Except FormError TypeToken
  | .record [("Class", body)] => (asType body).map .class
  | .record [("Param", body)] => (asNat body).map .param
  | .record [("Array", body)] => (ofForm body).map .array
  | .record [("Parameterized", .record entries)] => do
    let args ← argsOfEntries entries
    let raw ← entry? entries "raw" asText
    .ok (.parameterized (← needed raw) (← needed args))
  | _ => .error .shape

def ofForms : List Form → Except FormError (List TypeToken)
  | [] => .ok []
  | f :: fs => do .ok ((← ofForm f) :: (← ofForms fs))

/-- The arguments among the entries of a record. -/
def argsOfEntries : List (String × Form) → Except FormError (Option (List TypeToken))
  | [] => .ok none
  | ("args", .list items) :: _ => (ofForms items).map some
  | ("args", _) :: _ => .error .shape
  | _ :: entries => argsOfEntries entries

end

end TypeToken

namespace BindingSource

def toForm : BindingSource → Form
  | known kind converter => variant "Known" (.record [("kind", .text kind.label), ("converter", .text converter)])
  | registry getter => variant "Registry" (.record [("getter", .text getter)])
  | param index => variant "Param" (.nat index)
  | discover token => variant "Discover" token.toForm
  | attached path => variant "Attached" (.record [("path", .text path)])

def ofForm : Decoder BindingSource := fun f => do
  match ← asVariant f with
  | ("Known", some body) =>
    asNamed (known <$> needs "kind" (asLabel NativeKind.ofLabel?) <*> needs "converter" asText) body
  | ("Registry", some body) => asNamed (registry <$> needs "getter" asText) body
  | ("Param", some body) => (asNat body).map param
  | ("Discover", some body) => (TypeToken.ofForm body).map discover
  | ("Attached", some body) => asNamed (attached <$> needs "path" asText) body
  | _ => .error .shape

end BindingSource

namespace Binding

def toForm (b : Binding) : Form :=
  .record [("name", .text b.name), ("ty", Form.ofType b.ty), ("source", b.source.toForm)]

def ofForm : Decoder Binding :=
  asRecord (mk <$> needs "name" asText <*> needs "ty" asType <*> needs "source" BindingSource.ofForm)

end Binding

/-! ### Codecs -/

namespace Codec

def toForm : Codec → Form
  | native kind => variant "Native" (.text kind.label)
  | binding index => variant "Binding" (.nat index)
  | dynamic => .text "Dynamic"
  | runtimeType declared => variant "RuntimeType" (.record [("declared", declared.toForm)])
  | sequence element i =>
    variant "Sequence" (.record [("element", element.toForm), ("instantiator", .text i.label)])
  | objectMap key value i =>
    variant "ObjectMap"
      (.record [("key", .text key.label), ("value", value.toForm), ("instantiator", .text i.label)])
  | pairMap key value i =>
    variant "PairMap" (.record [("key", key.toForm), ("value", value.toForm), ("instantiator", .text i.label)])
  | attached index nullSafe =>
    variant "Attached" (.record [("binding", .nat index), ("null_safe", .flag nullSafe)])
  | split write read => variant "Split" (.record [("write", write.toForm), ("read", read.toForm)])

def instantiatorOf (entries : List (String × Form)) : Except FormError Instantiator := do
  needed (← entry? entries "instantiator" (asLabel Instantiator.ofLabel?))

/-- A codec that was decoded for the entry of a name. -/
def pick (codecs : List (String × Except FormError Codec)) (name : String) : Except FormError Codec :=
  (codecs.lookup name).getD (.error .shape)

/-- An alternative with entries, from the entries and from what each of them decodes to as a codec. -/
def ofEntries (tag : String) (entries : List (String × Form)) (codecs : List (String × Except FormError Codec)) :
    Except FormError Codec :=
  match tag with
  | "RuntimeType" => (pick codecs "declared").map runtimeType
  | "Sequence" => do .ok (sequence (← pick codecs "element") (← instantiatorOf entries))
  | "ObjectMap" => do
    let key ← needed (← entry? entries "key" (asLabel NativeKind.ofLabel?))
    .ok (objectMap key (← pick codecs "value") (← instantiatorOf entries))
  | "PairMap" => do .ok (pairMap (← pick codecs "key") (← pick codecs "value") (← instantiatorOf entries))
  | "Attached" => do
    let index ← needed (← entry? entries "binding" asNat)
    let nullSafe ← needed (← entry? entries "null_safe" asFlag)
    .ok (attached index nullSafe)
  | "Split" => do .ok (split (← pick codecs "write") (← pick codecs "read"))
  | _ => .error .shape

mutual

def ofForm : Form → Except FormError Codec
  | .text "Dynamic" | .record [("Dynamic", .null)] => .ok dynamic
  | .record [("Native", body)] => (asLabel NativeKind.ofLabel? body).map native
  | .record [("Binding", body)] => (asNat body).map binding
  | .record [(tag, .record entries)] => ofEntries tag entries (ofRecord entries)
  | _ => .error .shape

/-- What each entry decodes to as a codec. -/
def ofRecord : List (String × Form) → List (String × Except FormError Codec)
  | [] => []
  | (name, f) :: entries => (name, ofForm f) :: ofRecord entries

end

end Codec

/-! ### Procedures -/

namespace FieldAccess

def toForm (a : FieldAccess) : Form := .record [("read", .text a.read), ("write", .text a.write)]

def ofForm : Decoder FieldAccess := asRecord (mk <$> needs "read" asText <*> needs "write" asText)

end FieldAccess

namespace FieldWrite

def toForm (f : FieldWrite) : Form :=
  .record [("name", .text f.name), ("serialized_name", .text f.serializedName), ("access", f.access.toForm),
    ("codec", f.codec.toForm), ("non_null", .flag f.nonNull)]

def ofForm : Decoder FieldWrite :=
  asRecord (mk <$> needs "name" asText <*> needs "serialized_name" asText <*> needs "access" FieldAccess.ofForm <*>
    needs "codec" Codec.ofForm <*> needs "non_null" asFlag)

end FieldWrite

namespace WriteOp

def toForm : WriteOp → Form
  | beginObject => .text "BeginObject"
  | endIfAbsent => .text "EndIfAbsent"
  | field f => variant "Field" f.toForm
  | endObject => .text "EndObject"

def ofForm : Decoder WriteOp := fun f => do
  match ← asVariant f with
  | ("Field", some body) => (FieldWrite.ofForm body).map field
  | ("BeginObject", body) => if isBare body then .ok beginObject else .error .shape
  | ("EndIfAbsent", body) => if isBare body then .ok endIfAbsent else .error .shape
  | ("EndObject", body) => if isBare body then .ok endObject else .error .shape
  | _ => .error .shape

end WriteOp

namespace FieldRead

def toForm (f : FieldRead) : Form :=
  .record [("name", .text f.name), ("serialized_name", .text f.serializedName), ("access", f.access.toForm),
    ("accepts", .list (f.accepts.map fun k => .text k.label)), ("codec", f.codec.toForm)]

def ofForm : Decoder FieldRead :=
  asRecord (mk <$> needs "name" asText <*> needs "serialized_name" asText <*> needs "access" FieldAccess.ofForm <*>
    needs "accepts" (asList (asLabel TokenKind.ofLabel?)) <*> needs "codec" Codec.ofForm)

end FieldRead

namespace ReadProcedure

def toForm (p : ReadProcedure) : Form :=
  .record [("fields", .list (p.fields.map FieldRead.toForm)), ("non_null", .list (p.nonNull.map .text))]

def ofForm : Decoder ReadProcedure :=
  asRecord (mk <$> needs "fields" (asList FieldRead.ofForm) <*> needs "non_null" (asList asText))

end ReadProcedure

/-! ### Adapters -/

namespace Requirements

def toForm (r : Requirements) : Form :=
  .record [("type_params", .list (r.typeParams.map .text)), ("needs_registry", .flag r.needsRegistry),
    ("needs_discovery", .flag r.needsDiscovery)]

def ofForm : Decoder Requirements :=
  asRecord (mk <$> needs "type_params" (asList asText) <*> needs "needs_registry" asFlag <*>
    needs "needs_discovery" asFlag)

end Requirements

namespace StructAdapter

def toForm (a : StructAdapter) : Form :=
  .record [("target", Form.ofType a.target), ("constructor", a.requirements.toForm),
    ("bindings", .list (a.bindings.map Binding.toForm)), ("write", .list (a.write.map WriteOp.toForm)),
    ("read", a.read.toForm)]

def ofForm : Decoder StructAdapter :=
  asRecord (mk <$> needs "target" asType <*> needs "constructor" Requirements.ofForm <*>
    needs "bindings" (asList Binding.ofForm) <*> needs "write" (asList WriteOp.ofForm) <*>
    needs "read" ReadProcedure.ofForm)

end StructAdapter

namespace EnumEntry

def toForm (e : EnumEntry) : Form :=
  .record [("constant", .text e.constant), ("serialized_name", .text e.serializedName)]

def ofForm : Decoder EnumEntry := asRecord (mk <$> needs "constant" asText <*> needs "serialized_name" asText)

end EnumEntry

namespace EnumAdapter

def toForm (a : EnumAdapter) : Form :=
  .record [("target", Form.ofType a.target), ("entries", .list (a.entries.map EnumEntry.toForm))]

def ofForm : Decoder EnumAdapter :=
  asRecord (mk <$> needs "target" asType <*> needs "entries" (asList EnumEntry.ofForm))

end EnumAdapter

namespace Adapter

def toForm : Adapter → Form
  | struct a => variant "Type" a.toForm
  | enum a => variant "Enum" a.toForm

def ofForm : Decoder Adapter := fun f => do
  match ← asVariant f with
  | ("Type", some body) => (StructAdapter.ofForm body).map struct
  | ("Enum", some body) => (EnumAdapter.ofForm body).map enum
  | _ => .error .shape

end Adapter

/-! ### Modules -/

namespace DispatchEntry

def toForm (e : DispatchEntry) : Form :=
  .record [("path", .text e.path), ("arity", .nat e.arity), ("adapter", .nat e.adapter)]

def ofForm : Decoder DispatchEntry :=
  asRecord (mk <$> needs "path" asText <*> needs "arity" asNat <*> needs "adapter" asNat)

end DispatchEntry

namespace AdapterModule

def toForm (m : AdapterModule) : Form :=
  .record [("name", .text m.name), ("adapters", .list (m.adapters.map Adapter.toForm)),
    ("dispatch", .list (m.dispatch.map DispatchEntry.toForm)), ("required", .list (m.required.map Form.ofType))]

def ofForm : Decoder AdapterModule :=
  asRecord (mk <$> needs "name" asText <*> needs "adapters" (asList Adapter.ofForm) <*>
    needs "dispatch" (asList DispatchEntry.ofForm) <*> needs "required" (asList asType))

/-- The module after it was stored and loaded again. -/
def reload (m : AdapterModule) : Except FormError AdapterModule := ofForm m.toForm

end AdapterModule

end Marshal
