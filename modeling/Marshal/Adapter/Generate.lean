import Marshal.Adapter.Dispatch
import Marshal.Plan.Fields

/-!
# Generation

The adapters of a model: one for each structure and each enumeration, in scan order.  Abstract declarations have none.
Generation stops at the first fault.
-/

namespace Marshal

structure GeneratorOptions where
  /-- The name of the generated module. -/
  moduleName : String
  access : AccessStrategy
  bindingPrefix : String
deriving Repr, DecidableEq

namespace GeneratorOptions

def standard : GeneratorOptions := ⟨"generated", .direct, "type_adapter"⟩

instance : Inhabited GeneratorOptions := ⟨standard⟩

end GeneratorOptions

namespace Declaration

/-- The first name that occurred before. -/
def repeatedName? (names : List String) : Option String := repeated? [] names

/-- The entries of an object are written in declaration order; an absent instance is an empty object. -/
def writeProcedure (accessor : Accessor) (fields : List (Field × Codec)) : List WriteOp :=
  [.beginObject, .endIfAbsent] ++
    (fields.map fun (f, codec) => .field ⟨f.name, f.serializedName, accessor f, codec, f.isNonNull⟩) ++ [.endObject]

def readProcedure (accessor : Accessor) (fields : List (Field × Codec)) : ReadProcedure where
  fields := fields.map fun (f, codec) => ⟨f.name, f.serializedName, accessor f, codec.acceptedTokens, codec⟩
  nonNull := (fields.filter fun p => p.1.isNonNull).map (·.1.name)

/-- A registry is needed where a value's own type decides how it is written, and for bindings to getters.  Discovery
is needed for fields written by runtime type and for discovered bindings. -/
def requirements (d : Declaration) (plan : FieldPlan) : Requirements :=
  let runtime := plan.codecs.any (·.any Codec.isRuntimeType)
  let dynamic := plan.codecs.any (·.any Codec.isDynamic)
  { typeParams := d.params
    needsRegistry := runtime || dynamic || plan.bindings.any (·.source.isRegistry)
    needsDiscovery := runtime || plan.bindings.any (·.source.isDiscover) }

/-- The adapter of a structure.  The catalog is returned in either case. -/
def structAdapter (model : Model) (accessor : Accessor) (namePrefix : String) (d : Declaration) (catalog : Catalog) :
    Except GenerateError StructAdapter × Catalog :=
  match repeatedName? (d.fields.map Field.serializedName) with
  | some name => (.error (.duplicateFieldName d.path name), catalog)
  | none =>
    match planFields model namePrefix d catalog with
    | (.error e, catalog) => (.error e, catalog)
    | (.ok plan, catalog) =>
      let fields := d.fields.zip plan.codecs
      (.ok ⟨d.selfType, requirements d plan, plan.bindings, writeProcedure accessor fields,
        readProcedure accessor fields⟩, catalog)

/-- The adapter of an enumeration. -/
def enumAdapter (d : Declaration) : Except GenerateError EnumAdapter :=
  match repeatedName? (d.constants.map Constant.serializedName) with
  | some name => .error (.duplicateEnumName d.path name)
  | none => .ok ⟨d.selfType, d.constants.map fun c => ⟨c.name, c.serializedName⟩⟩

end Declaration

namespace Model

/-- The adapters of declarations, with the catalog they have filled. -/
def adaptersFrom (model : Model) (accessor : Accessor) (namePrefix : String) (catalog : Catalog) :
    List Declaration → Except GenerateError (List Adapter × Catalog)
  | [] => .ok ([], catalog)
  | d :: ds =>
    match d.kind with
    | .abstract => adaptersFrom model accessor namePrefix catalog ds
    | .enumeration _ => do
      let a ← d.enumAdapter
      let (rest, catalog) ← adaptersFrom model accessor namePrefix catalog ds
      .ok (.enum a :: rest, catalog)
    | .structure _ =>
      match d.structAdapter model accessor namePrefix catalog with
      | (.error e, _) => .error e
      | (.ok a, catalog) => do
        let (rest, catalog) ← adaptersFrom model accessor namePrefix catalog ds
        .ok (.struct a :: rest, catalog)

/-- The module of a model under an access strategy of the caller's own. -/
def generateWith (model : Model) (accessor : Accessor) (options : GeneratorOptions) :
    Except GenerateError AdapterModule := do
  let (adapters, catalog) ← model.adaptersFrom accessor options.bindingPrefix .empty model.types
  .ok ⟨options.moduleName, adapters, DispatchEntry.table adapters, catalog.required model⟩

/-- The module of a model under the access strategy that the options name. -/
def generate (model : Model) (options : GeneratorOptions) : Except GenerateError AdapterModule :=
  model.generateWith options.access.accessor options

end Model

end Marshal
