import Marshal.Plan.Catalog
import Marshal.Plan.Codec

/-!
# Field plans

How the fields of a declaration are encoded.  Containers are unwrapped down to their leaves, and every leaf that is
not an inline native gets a binding; a type is bound once, however many fields use it.  A concrete leaf is bound to a
getter of the catalog, and one that mentions a parameter is discovered when the adapter is constructed.
-/

namespace Marshal

/-- Why no adapter can be generated. -/
inductive GenerateError where
  | unknownTypeVariable (owner field name : String)
  | duplicateFieldName (owner name : String)
  | duplicateEnumName (owner name : String)
  | abstractFieldWithoutAdapter (owner field : String) (ty : TypeRef)
deriving Repr, DecidableEq

def GenerateError.message : GenerateError → String
  | .unknownTypeVariable owner field name =>
    "field `" ++ owner ++ "." ++ field ++ "` uses type variable `" ++ name ++ "` that `" ++ owner ++
      "` does not declare"
  | .duplicateFieldName owner name => "`" ++ owner ++ "` serializes two fields as `" ++ name ++ "`"
  | .duplicateEnumName owner name => "enum `" ++ owner ++ "` serializes two constants as `" ++ name ++ "`"
  | .abstractFieldWithoutAdapter owner field ty =>
    "field `" ++ owner ++ "." ++ field ++ "` has abstract type `" ++ ty.plain ++
      "` with no subtype adapter; mark it WRITE_RUNTIME_TYPE or register a subtype adapter"

/-- The catalog and the bindings made so far. -/
structure Planning where
  catalog : Catalog
  bindings : List Binding
deriving Repr, DecidableEq, Inhabited

/-- A plan in the making; what it has entered into the catalog stays there if it fails. -/
abbrev PlanM := EStateM GenerateError Planning

/-- What planning needs to know: the model, the prefix of the names of bindings, and the declaration and the field
being planned. -/
structure PlanScope where
  model : Model
  namePrefix : String
  declaration : Declaration
  field : Field
deriving Repr

namespace PlanScope

def push (scope : PlanScope) (ty : TypeRef) (source : BindingSource) : PlanM Nat := do
  let s ← get
  let index := s.bindings.length
  let binding : Binding := ⟨scope.namePrefix ++ toString index, ty, source⟩
  set { s with bindings := s.bindings ++ [binding] }
  return index

/-- The binding of a type, which is added if there is none. -/
def bind (scope : PlanScope) (ty : TypeRef) (source : BindingSource) : PlanM Nat := do
  match (← get).bindings.findIdx? fun b => b.ty == ty && !b.source.isAttached with
  | some index => return index
  | none => scope.push ty source

/-- The binding of an attached converter, which is added if there is none. -/
def bindAttached (scope : PlanScope) (path : String) : PlanM Nat := do
  match (← get).bindings.findIdx? fun b => b.source == .attached path with
  | some index => return index
  | none => scope.push scope.field.ty (.attached path)

def bindGetter (scope : PlanScope) (ty : TypeRef) : PlanM Nat := do
  let s ← get
  let (getter, catalog) := s.catalog.bind ty
  set { s with catalog }
  scope.bind ty (.registry getter)

/-- Whether a type is declared abstract with no adapter of a subtype known. -/
def lacksAdapter (scope : PlanScope) (ty : TypeRef) : Bool :=
  match ty.path? with
  | some path =>
    (match scope.model.get? path with
      | some d => d.isAbstract
      | none => false) && !scope.model.hasSubtypeAdapter path
  | none => false

def unknownVariable (scope : PlanScope) (name : String) : GenerateError :=
  .unknownTypeVariable scope.declaration.path scope.field.name name

/-- The codec of a type that is neither native nor a container.  `runtime` says that the field is written by runtime
type. -/
def leaf (scope : PlanScope) (runtime : Bool) (ty : TypeRef) : PlanM Codec := do
  if ty.isAny then return .dynamic
  if ty.isConcrete then
    if scope.lacksAdapter ty then
      if runtime then return .dynamic
      else throw (.abstractFieldWithoutAdapter scope.declaration.path scope.field.name ty)
    else return .binding (← scope.bindGetter ty)
  else
    match TypeToken.ofType scope.declaration.params ty with
    | .ok (.param index) => return .binding (← scope.bind ty (.param index))
    | .ok token => return .binding (← scope.bind ty (.discover token))
    | .error name => throw (scope.unknownVariable name)

def native (scope : PlanScope) (kind : NativeKind) (ty : TypeRef) : PlanM Codec := do
  if kind.isInline then return .native kind
  else return .binding (← scope.bind ty (.known kind kind.converterPath))

/-- The codec of a map, its value planned before its key.  A native key of a map encoded as an object needs no codec
of its own. -/
def mapCodec (keyKind : Option NativeKind) (key value : PlanM Codec) (i : Instantiator) : PlanM Codec := do
  let value ← value
  match keyKind with
  | some kind => if kind.isKey then return .objectMap kind value i else return .pairMap (← key) value i
  | none => return .pairMap (← key) value i

/-- The codec of a type.  The missing arguments of a container are of the dynamic type. -/
def codec (scope : PlanScope) (runtime : Bool) : TypeRef → PlanM Codec
  | .array element => return .sequence (← codec scope runtime element) .array
  | .var name => scope.leaf runtime (.var name)
  | .named path [] =>
    match NativeKind.ofPath? path, Instantiator.ofPath? path with
    | some kind, _ => scope.native kind (.named path [])
    | none, none => scope.leaf runtime (.named path [])
    | none, some i => if i.isMap then return .pairMap .dynamic .dynamic i else return .sequence .dynamic i
  | .named path [a] =>
    match Instantiator.ofPath? path with
    | none => scope.leaf runtime (.named path [a])
    | some i =>
      if i.isMap then mapCodec a.native? (codec scope runtime a) (return .dynamic) i
      else return .sequence (← codec scope runtime a) i
  | .named path (a :: b :: rest) =>
    match Instantiator.ofPath? path with
    | none => scope.leaf runtime (.named path (a :: b :: rest))
    | some i =>
      if i.isMap then mapCodec a.native? (codec scope runtime a) (codec scope runtime b) i
      else return .sequence (← codec scope runtime a) i

/-- The codec a field has without its attached converter. -/
def planned (scope : PlanScope) : PlanM Codec := do
  if scope.field.writesRuntimeType then return .runtimeType (← scope.codec true scope.field.ty)
  else scope.codec false scope.field.ty

/-- The codec of the field.  An attached converter takes over the directions it is meant for. -/
def plan (scope : PlanScope) : PlanM Codec := do
  match scope.field.ty.vars.find? fun name => !scope.declaration.params.contains name with
  | some name => throw (scope.unknownVariable name)
  | none =>
    match scope.field.converter with
    | none => scope.planned
    | some attached =>
      let codec := .attached (← scope.bindAttached attached.path) attached.nullSafe
      match attached.usage with
      | .both => return codec
      | .write => return .split codec (← scope.planned)
      | .read => return .split (← scope.planned) codec

end PlanScope

/-- The bindings of an adapter and the codecs of the fields, in declaration order. -/
structure FieldPlan where
  bindings : List Binding
  codecs : List Codec
deriving Repr, DecidableEq, Inhabited

/-- Plans all fields of a declaration.  The catalog is returned in either case. -/
def planFields (model : Model) (namePrefix : String) (d : Declaration) (catalog : Catalog) :
    Except GenerateError FieldPlan × Catalog :=
  match (d.fields.mapM fun f => PlanScope.plan ⟨model, namePrefix, d, f⟩).run ⟨catalog, []⟩ with
  | .ok codecs s => (.ok ⟨s.bindings, codecs⟩, s.catalog)
  | .error e s => (.error e, s.catalog)

end Marshal
