import Marshal.Adapter.Dispatch
import Marshal.Registry.Basic

/-!
# Sources of converters

The two kinds of source that come with the library.  `Source.standard` has converters for natives, the dynamic type
and containers.  `Source.ofModule` builds converters from the adapters of a generated module.
-/

namespace Marshal

namespace Source

/-! ### Standard types -/

/-- The elements of a container are resolved first, the value of a map before its key. -/
def createStandard (resolver : Resolver) (ty : TypeRef) : ResolveM (Option Converter) := do
  if ty.isAny then return some (.dynamic (← ResolveM.fresh) true)
  match ty.shape with
  | .native kind => return some (.native (← ResolveM.fresh) kind)
  | .list element i => do
    let element ← resolver.resolve element
    return some (.codec (← ResolveM.fresh) (.sequence (.binding 0) i) [element])
  | .map key value i => do
    let value ← resolver.resolve value
    match key.native?.filter (·.isKey) with
    | some kind => return some (.codec (← ResolveM.fresh) (.objectMap kind (.binding 0) i) [value])
    | none =>
      let key ← resolver.resolve key
      return some (.codec (← ResolveM.fresh) (.pairMap (.binding 1) (.binding 0) i) [value, key])
  | .other => return none

def standard : Source := ⟨"standard", createStandard⟩

/-! ### Generated modules -/

/-- The converter that a binding of an adapter holds, for the given arguments. -/
def bindingConverter (resolver : Resolver) (args : List TypeRef) (b : Binding) : ResolveM Converter := do
  match b.source with
  | .known kind _ => return .native (← ResolveM.fresh) kind
  | .registry _ => resolver.resolve b.ty
  | .param index => resolver.resolve (TypeRef.argOrAny args index)
  | .discover token => resolver.resolve (token.resolve args)
  | .attached path => resolver.attached path

/-- The converter of an adapter for one instance of its target. -/
def construct (resolver : Resolver) (a : StructAdapter) (target : TypeRef) (args : List TypeRef) :
    ResolveM Converter := do
  let bindings ← a.bindings.mapM (bindingConverter resolver args)
  return .struct (← ResolveM.fresh) a target bindings a.requirements.needsRegistry

def modifyTally (slot : Nat) (f : Tally → Tally) : ResolveM Unit :=
  modify fun r => { r with store := r.store.setTally slot (f (r.store.tally slot)) }

/-- Notes that a module has constructed a converter. -/
def countConstructed (slot : Nat) : ResolveM Unit :=
  modifyTally slot fun t => { t with constructed := t.constructed + 1 }

/-- Notes that the tables of an enumeration exist. -/
def countTables (slot index : Nat) : ResolveM Unit :=
  modifyTally slot fun t => if t.tables.contains index then t else { t with tables := index :: t.tables }

/-- The adapter that a module has for a type, with the arguments.  Of several entries for a path the last counts. -/
def dispatch? (m : AdapterModule) (ty : TypeRef) : Option (DispatchEntry × DispatchMatch) := do
  let path ← ty.path?
  let entry ← m.dispatch.reverse.find? (·.path == path)
  let hit ← entry.match? ty
  some (entry, hit)

def createFrom (slot : Nat) (m : AdapterModule) (resolver : Resolver) (ty : TypeRef) :
    ResolveM (Option Converter) := do
  match dispatch? m ty with
  | none => return none
  | some (entry, hit) =>
    match m.adapters[hit.adapter]? with
    | none => return none
    | some (.struct a) =>
      let c ← construct resolver a (.named entry.path hit.args) hit.args
      countConstructed slot
      return some c
    | some (.enum a) =>
      countTables slot hit.adapter
      countConstructed slot
      return some (.enum (← ResolveM.fresh) a)

/-- A generated module; `slot` is its position among such modules. -/
def ofModule (slot : Nat) (m : AdapterModule) : Source := ⟨m.name, createFrom slot m⟩

end Source

end Marshal
