import Marshal.Registry.Store

/-!
# Registries

A registry asks its sources in turn for the converter of a type.  A source may resolve further types on the way; one
that is under construction already is answered with a placeholder, so recursive types come to an end.
`Registry.resolve` caches everything that was constructed, or nothing if it fails.
-/

namespace Marshal

structure Resolution where
  store : Store
  context : Context
deriving Inhabited

/-- A step of a resolution; its effect stays if it fails. -/
abbrev ResolveM := EStateM Error Resolution

/-- What a source may ask of the registry it belongs to. -/
structure Resolver where
  resolve : TypeRef → ResolveM Converter
  attached : String → ResolveM Converter

/-- A source of converters; it has none for the types that it does not handle. -/
structure Source where
  name : String
  create : Resolver → TypeRef → ResolveM (Option Converter)

structure Registry where
  /-- The modules, in the order in which they are asked. -/
  chain : List Source
  /-- What is asked after all modules. -/
  discovery : List Source
  /-- The converters that fields attach by name; of several with one name the last counts. -/
  attached : List (String × Converter)

namespace ResolveM

/-- The number for a new converter. -/
def fresh : ResolveM Nat := do
  let r ← get
  set { r with store := { r.store with nextId := r.store.nextId + 1 } }
  return r.store.nextId

def modifyContext (f : Context → Context) : ResolveM Unit :=
  modify fun r => { r with context := f r.context }

/-- Starts the construction of a type. -/
def enter (ty : TypeRef) : ResolveM Nat := do
  let id ← fresh
  modifyContext fun c => c.enter ty (.placeholder id ty)
  return id

/-- Binds the placeholder of a type and records its converter. -/
def complete (id : Nat) (ty : TypeRef) (converter : Converter) : ResolveM Unit := do
  let r ← get
  match r.store.delegates.bind id ty converter with
  | .ok delegates =>
    set { r with store := { r.store with delegates }, context := r.context.complete ty converter : Resolution }
  | .error e => throw e

/-- Runs a construction and leaves the type it is for, unless it breaks off. -/
def leaving {α : Type} (m : ResolveM α) : ResolveM α := fun r =>
  match m r with
  | .ok a r => .ok a { r with context := r.context.exit }
  | .error e r => .error e (if e.breaksOff then r else { r with context := r.context.exit })

end ResolveM

namespace Registry

def names (reg : Registry) : List String := reg.chain.map (·.name)

/-- Adds modules that are offered to every registry, unless one of their name is there. -/
def offer (reg : Registry) (offered : List Source) : Registry :=
  offered.foldl (fun reg s => if reg.names.contains s.name then reg else { reg with chain := reg.chain ++ [s] }) reg

/-- The converter attached under a path. -/
def attached? (reg : Registry) (path : String) : Option Converter := reg.attached.reverse.lookup path

def findAttached (reg : Registry) (path : String) : ResolveM Converter :=
  match reg.attached? path with
  | some c => return c
  | none => throw (.unknownConverter path)

/-- The first converter that a source has. -/
def firstOf (resolver : Resolver) (ty : TypeRef) : List Source → ResolveM (Option Converter)
  | [] => return none
  | s :: rest => do
    match ← s.create resolver ty with
    | some c => return some c
    | none => firstOf resolver ty rest

/-- Constructs the converter of a type. -/
def create (reg : Registry) (resolve : TypeRef → ResolveM Converter) (ty : TypeRef) : ResolveM Converter := do
  match ← firstOf ⟨resolve, reg.findAttached⟩ ty (reg.chain ++ reg.discovery) with
  | some c => return c
  | none => throw (.unsupportedType ty (← get).context.trace)

/-- A converter for a type that need not be constructed: a cached or finished one, or a placeholder. -/
def known? (r : Resolution) (ty : TypeRef) : Option Converter :=
  (r.store.cached? ty).or ((r.context.pending? ty).or (r.context.inFlight? ty))

/-- Resolves a type as part of an ongoing resolution.  Each nested construction takes one unit of fuel. -/
def resolveIn (reg : Registry) : (fuel : Nat) → TypeRef → ResolveM Converter
  | 0, _ => throw .outOfFuel
  | fuel + 1, ty => do
    match known? (← get) ty with
    | some c => return c
    | none =>
      let id ← ResolveM.enter ty
      let c ← ResolveM.leaving (reg.create (reg.resolveIn fuel) ty)
      ResolveM.complete id ty c
      return c

/-- What the registry offers to its sources. -/
def resolver (reg : Registry) (fuel : Nat) : Resolver := ⟨reg.resolveIn fuel, reg.findAttached⟩

/-- Resolves a type.  What was constructed is cached only if the whole resolution succeeds. -/
def resolve (reg : Registry) (fuel : Nat) (ty : TypeRef) : EStateM Error Store Converter := fun store =>
  match store.cached? ty with
  | some c => .ok c store
  | none =>
    match reg.resolveIn fuel ty ⟨store, .empty⟩ with
    | .ok c r =>
      let store := r.context.pending.foldl Store.commit r.store
      .ok ((store.cached? ty).getD c) store
    | .error e r => .error e r.store

/-- Resolves a type for a converter that may have outlived the registry. -/
def resolveIfAlive (reg : Registry) (fuel : Nat) (ty : TypeRef) : EStateM Error Store Converter := do
  if (← get).alive then reg.resolve fuel ty else throw .registryDropped

end Registry

end Marshal
