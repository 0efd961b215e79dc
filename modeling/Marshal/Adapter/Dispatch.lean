import Marshal.Adapter.Basic

/-!
# Dispatch

How a requested type finds its adapter: by path, with as many arguments as the adapter has parameters, or with none,
which stand for the dynamic type each.
-/

namespace Marshal

/-- An adapter, by position, and the arguments to construct it with. -/
structure DispatchMatch where
  adapter : Nat
  args : List TypeRef
deriving Repr, DecidableEq, Inhabited

namespace DispatchEntry

/-- One entry for each adapter with a named target. -/
def table (adapters : List Adapter) : List DispatchEntry :=
  adapters.zipIdx.filterMap fun (a, index) =>
    a.target.path?.map fun path => ⟨path, a.target.args.length, index⟩

def match? (entry : DispatchEntry) (ty : TypeRef) : Option DispatchMatch :=
  if ty.path? != some entry.path then none
  else if ty.args.length = entry.arity then some ⟨entry.adapter, ty.args⟩
  else if ty.args.isEmpty then some ⟨entry.adapter, List.replicate entry.arity .any⟩
  else none

end DispatchEntry

end Marshal
