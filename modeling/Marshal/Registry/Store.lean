import Marshal.Converter.Basic
import Marshal.Keyed.Table

/-!
# The state of a registry

What a registry remembers from one resolution to the next: the converters it has cached, what its placeholders stand
for, and counts of what its modules have built.  A context belongs to one ongoing resolution; the converters that it
has finished reach the cache only if the whole resolution succeeds.
-/

namespace Marshal

/-- What a module of adapters has built. -/
structure Tally where
  constructed : Nat
  /-- The enumerations, by position, whose tables exist. -/
  tables : List Nat
deriving Repr, DecidableEq, Inhabited

structure Store where
  /-- The number that the next converter is built under. -/
  nextId : Nat
  delegates : Delegates
  cache : Table TypeRef Converter
  /-- Whether the registry still exists; converters may outlive it. -/
  alive : Bool
  /-- By the position of the module among the modules of adapters. -/
  tallies : List (Nat × Tally)
deriving Inhabited

namespace Store

def empty : Store := ⟨0, [], [], true, []⟩

def cached? (s : Store) (ty : TypeRef) : Option Converter := s.cache.get? ty

/-- Caches a converter unless the type has one. -/
def commit (s : Store) (entry : TypeRef × Converter) : Store :=
  { s with cache := s.cache.enter entry.1 entry.2 }

def tally (s : Store) (slot : Nat) : Tally := (s.tallies.lookup slot).getD ⟨0, []⟩

def setTally (s : Store) (slot : Nat) (t : Tally) : Store :=
  { s with tallies := (slot, t) :: s.tallies.filter (·.1 != slot) }

end Store

structure Context where
  /-- The types under construction with their placeholders, innermost first. -/
  inFlight : List (TypeRef × Converter)
  /-- The finished converters, in the order in which they were finished. -/
  pending : List (TypeRef × Converter)
deriving Inhabited

namespace Context

def empty : Context := ⟨[], []⟩

/-- The types under construction, outermost first. -/
def trace (c : Context) : List TypeRef := (c.inFlight.map (·.1)).reverse

/-- The finished types, in the order in which they were finished. -/
def finished (c : Context) : List TypeRef := c.pending.map (·.1)

/-- The number of converters constructed so far, placeholders aside. -/
def constructed (c : Context) : Nat := c.pending.length

def pending? (c : Context) (ty : TypeRef) : Option Converter := c.pending.lookup ty

def inFlight? (c : Context) (ty : TypeRef) : Option Converter := c.inFlight.lookup ty

def enter (c : Context) (ty : TypeRef) (placeholder : Converter) : Context :=
  { c with inFlight := (ty, placeholder) :: c.inFlight }

def exit (c : Context) : Context := { c with inFlight := c.inFlight.tail }

def complete (c : Context) (ty : TypeRef) (converter : Converter) : Context :=
  { c with pending := c.pending ++ [(ty, converter)] }

end Context

end Marshal
