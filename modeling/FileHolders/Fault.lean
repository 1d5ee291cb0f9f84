import FileHolders.Capability
import FileHolders.Status

/-!
# Faults

What can go wrong in the arena (`ArenaFault`) and in a kernel query (`Fault`).  Each fault keeps its
cause; `message` is the one place where its wording is written, and `status` is the nearest
kernel status.
-/

namespace FileHolders

/-- What can go wrong with the heap behind an arena. -/
inductive ArenaFault where
  /-- The named heap routine is missing. -/
  | unavailable (routine : String)
  | createFailed
  | destroyFailed
deriving DecidableEq, Repr

/-- The wording of an arena fault. -/
def ArenaFault.message : ArenaFault → String
  | unavailable routine => s!"{routine} is not available on this system"
  | createFailed => "the search heap could not be created"
  | destroyFailed => "the search heap could not be destroyed"

/-- What can go wrong in a kernel query. -/
inductive Fault where
  /-- The named entry point is missing. -/
  | unavailable (entryPoint : String)
  /-- The named call answered with a status that is no success. -/
  | failed (call : String) (status : Status)
  /-- The handle table asks for a buffer of `requested` bytes, over the ceiling. -/
  | overCeiling (requested ceiling : UInt64)
  /-- A block of `size` bytes was refused. -/
  | outOfMemory (size : UInt64)
  /-- The text of a name does not lie in the buffer that was given for it. -/
  | malformedName
  | arena (fault : ArenaFault)
deriving DecidableEq, Repr

namespace Fault

/-- The fault of a missing capability. -/
def missing (capability : Capability) : Fault := .unavailable capability.entryPoint

/-- The wording of a fault. -/
def message : Fault → String
  | unavailable entryPoint => s!"{entryPoint} is not available on this system"
  | failed call status => s!"{call} failed: {status.message}"
  | overCeiling requested ceiling =>
    s!"{Status.insufficientResources.message} (a {requested} byte buffer exceeds the " ++
      s!"{ceiling} byte ceiling)"
  | outOfMemory size => s!"{Status.noMemory.message} (could not allocate {size} bytes)"
  | malformedName => "object name information is malformed"
  | arena fault => fault.message

/-- The status nearest to a fault. -/
def status : Fault → Status
  | unavailable _ => .procedureNotFound
  | failed _ status => status
  | overCeiling _ _ => .insufficientResources
  | outOfMemory _ => .noMemory
  | malformedName => .invalidName
  | arena (.unavailable _) => .procedureNotFound
  | arena _ => .unsuccessful

end Fault

end FileHolders
