import FileHolders.Held

/-!
# The owner at hand

The records of the handle table come in runs of one owner each.  A search keeps the owner of the
current run at hand: opened, or known to be out of reach.  At most one process is open at a time;
the next owner takes its place only after it was let go.
-/

namespace FileHolders

/-- The process whose records are being read. -/
inductive Owner where
  /-- There is none yet, or it was let go. -/
  | none
  | opened (pid : UInt64) (process : Held)
  /-- It could not be opened; the rest of its records is passed over. -/
  | outOfReach (pid : UInt64)
deriving DecidableEq, Repr

namespace Owner

/-- The process id at hand. -/
def pid? : Owner → Option UInt64
  | none => .none
  | opened pid _ => some pid
  | outOfReach pid => some pid

/-- The open process at hand. -/
def process? : Owner → Option Held
  | opened _ process => some process
  | _ => .none

/-- Whether a record of process `pid` starts a new run. -/
def startsRun (owner : Owner) (pid : UInt64) : Bool := owner.pid? ≠ some pid

/-! ## Changes -/

variable {σ : Type}

/-- Lets the owner go. -/
def letGo (host : Host σ) (owner : Owner) : Action σ Owner :=
  match owner with
  | opened pid process => do
    Action.trace s!"closing process {pid}"
    process.release host
    pure none
  | _ => pure none

/-- Puts an open process in the owner's place. -/
def replaceOpened (host : Host σ) (owner : Owner) (pid : UInt64) (process : Held) :
    Action σ Owner := do
  let _ ← owner.letGo host
  pure (opened pid process)

/-- Puts a process that cannot be opened in the owner's place. -/
def replaceOutOfReach (host : Host σ) (owner : Owner) (pid : UInt64) : Action σ Owner := do
  let _ ← owner.letGo host
  pure (outOfReach pid)

end Owner

/-- The process that was denied last.  Only one is remembered: a later denial displaces it. -/
structure Denial where
  last : Option UInt64 := none
deriving DecidableEq, Repr

namespace Denial

/-- Remembers a process that was denied. -/
def remember (_ : Denial) (pid : UInt64) : Denial := ⟨some pid⟩

/-- Whether a process is the one that was denied last. -/
def covers (d : Denial) (pid : UInt64) : Bool := d.last = some pid

end Denial

end FileHolders
