import FileHolders.Session
import FileHolders.Settings

/-!
# Handles in hand

A handle that a search works with is either its own, and is closed when it is let go, or borrowed.
The stand-in for the caller's process is always borrowed, whoever hands it out.

    h.release closes h.id exactly if h.owned                                     (release)
    h.owned = true → h.id ≠ HandleId.ownProcess                                  (owned_real)
-/

namespace FileHolders

/-- A handle in hand. -/
structure Held where
  id : HandleId
  /-- Whether letting it go closes it. -/
  owned : Bool
  owned_real : owned = true → id ≠ .ownProcess
deriving DecidableEq, Repr

namespace Held

/-! ## Making -/

/-- A handle that was handed out to the caller. -/
def acquired (id : HandleId) : Held :=
  { id, owned := id ≠ .ownProcess, owned_real := by simp }

/-- A handle that is not the search's to close. -/
def borrowed (id : HandleId) : Held := { id, owned := false, owned_real := by simp }

/-- The caller's own process. -/
def ownProcess : Held := borrowed .ownProcess

/-- Whether a handle stands for the caller's own process. -/
def isOwnProcess (h : Held) : Bool := h.id = .ownProcess

/-! ## Getting and letting go -/

variable {σ : Type}

open FileHolders.Action

/-- Lets a handle go. -/
def release (host : Host σ) (h : Held) : Action σ Unit :=
  if h.owned then do
    let status ← host.askClose h.id
    onlyIf (!status.isSuccess)
      (debug s!"NtClose({h.id.render}) failed: {status.message}")
  else pure ()

/-- The answer of a call that may hand out a handle. -/
def ofReply (capability : Capability) (reply : HandleReply) : Except Fault Held :=
  if reply.status.isSuccess then .ok (acquired (reply.handle.getD .zero))
  else .error (.failed capability.entryPoint reply.status)

/-- Opens a process.  The caller itself is never opened: its stand-in is borrowed. -/
def openProcess (host : Host σ) (pid : UInt64) (access : UInt32) :
    Action σ (Except Fault Held) := do
  if pid = host.ownPid then pure (.ok ownProcess)
  else if ← host.provides .openProcess then
    return ofReply .openProcess (← host.askOpen pid access)
  else pure (.error (.missing .openProcess))

/-- Brings a handle of a process into the caller.  A handle of the caller is used in place. -/
def duplicate (host : Host σ) (process : Held) (value : UInt64) :
    Action σ (Except Fault Held) := do
  if process.isOwnProcess then pure (.ok (borrowed (.ofWord value)))
  else if ← host.provides .duplicate then
    return ofReply .duplicate (← host.askDuplicate process.id value)
  else pure (.error (.missing .duplicate))

end Held

end FileHolders
