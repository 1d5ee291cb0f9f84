import FileHolders.Memory.Arena
import FileHolders.Name
import FileHolders.Settings

/-!
# Asking for the name of a handle

Names go into one buffer that is used again for every handle.  If the kernel finds it too short, the
buffer is exchanged for one of the size that the kernel asks for, or of twice the size where that is
no help, and the name is asked for again.  The larger buffer is in hand before the short one is
given back, so there is a buffer whatever happens.

Each round uses up one of a fixed number of attempts.
-/

namespace FileHolders

namespace Name

variable {σ : Type}

open FileHolders.Action

/-- The size to try after a buffer of `size` bytes was too short. -/
def nextSize (size : UInt64) (asked : UInt32) : UInt64 :=
  if size < asked.toUInt64 then asked.toUInt64 else Word.double size

/-- What is asked for where that is more, and twice the size otherwise.  No buffer is so large that
doubling it leaves the range. -/
theorem toNat_nextSize {size : UInt64} (asked : UInt32) (hsmall : size.toNat < 0x8000000000000000) :
    (nextSize size asked).toNat =
      if size.toNat < asked.toNat then asked.toNat else 2 * size.toNat := by
  have hs := Word.size_eq
  unfold nextSize
  simp only [UInt64.lt_iff_toNat_lt, UInt32.toNat_toUInt64]
  split
  · exact UInt32.toNat_toUInt64 _
  · rw [Word.toNat_double]
    omega

/-- Queries with a number of attempts.  Gives the buffer in hand at the end and the last status, or
the size of the block that was refused. -/
def query (h : Host σ) (settings : Settings) (handle : HandleId) :
    Nat → Block → Action σ (Block × Except Fault Status)
  | attempts, buffer => do
    let reply ← h.askObject handle infoClass buffer
    let filled := buffer.withContents reply.contents
    if reply.status.kind ≠ .bufferTooSmall then pure (filled, .ok reply.status)
    else
      match attempts with
      | 0 | 1 => pure (filled, .ok reply.status)
      | rest + 2 =>
        let size := nextSize buffer.size (reply.length.getD 0)
        if settings.nameBufferCeiling < size then
          debug s!"object name for handle {handle.render} needs {size} bytes"
          pure (filled, .ok reply.status)
        else
          debug s!"object name buffer: realloc from {buffer.size} to {size}"
          match ← Arena.allocate h.heap size with
          | none => pure (filled, .error (.outOfMemory size))
          | some ⟨larger, _⟩ =>
            Arena.free h.heap filled
            query h settings handle (rest + 1) larger

/-- Asks for the name of a handle.  Gives the buffer in hand at the end, whatever the answer. -/
def ask (h : Host σ) (settings : Settings) (handle : HandleId) (buffer : Block) :
    Action σ (Block × Except Fault Name) := do
  if ← h.provides .queryObject then
    match ← query h settings handle settings.nameAttempts.toNat buffer with
    | (last, .error fault) => pure (last, .error fault)
    | (last, .ok status) =>
      if status.isSuccess then
        match read last with
        | .error fault => pure (last, .error fault)
        | .ok name =>
          note (.named handle name.units)
          pure (last, .ok name)
      else pure (last, .error (.failed Capability.queryObject.entryPoint status))
  else pure (buffer, .error (.missing .queryObject))

end Name

end FileHolders
