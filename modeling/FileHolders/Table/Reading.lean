import FileHolders.Memory.Arena
import FileHolders.Settings
import FileHolders.Table

/-!
# Reading the handle table

The size of the table is not known beforehand.  The first buffer has the size that the last reading
needed; as long as the kernel finds the buffer too short it is exchanged for one of twice the size,
up to a ceiling.  The short buffer goes back before the larger one is asked for.

Every round doubles a size below 2^63, so the sizes grow and the rounds end.
-/

namespace FileHolders

namespace Table

variable {σ : Type}

open FileHolders.Action

/-! ## The first guess -/

/-- The guess after a reading took `size` bytes: sizes above the ceiling are not kept. -/
def nextGuess (guess size ceiling : UInt64) : UInt64 :=
  if size ≤ ceiling then size else guess

/-- Keeps a size as the first guess of the next reading. -/
def remember (size ceiling : UInt64) : Action σ Unit :=
  modify fun s => { s with guess := nextGuess s.guess size ceiling }

/-! ## Rounds -/

/-- The size of a block that was granted for twice the size of another is larger. -/
theorem size_lt_granted_double (b : Block) :
    b.size.toNat < (Arena.granted (Word.double b.size)).toNat := by
  have h := b.small
  have hs := Word.size_eq
  rw [Arena.toNat_granted, Word.toNat_double]
  omega

/-- Queries into a block, and into larger blocks as long as the kernel asks for more. -/
def fill (h : Host σ) (settings : Settings) (block : Block) : Action σ (Except Fault Block) := do
  let reply ← h.askTable infoClass block
  match reply.status.kind with
  | .success => pure (.ok (block.withContents reply.contents))
  | .bufferTooSmall =>
    Arena.free h.heap block
    if settings.tableCeiling < Word.double block.size then
      warn (s!"handle table would need {Word.double block.size} bytes, over the " ++
        s!"{settings.tableCeiling} byte ceiling")
      pure (.error (.overCeiling (Word.double block.size) settings.tableCeiling))
    else
      debug s!"growing handle table buffer to {Word.double block.size} bytes"
      match ← Arena.allocate h.heap (Word.double block.size) with
      | none => pure (.error (.outOfMemory (Word.double block.size)))
      | some ⟨larger, _⟩ => fill h settings larger
  | _ =>
    Arena.free h.heap block
    pure (.error (.failed Capability.queryTable.entryPoint reply.status))
termination_by UInt64.size - block.size.toNat
decreasing_by
  rename_i hsize
  have hlt := size_lt_granted_double block
  have hle := (Arena.granted (Word.double block.size)).toNat_lt_size
  rw [hsize]
  omega

/-! ## The reading -/

/-- Reads the table of all open handles.  The table's block is left for the caller to free. -/
def read (h : Host σ) (settings : Settings) : Action σ (Except Fault Table) := do
  if ← h.provides .queryTable then
    let first := max (← get).guess 1
    match ← Arena.allocate h.heap first with
    | none => pure (.error (.outOfMemory first))
    | some ⟨block, _⟩ =>
      match ← fill h settings block with
      | .error fault => pure (.error fault)
      | .ok filled =>
        let table : Table := ⟨filled⟩
        remember filled.size settings.guessCeiling
        debug s!"handle table: {table.size} entries in a {filled.size} byte buffer"
        pure (.ok table)
  else pure (.error (.missing .queryTable))

end Table

end FileHolders
