import FileHolders.Session

/-!
# The arena of a search

The large, short-lived buffers of a search come from a private heap that is given back as a whole at
the end.  The arena counts the blocks and the bytes that are out, refuses what would pass its limit,
and hands out zeroed blocks only.  A block of no bytes counts as one of one byte.

A heap that is destroyed without success is asked once more, and never again after a success.
-/

namespace FileHolders

namespace Arena

/-! ## Counts -/

/-- The size that a request takes up. -/
def granted (size : UInt64) : UInt64 := max size 1

/-- The limit that a block of `size` bytes would pass, if any. -/
def limitPassed (a : Arena) (size : UInt64) : Option UInt64 :=
  a.limit.filter fun limit => limit < Word.addSat a.bytes size

/-- The counts after a block was handed out. -/
def take (a : Arena) (size : UInt64) : Arena :=
  { a with blocks := a.blocks + 1, bytes := a.bytes + size }

/-- The counts after a block came back. -/
def giveBack (a : Arena) (size : UInt64) : Arena :=
  { a with blocks := a.blocks - 1, bytes := a.bytes - size }

/-- The text of a limit in logs. -/
def limitText : Option UInt64 → String
  | none => "None"
  | some limit => s!"Some({limit})"

/-! ## Actions -/

variable {σ : Type}

open FileHolders.Action

/-- Starts an arena on a new heap. -/
def create (heap : Heap σ) (limit : Option UInt64) : Action σ (Except ArenaFault Unit) := do
  match ← journaled heap.create fun r => .heapCreated r.isOk with
  | .error fault => pure (.error fault)
  | .ok () =>
    debug s!"search arena created (limit: {limitText limit})"
    modifyArena fun _ => { limit }
    pure (.ok ())

/-- Hands out a zeroed block, or nothing where the limit or the heap refuses. -/
def allocate (heap : Heap σ) (size : UInt64) :
    Action σ (Option { b : Block // b.size = granted size }) := do
  let arena := (← get).arena
  match arena.limitPassed (granted size) with
  | some limit =>
    debug s!"arena limit reached: {arena.bytes} live + {granted size} requested > {limit}"
    pure none
  | none =>
    if arena.closed then pure none
    else
      match ← journaled (heap.allocate (granted size)) fun p =>
          .allocated (granted size) (p.map Placement.address) with
      | none => pure none
      | some place =>
        modifyArena (·.take (granted size))
        pure (some ⟨Block.zeroed place, rfl⟩)

/-- Takes a block back. -/
def free (heap : Heap σ) (b : Block) : Action σ Unit := do
  let arena := (← get).arena
  onlyIf (!arena.closed) (journaled (heap.release b.address b.size) fun _ =>
    .released b.address b.size)
  modifyArena (·.giveBack b.size)

/-- Gives the heap back unless that was done before. -/
def close (heap : Heap σ) : Action σ (Except ArenaFault Unit) := do
  let arena := (← get).arena
  onlyIf (arena.blocks ≠ 0)
    (warn s!"destroying search arena with {arena.blocks} live block(s)")
  if arena.closed then pure (.ok ())
  else if ← journaled heap.destroy .heapDestroyed then
    modifyArena fun a => { a with closed := true }
    pure (.ok ())
  else pure (.error .destroyFailed)

/-- Says that a heap could not be given back. -/
def warnIfUnreleased : Except ArenaFault Unit → Action σ Unit
  | .ok () => pure ()
  | .error fault => warn s!"Could not release the search arena: {fault.message}"

/-- Ends the arena.  The answer is that of the first attempt; a failure is tried once more. -/
def destroy (heap : Heap σ) : Action σ (Except ArenaFault Unit) := do
  let first ← close heap
  warnIfUnreleased (← close heap)
  pure first

/-! ## Lemmas -/

theorem toNat_granted (size : UInt64) : (granted size).toNat = max size.toNat 1 := by
  rw [granted, Word.toNat_max]
  rfl

end Arena

end FileHolders
