import FileHolders.Capability
import FileHolders.Fault
import FileHolders.HandleId
import FileHolders.Memory.Block

/-!
# The machine under a search

A search reaches the machine through a `Host`: five kernel calls that may be missing, two
questions about handles that are always there, and the routines of one private heap.  A host has a
state of its own and may answer whatever it likes; a search is a function of those answers.
-/

namespace FileHolders

/-! ## Answers -/

/-- What kind of thing a handle refers to, as far as the machine tells. -/
inductive FileKind where
  | disk
  | character
  | pipe
  | remote
  | unknown
deriving DecidableEq, Repr

/-- The answer of a query that fills a buffer.  `length` is the size that the kernel reports, if it
reports one; `contents` is what the buffer holds afterwards. -/
structure QueryReply where
  status : Status
  length : Option UInt32
  contents : Nat → UInt8

/-- The answer of a call that may hand out a handle. -/
structure HandleReply where
  status : Status
  handle : Option HandleId

/-! ## Hosts -/

/-- The routines of a private heap.  A block that is refused is `none`. -/
structure Heap (σ : Type) where
  create : StateM σ (Except ArenaFault Unit)
  allocate : (size : UInt64) → StateM σ (Option (Placement size))
  /-- Takes back a block by address and size. -/
  release : UInt64 → UInt64 → StateM σ Unit
  /-- Gives up the whole heap and tells whether that worked. -/
  destroy : StateM σ Bool

/-- A machine with states in `σ`. -/
structure Host (σ : Type) where
  heap : Heap σ
  /-- The process id of the caller. -/
  ownPid : UInt64
  /-- Whether an entry point is there. -/
  has : σ → Capability → Bool
  /-- Fills a buffer with a table of the given class. -/
  queryTable : UInt32 → Block → StateM σ QueryReply
  /-- Fills a buffer with facts of the given class about a handle of the caller. -/
  queryObject : HandleId → UInt32 → Block → StateM σ QueryReply
  /-- Opens a process by id with the given rights. -/
  openProcess : UInt64 → UInt32 → StateM σ HandleReply
  /-- Brings a handle of an open process into the caller. -/
  duplicate : HandleId → UInt64 → StateM σ HandleReply
  close : HandleId → StateM σ Status
  fileKind : HandleId → StateM σ FileKind
  /-- The path of the program that an open process runs. -/
  imagePath : HandleId → StateM σ (Option String)

/-- A heap on top of an ordinary allocator.  Blocks are laid out in steps of 16 bytes, so a size
that reaches 2^63 when rounded up is refused without asking. -/
def Heap.general {σ : Type} (allocate : UInt64 → StateM σ (Option UInt64)) : Heap σ where
  create := pure (.ok ())
  allocate size :=
    if h : size.toNat + 15 < 0x8000000000000000 then do
      let address ← allocate size
      pure (address.map fun a => { address := a, small := by omega })
    else pure none
  release _ _ := pure ()
  destroy := pure true

end FileHolders
