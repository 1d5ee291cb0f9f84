import FileHolders.Host

/-!
# Windows functions

The functions of Windows that a search on a live system goes through, as a seam: routines that are
found by name in a loaded module and may be missing, and functions that are always there.  As with a
host, a platform has a state of its own and may answer whatever it likes.
-/

namespace FileHolders.Windows

/-! ## Errors -/

/-- The code with which a function of Windows fails. -/
structure ErrorCode where
  code : UInt32
deriving DecidableEq, Repr

namespace ErrorCode

/-- A privilege that was asked for is not held at all. -/
def notAllAssigned : ErrorCode := ⟨1300⟩

/-- The code as a result of the general kind: marked as a failure of the system's own functions,
with the low 16 bits of the code. -/
def result (e : ErrorCode) : UInt32 := 0x80070000 ||| (e.code &&& 0xFFFF)

/-- The text of an error: its result in eight hexadecimal digits. -/
def message (e : ErrorCode) : String :=
  "0x" ++ (Text.hexPadded 8 e.result.toNat).map Char.toUpper

end ErrorCode

/-! ## Arguments and answers -/

/-- The name of a privilege inside the system. -/
structure PrivilegeId where
  low : UInt32
  high : Int32
deriving DecidableEq, Repr

/-- What duplicating a handle is asked with. -/
structure DuplicateRequest where
  source : HandleId
  handle : HandleId
  target : HandleId
  access : UInt32 := 0
  attributes : UInt32 := 0
  options : UInt32 := 0
deriving DecidableEq, Repr

/-- What creating a heap is asked with. -/
structure HeapRequest where
  flags : UInt32
  reserve : UInt64
  commit : UInt64
deriving DecidableEq, Repr

/-- What changing the privileges of a token is asked with. -/
structure PrivilegeRequest where
  disableAll : Bool := false
  privileges : List (PrivilegeId × UInt32)
deriving DecidableEq, Repr

/-! ## Platforms -/

/-- The functions of Windows, with states in `σ`. -/
structure Platform (σ : Type) where
  /-- The process id of the caller. -/
  ownPid : UInt64
  /-- Finds a loaded module. -/
  moduleHandle : String → StateM σ (Except ErrorCode HandleId)
  /-- Looks for an exported routine in a module. -/
  findExport : HandleId → String → StateM σ Bool
  /-- Fills a buffer of the given length with a system table. -/
  querySystem : UInt32 → Block → UInt32 → StateM σ QueryReply
  /-- Fills a buffer of the given length with facts about a handle. -/
  queryObject : HandleId → UInt32 → Block → UInt32 → StateM σ QueryReply
  openProcess : UInt64 → UInt32 → StateM σ HandleReply
  duplicate : DuplicateRequest → StateM σ HandleReply
  close : HandleId → StateM σ Status
  createHeap : HeapRequest → StateM σ Bool
  /-- Asks the heap, with flags, for a block. -/
  allocateHeap : UInt32 → (size : UInt64) → StateM σ (Option (Placement size))
  /-- Gives back the block at an address, with flags. -/
  freeHeap : UInt32 → UInt64 → StateM σ Unit
  destroyHeap : StateM σ Bool
  /-- The number that stands for the kind of a handle. -/
  fileType : HandleId → StateM σ UInt32
  /-- The path of the program behind a process, if it fits into a buffer of that many units. -/
  imageName : HandleId → UInt32 → StateM σ (Option (List UInt16))
  /-- Opens the token of a process with the given rights. -/
  openToken : HandleId → UInt32 → StateM σ (Except ErrorCode HandleId)
  /-- Asks a token for a number of the given class, into a buffer of the given length. -/
  tokenInformation : HandleId → UInt32 → UInt32 → StateM σ (Except ErrorCode UInt32)
  lookupPrivilege : String → StateM σ (Except ErrorCode PrivilegeId)
  adjustPrivileges : HandleId → PrivilegeRequest → StateM σ (Except ErrorCode Unit)
  lastError : StateM σ ErrorCode
  closeToken : HandleId → StateM σ Unit
  /-- Asks for the devices behind a name of the old style, into a buffer of that many units.  Gives
  the count of units and what was written at the start of the buffer. -/
  dosDevice : String → UInt32 → StateM σ (UInt32 × List UInt16)

end FileHolders.Windows
