import FileHolders.Session
import FileHolders.Text.Utf16
import FileHolders.Windows.Platform

/-!
# Entry points found by name

The kernel and heap routines that a search needs are not declared anywhere and may be missing, so
they are looked up by name once, all at a time.  `Platform.host` makes a host out of the routines
that were found: a call whose routine is missing is answered with its own status and reaches nobody.
-/

namespace FileHolders.Windows

/-! ## Lookup -/

/-- A routine that is looked up by name. -/
inductive Routine where
  | kernel (capability : Capability)
  | createHeap
  | allocateHeap
  | freeHeap
  | destroyHeap
deriving DecidableEq, Repr

namespace Routine

def exportedName : Routine → String
  | kernel capability => capability.entryPoint
  | createHeap => "RtlCreateHeap"
  | allocateHeap => "RtlAllocateHeap"
  | freeHeap => "RtlFreeHeap"
  | destroyHeap => "RtlDestroyHeap"

/-- The routines of the heap, in the order in which they are missed. -/
def ofHeap : List Routine := [createHeap, allocateHeap, freeHeap, destroyHeap]

/-- All routines, in the order in which they are looked up. -/
def all : List Routine := Capability.all.map kernel ++ ofHeap

end Routine

/-- The routines that were found. -/
structure EntryPoints where
  found : List Routine := []
deriving DecidableEq, Repr

namespace EntryPoints

/-- The module that exports the routines. -/
def moduleName : String := "ntdll.dll"

def has (e : EntryPoints) (r : Routine) : Bool := r ∈ e.found

def provides (e : EntryPoints) (c : Capability) : Bool := e.has (.kernel c)

/-- The first heap routine that is missing. -/
def missingHeapRoutine (e : EntryPoints) : Option Routine := Routine.ofHeap.find? (!e.has ·)

variable {σ : Type}

/-- Calls a function of the platform; such calls are not written into the journal. -/
def call {α : Type} (f : StateM σ α) : Action σ α := fun s =>
  let answer := f.run s.host
  (answer.1, { s with host := answer.2 })

/-- Looks every routine up and warns of the kernel calls that are missing. -/
def lookUp (p : Platform σ) : Action σ EntryPoints := do
  match ← call (p.moduleHandle moduleName) with
  | .error e =>
    Action.warn s!"ntdll.dll is not loaded: {e.message}"
    pure {}
  | .ok loaded =>
    let found ← Routine.all.filterM fun r => call (p.findExport loaded r.exportedName)
    let entryPoints : EntryPoints := ⟨found⟩
    Capability.all.forM fun c =>
      Action.onlyIf (!entryPoints.provides c)
        (Action.warn s!"{c.entryPoint} is not available on this system")
    pure entryPoints

/-- The routines that are known already, or else those that are found now. -/
def get (p : Platform σ) (known : Option EntryPoints) : Action σ EntryPoints :=
  match known with
  | some entryPoints => pure entryPoints
  | none => lookUp p

end EntryPoints

/-! ## The host made of them -/

namespace Platform

variable {σ : Type}

/-- The length that a buffer is passed with: its size, as far as 32 bits can tell. -/
def passedLength (b : Block) : UInt32 :=
  if b.size ≤ 0xFFFFFFFF then b.size.toUInt32 else 0xFFFFFFFF

/-- The answer of a query whose routine is missing: nothing is touched. -/
def unansweredQuery (b : Block) : QueryReply where
  status := .procedureNotFound
  length := none
  contents := b.byte

/-- The answer of a call whose routine is missing. -/
def unansweredHandle : HandleReply where
  status := .procedureNotFound
  handle := none

/-- The answer of a routine that was called: a handle that is not given is zero. -/
def answered (r : HandleReply) : HandleReply := { r with handle := some (r.handle.getD .zero) }

/-- The kind of a handle behind its number. -/
def kindOf (fileType : UInt32) : FileKind :=
  if fileType = 1 then .disk
  else if fileType = 2 then .character
  else if fileType = 3 then .pipe
  else if fileType = 0x8000 then .remote
  else .unknown

/-- The units of room for the path of a program. -/
def imageRoom : UInt32 := 32768

/-- A heap that grows and leaves locking to its caller, with 2 MiB reserved and 1 MiB at hand. -/
def heapRequest : HeapRequest := { flags := 0x1 ||| 0x2, reserve := 0x200000, commit := 0x100000 }

/-- Blocks are asked for with zeros in them. -/
def zeroFlag : UInt32 := 0x8

/-- The heap made of the heap routines that were found; all four are needed. -/
def heap (p : Platform σ) (e : EntryPoints) : Heap σ where
  create :=
    match e.missingHeapRoutine with
    | some r => pure (.error (.unavailable r.exportedName))
    | none => do
      if ← p.createHeap heapRequest then pure (.ok ()) else pure (.error .createFailed)
  allocate size := p.allocateHeap zeroFlag size
  release address _ := p.freeHeap 0 address
  destroy := p.destroyHeap

/-- The host made of the routines that were found. -/
def host (p : Platform σ) (e : EntryPoints) : Host σ where
  heap := p.heap e
  ownPid := p.ownPid
  has _ := e.provides
  queryTable infoClass b :=
    if e.provides .queryTable then p.querySystem infoClass b (passedLength b)
    else pure (unansweredQuery b)
  queryObject handle infoClass b :=
    if e.provides .queryObject then p.queryObject handle infoClass b (passedLength b)
    else pure (unansweredQuery b)
  openProcess pid access := do
    if e.provides .openProcess then return answered (← p.openProcess pid access)
    else pure unansweredHandle
  duplicate source value := do
    if e.provides .duplicate then
      return answered (← p.duplicate { source, handle := .ofWord value, target := .ownProcess })
    else pure unansweredHandle
  close handle :=
    if e.provides .close then p.close handle else pure .procedureNotFound
  fileKind handle := do return kindOf (← p.fileType handle)
  imagePath process := do return (← p.imageName process imageRoom).map Utf16.decode

end Platform

end FileHolders.Windows
