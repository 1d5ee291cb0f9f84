import FileHolders.Session
import FileHolders.Simulation.Machine
import FileHolders.Windows.Platform

/-!
# A Windows system in memory

A platform on top of a machine in memory.  Functions can be set up to fail, exports to be missing
and the heap to be small; every call is written down.
-/

namespace FileHolders.Simulation

open FileHolders.Windows

/-! ## What is set up -/

/-- The devices behind a drive. -/
inductive Drive where
  /-- One device, followed by its end mark and the end mark of the list. -/
  | device (units : List UInt16)
  /-- Units repeated until the buffer is full, without an end mark. -/
  | repeated (units : List UInt16)

/-- What a system is set up with; an error makes the call of its name fail. -/
structure SystemSetup where
  moduleError : Option ErrorCode := none
  missingExports : List String := []
  heapRefused : Bool := false
  /-- How many bytes the heap hands out at a time. -/
  heapLimit : UInt64 := 0x10000000
  openError : Option ErrorCode := none
  informationError : Option ErrorCode := none
  lookupError : Option ErrorCode := none
  adjustError : Option ErrorCode := none
  elevation : UInt32 := 0
  lastError : ErrorCode := ⟨0⟩
  drive? : String → Option Drive := fun _ => none

/-! ## States -/

/-- A call of a function of the system. -/
inductive SystemCall where
  /-- A call that reached the machine. -/
  | machine (event : Event)
  | findModule (name : String)
  | findExport (name : String) (found : Bool)
  | createHeap (request : HeapRequest) (created : Bool)
  | allocateHeap (flags : UInt32) (size : UInt64) (granted : Bool)
  | freeHeap (flags : UInt32) (size : UInt64)
  | destroyHeap (destroyed : Bool)
  | openToken (process : HandleId) (access : UInt32)
  | tokenInformation (token : HandleId) (infoClass length : UInt32)
  | lookupPrivilege (name : String)
  | adjustPrivileges (token : HandleId) (request : PrivilegeRequest)
  | closeToken (token : HandleId)
  | dosDevice (name : String) (room count : UInt32)

/-- A system at one moment. -/
structure System where
  machine : Machine := {}
  setup : SystemSetup := {}
  calls : Array SystemCall := #[]
  heapLive : Nat := 0
  /-- The blocks that are out: address and size. -/
  blocks : List (UInt64 × UInt64) := []
  /-- How many attempts to destroy the heap still fail. -/
  destroyFailures : Nat := 0
  tokens : Nat := 0

namespace System

/-! ## Answers -/

def note (call : SystemCall) : StateM System Unit :=
  modify fun s => { s with calls := s.calls.push call }

/-- Lets the machine answer and writes the call down. -/
def onMachine {α : Type} (call : StateM Machine α) (event : α → Event) : StateM System α := do
  let s ← get
  let (a, machine) := call.run s.machine
  set { s with machine, calls := s.calls.push (.machine (event a)) }
  return a

/-- Writes a call down and answers it, unless it was set up to fail. -/
def unlessError {α : Type} (call : SystemCall) (error : SystemSetup → Option ErrorCode)
    (answer : StateM System α) : StateM System (Except ErrorCode α) := do
  note call
  match error (← get).setup with
  | some e => return .error e
  | none => return .ok (← answer)

/-- Grants a block as long as the limit is kept and the memory could hold it. -/
def allocateHeap (flags : UInt32) (size : UInt64) : StateM System (Option (Placement size)) := do
  let s ← get
  if h : Word.addSat s.heapLive.toUInt64 size ≤ s.setup.heapLimit ∧ size < Machine.memorySize then
    let address := s.machine.nextAddress
    set { s with
      machine.nextAddress := address + size + 64
      heapLive := s.heapLive + size.toNat
      blocks := (address, size) :: s.blocks }
    note (.allocateHeap flags size true)
    return some { address, small := Nat.lt_trans (UInt64.lt_iff_toNat_lt.mp h.2) (by decide) }
  else
    note (.allocateHeap flags size false)
    return none

def freeHeap (flags : UInt32) (address : UInt64) : StateM System Unit := do
  let s ← get
  let size := (s.blocks.lookup address).getD 0
  set { s with heapLive := s.heapLive - size.toNat, blocks := s.blocks.filter (·.1 ≠ address) }
  note (.freeHeap flags size)

def destroyHeap : StateM System Bool := do
  let s ← get
  let destroyed := s.destroyFailures == 0
  if destroyed then set { s with heapLive := 0, blocks := [] }
  else set { s with destroyFailures := s.destroyFailures - 1 }
  note (.destroyHeap destroyed)
  return destroyed

/-- What is written into a buffer for a drive, as far as it fits. -/
def Drive.written (room : Nat) : Drive → List UInt16
  | .device units => if units.length + 2 ≤ room then units ++ [0, 0] else []
  | .repeated units =>
    (List.range room).filterMap fun i => units[i % units.length]?

def dosDevice (name : String) (room : UInt32) : StateM System (UInt32 × List UInt16) := do
  let written := (((← get).setup.drive? name).map (Drive.written room.toNat)).getD []
  let count := written.length.toUInt32
  note (.dosDevice name room count)
  return (count, written)

/-- The number that stands for a kind of handle. -/
def kindNumber : FileKind → UInt32
  | .disk => 1
  | .character => 2
  | .pipe => 3
  | .remote => 0x8000
  | .unknown => 0

/-! ## The platform -/

/-- The platform that a system is, with the caller it was set up with. -/
def platform (s : System) : Platform System where
  ownPid := s.machine.setup.ownPid
  moduleHandle name := unlessError (.findModule name) SystemSetup.moduleError (pure ⟨0x7000000⟩)
  findExport _ name := do
    let found := name ∉ (← get).setup.missingExports
    note (.findExport name found)
    return found
  querySystem infoClass b length :=
    onMachine (Machine.queryTable infoClass b) fun r =>
      .table infoClass length.toUInt64 r.status
  queryObject h infoClass b length :=
    onMachine (Machine.queryObject h infoClass b) fun r =>
      .object h infoClass length.toUInt64 r.status
  openProcess pid access :=
    onMachine (Machine.openProcess pid access) fun r => .opened pid access r.status r.handle
  duplicate r :=
    onMachine (Machine.duplicate r.source r.handle.toWord) fun reply =>
      .duplicated r.source r.handle.toWord reply.status reply.handle
  close h := onMachine (Machine.close h) fun status => .closed h status
  createHeap request := do
    let created := !(← get).setup.heapRefused
    note (.createHeap request created)
    return created
  allocateHeap := allocateHeap
  freeHeap := freeHeap
  destroyHeap := destroyHeap
  fileType h := do
    return kindNumber (← onMachine (Machine.fileKind h) fun kind => .classified h kind)
  imageName h room :=
    onMachine
      (do return (← Machine.imageUnits h).filter fun units => units.length < room.toNat)
      fun units => .image h (units.map Utf16.decode)
  openToken process access :=
    unlessError (.openToken process access) SystemSetup.openError do
      let s ← get
      set { s with tokens := s.tokens + 1 }
      return .ofWord (0x7004 + 4 * s.tokens).toUInt64
  tokenInformation token infoClass length :=
    unlessError (.tokenInformation token infoClass length) SystemSetup.informationError do
      return (← get).setup.elevation
  lookupPrivilege name :=
    unlessError (.lookupPrivilege name) SystemSetup.lookupError (pure { low := 20, high := 0 })
  adjustPrivileges token request :=
    unlessError (.adjustPrivileges token request) SystemSetup.adjustError (pure ())
  lastError := do return (← get).setup.lastError
  closeToken token := note (.closeToken token)
  dosDevice := dosDevice

end System

end FileHolders.Simulation
