import FileHolders.Host
import FileHolders.Name
import FileHolders.Table

/-!
# A machine in memory

A host whose processes and open handles are given as a list, for running searches without a real
machine.  What it answers can be set for each process and each object: the statuses of successive
openings, the answers to successive name queries, the answers to successive table queries.  Apart
from what is set, the machine behaves as documented: the table and the names are written in their
layouts, and a buffer that is too short is refused with the size that is needed.

Handles that are handed out are live until they are closed.  A handle that is not live stands for
the caller's own handle of that value.
-/

namespace FileHolders.Simulation

/-! ## What is set up -/

/-- A process. -/
structure ProcessEntry where
  pid : UInt64
  image : Option (List UInt16) := none
  /-- The statuses of the first, the second, … opening; the last one repeats. -/
  openings : List Status := []
  /-- The handle that an opening hands out, if it is not the next free one. -/
  forced : Option HandleId := none

/-- The fields of a name's header, with the text's place relative to the buffer. -/
structure NameHeader where
  length : UInt16
  room : UInt16
  /-- Where the header says that the text is; without it the address is zero. -/
  pointedAt : Option Int
  /-- Where the text is. -/
  textAt : Nat
  units : List UInt16

/-- How a name query is answered. -/
inductive NameAnswer where
  /-- The object has no name. -/
  | unnamed
  /-- The object has a name.  A buffer that is too short is refused with the given status and, if
  set, a length other than the one that is needed. -/
  | named (units : List UInt16) (short : Status) (shortLength : Option UInt32)
  /-- A fixed answer, whatever the buffer. -/
  | fixed (status : Status) (length : UInt32) (header : Option NameHeader)

/-- An open handle of a process: a record of the table and the object behind it. -/
structure HandleEntry where
  pid : UInt64
  value : UInt64
  access : UInt32 := 0
  kind : FileKind := .disk
  /-- The status of bringing it into the caller. -/
  duplication : Status := .success
  forced : Option HandleId := none
  /-- There is a record of it, but nothing behind the record any more. -/
  gone : Bool := false
  /-- The answers to the first, the second, … name query; the last one repeats. -/
  names : List NameAnswer := []

/-- A fixed answer to a table query. -/
structure TableAnswer where
  status : Status
  length : UInt32
  /-- What is written at the start of the buffer. -/
  words : List UInt64

/-- What a machine is set up with. -/
structure Setup where
  ownPid : UInt64 := 100
  missing : List Capability := []
  processes : List ProcessEntry := []
  objects : List HandleEntry := []
  /-- The number of records that the table claims, if it is not the right one. -/
  claimed : Option UInt64 := none
  /-- The answers to the first, the second, … table query, where they are set. -/
  tables : List (Option TableAnswer) := []
  /-- The status of closing a live handle. -/
  closing : Status := .success

/-! ## States -/

/-- What a live handle refers to. -/
inductive Referent where
  | process (pid : UInt64)
  | object (pid value : UInt64)

/-- A machine at one moment. -/
structure Machine where
  setup : Setup := {}
  live : List (HandleId × Referent) := []
  /-- How many free handles were handed out. -/
  issued : Nat := 0
  /-- How often each id was asked for, whether or not a process has it. -/
  openings : List (UInt64 × Nat) := []
  nameQueries : List ((UInt64 × UInt64) × Nat) := []
  tableQueries : Nat := 0
  /-- Where the next block will lie. -/
  nextAddress : UInt64 := 0x100000

namespace Machine

/-- The process of an id; the last one that is set up counts. -/
def process? (m : Machine) (pid : UInt64) : Option ProcessEntry :=
  m.setup.processes.reverse.find? (·.pid = pid)

/-- The object behind a handle of a process; the last one that is set up counts. -/
def object? (m : Machine) (pid value : UInt64) : Option HandleEntry :=
  m.setup.objects.reverse.find? fun o => o.pid = pid && o.value = value && !o.gone

def referent? (m : Machine) (h : HandleId) : Option Referent := m.live.lookup h

/-- The process and the handle value that a handle of the caller stands for. -/
def place? (m : Machine) (h : HandleId) : Option (UInt64 × UInt64) :=
  match m.referent? h with
  | some (.object pid value) => some (pid, value)
  | some (.process _) => none
  | none => some (m.setup.ownPid, h.toWord)

/-- The records of the handle table. -/
def records (m : Machine) : List Record :=
  m.setup.objects.map fun o =>
    { pid := o.pid, handleValue := o.value, grantedAccess := o.access }

/-- The element of a list at an index, or the last one. -/
def atOrLast {α : Type} (items : List α) (index : Nat) : Option α :=
  items[min index (items.length - 1)]?

/-! ## Answers -/

/-- Hands out a handle. -/
def issue (forced : Option HandleId) (referent : Referent) : StateM Machine HandleId := do
  let m ← get
  let issued := if forced.isSome then m.issued else m.issued + 1
  let h := forced.getD (.ofWord (0x1000 + 4 * issued).toUInt64)
  let live := if h = .ownProcess then m.live else (h, referent) :: m.live.filter (·.1 ≠ h)
  set { m with live, issued }
  return h

def queryTable (_ : UInt32) (b : Block) : StateM Machine QueryReply := do
  let m ← get
  set { m with tableQueries := m.tableQueries + 1 }
  match m.setup.tables[m.tableQueries]?.join with
  | some a =>
    let bytes := a.words.flatMap fun w => littleEndian 8 w.toNat
    return { status := a.status, length := some a.length, contents := (b.write 0 bytes).byte }
  | none =>
    let needed := Table.sizeFor m.records.length
    let length := some needed.toUInt32
    if b.size.toNat < needed then
      return { status := .lengthMismatch, length, contents := b.byte }
    else
      let claimed := m.setup.claimed.getD m.records.length.toUInt64
      let contents := (b.write 0 (Table.tableBytes claimed m.records)).byte
      return { status := .success, length, contents }

/-- What a name query does to a buffer. -/
def NameAnswer.reply (a : NameAnswer) (b : Block) : QueryReply :=
  match a with
  | .unnamed => { status := .notSupported, length := none, contents := b.byte }
  | .named units short shortLength =>
    let needed := Name.sizeFor units
    if b.size.toNat < needed then
      { status := short, length := some (shortLength.getD needed.toUInt32), contents := b.byte }
    else
      { status := .success
        length := some needed.toUInt32
        contents := (Name.write b units).byte }
  | .fixed status length none => { status, length := some length, contents := b.byte }
  | .fixed status length (some h) =>
    let pointer := match h.pointedAt with
      | none => 0
      | some offset => ((b.address.toNat + offset) % UInt64.size).toNat.toUInt64
    let headed := b.write 0 (Name.headerBytes h.length h.room pointer)
    { status
      length := some length
      contents := (headed.write h.textAt (Name.unitBytes h.units)).byte }

def queryObject (h : HandleId) (_ : UInt32) (b : Block) : StateM Machine QueryReply := do
  let m ← get
  match m.place? h with
  | none => return { status := .wrongType, length := none, contents := b.byte }
  | some place =>
    let count := (m.nameQueries.lookup place).getD 0
    set { m with nameQueries := (place, count + 1) :: m.nameQueries.filter (·.1 ≠ place) }
    match m.object? place.1 place.2 with
    | none => return { status := .invalidHandle, length := none, contents := b.byte }
    | some o => return NameAnswer.reply ((atOrLast o.names count).getD .unnamed) b

def openProcess (pid : UInt64) (_ : UInt32) : StateM Machine HandleReply := do
  let m ← get
  let count := (m.openings.lookup pid).getD 0
  set { m with openings := (pid, count + 1) :: m.openings.filter (·.1 ≠ pid) }
  match m.process? pid with
  | none => return { status := .invalidParameter, handle := none }
  | some p =>
    let status := (atOrLast p.openings count).getD .success
    if status.isSuccess then return { status, handle := some (← issue p.forced (.process pid)) }
    else return { status, handle := none }

def duplicate (source : HandleId) (value : UInt64) : StateM Machine HandleReply := do
  let m ← get
  match m.referent? source with
  | some (.process pid) =>
    match m.object? pid value with
    | none => return { status := .invalidHandle, handle := none }
    | some o =>
      let status := o.duplication
      if status.isSuccess then
        return { status, handle := some (← issue o.forced (.object pid value)) }
      else return { status, handle := none }
  | _ => return { status := .invalidHandle, handle := none }

def close (h : HandleId) : StateM Machine Status := do
  let m ← get
  if h = .ownProcess then return .success
  else if (m.referent? h).isNone then return .invalidHandle
  else
    set { m with live := m.live.filter (·.1 ≠ h) }
    return m.setup.closing

def fileKind (h : HandleId) : StateM Machine FileKind := do
  let m ← get
  let object := (m.place? h).bind fun place => m.object? place.1 place.2
  return (object.map HandleEntry.kind).getD .unknown

/-- The program that a process runs, in code units. -/
def imageUnits (h : HandleId) : StateM Machine (Option (List UInt16)) := do
  let m ← get
  if h = .ownProcess then return (m.process? m.setup.ownPid).bind ProcessEntry.image
  else
    match m.referent? h with
    | some (.process pid) => return (m.process? pid).bind ProcessEntry.image
    | _ => return none

/-- The size of the memory; a block of this size or more is never granted. -/
def memorySize : UInt64 := 0x1000000000000

/-- Grants blocks that fit into the memory, one after the other. -/
def allocate (size : UInt64) : StateM Machine (Option UInt64) := do
  let m ← get
  if size < memorySize then
    set { m with nextAddress := m.nextAddress + size + 64 }
    return some m.nextAddress
  else return none

/-! ## The host -/

/-- The host that a machine is, with the caller it was set up with. -/
def host (m : Machine) : Host Machine where
  heap := .general allocate
  ownPid := m.setup.ownPid
  has now c := c ∉ now.setup.missing
  queryTable := queryTable
  queryObject := queryObject
  openProcess := openProcess
  duplicate := duplicate
  close := close
  fileKind := fileKind
  imagePath h := do return (← imageUnits h).map Utf16.decode

end Machine

end FileHolders.Simulation
