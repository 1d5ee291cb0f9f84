import FileHolders.Holder
import FileHolders.Host

/-!
# Sessions

A session is everything that a search changes: the state of the host, the arena's counts, the next
first guess at the size of the handle table, a log of messages and a journal of events.  The
journal is written where the host is called, so it holds exactly the calls that were made, in their
order and with the answers they got.

    (journaled call event).run s = (a, { s with host, journal := s.journal.push (event a) })
      where (a, host) = call.run s.host                                      (run_journaled)
-/

namespace FileHolders

/-! ## Journal and log -/

/-- What happens in a session, seen from outside. -/
inductive Event where
  /-- A table query into a buffer of the given size. -/
  | table (infoClass : UInt32) (size : UInt64) (status : Status)
  /-- An object query about a handle into a buffer of the given size. -/
  | object (handle : HandleId) (infoClass : UInt32) (size : UInt64) (status : Status)
  | opened (pid : UInt64) (access : UInt32) (status : Status) (handle : Option HandleId)
  | duplicated (source : HandleId) (value : UInt64) (status : Status) (handle : Option HandleId)
  | closed (handle : HandleId) (status : Status)
  | classified (handle : HandleId) (kind : FileKind)
  | image (handle : HandleId) (path : Option String)
  | heapCreated (created : Bool)
  /-- The heap was asked for a block; a block that was granted has an address. -/
  | allocated (size : UInt64) (address : Option UInt64)
  | released (address size : UInt64)
  | heapDestroyed (destroyed : Bool)
  /-- The search turned to a record of the handle table. -/
  | record (pid handleValue : UInt64) (grantedAccess : UInt32)
  /-- The search asked whether it was cancelled. -/
  | polled (cancelled : Bool)
  /-- The name of a handle was read. -/
  | named (handle : HandleId) (units : List UInt16)
  /-- A line was sent to the report. -/
  | line (text : String)
  /-- A holder was reported. -/
  | holder (holder : Holder)
deriving DecidableEq, Repr

/-- How much a log message matters. -/
inductive Level where
  | error
  | warn
  | info
  | debug
  | trace
deriving DecidableEq, Repr

/-- Who speaks in the log: the library, or the command around it. -/
inductive Speaker where
  | library
  | command
deriving DecidableEq, Repr

/-- One message of the log. -/
structure LogEntry where
  speaker : Speaker := .library
  level : Level
  message : String
deriving DecidableEq, Repr

/-! ## Sessions -/

/-- What an arena has handed out. -/
structure Arena where
  /-- How many bytes may be handed out at a time. -/
  limit : Option UInt64 := none
  blocks : UInt64 := 0
  bytes : UInt64 := 0
  /-- The heap behind the arena was given back. -/
  closed : Bool := false
deriving DecidableEq, Repr

/-- Everything that a search changes. -/
structure Session (σ : Type) where
  host : σ
  arena : Arena := {}
  /-- The first guess of the next table query. -/
  guess : UInt64 := 0
  journal : Array Event := #[]
  log : Array LogEntry := #[]

/-- A computation that changes a session. -/
abbrev Action (σ : Type) := StateM (Session σ)

namespace Action

variable {σ α : Type}

/-- Writes an event into the journal. -/
def note (event : Event) : Action σ Unit :=
  modify fun s => { s with journal := s.journal.push event }

/-- Calls the host and writes the call down. -/
def journaled (call : StateM σ α) (event : α → Event) : Action σ α := fun s =>
  let answer := call.run s.host
  (answer.1, { s with host := answer.2, journal := s.journal.push (event answer.1) })

/-- Writes a message into the log. -/
def say (level : Level) (message : String) : Action σ Unit :=
  modify fun s => { s with log := s.log.push { level, message } }

def warn (message : String) : Action σ Unit := say .warn message
def info (message : String) : Action σ Unit := say .info message
def debug (message : String) : Action σ Unit := say .debug message
def trace (message : String) : Action σ Unit := say .trace message

/-- Does something only under a condition. -/
def onlyIf (condition : Bool) (action : Action σ Unit) : Action σ Unit :=
  if condition then action else pure ()

/-- Changes the arena's counts. -/
def modifyArena (f : Arena → Arena) : Action σ Unit :=
  modify fun s => { s with arena := f s.arena }

theorem run_journaled (call : StateM σ α) (event : α → Event) (s : Session σ) :
    (journaled call event).run s =
      ((call.run s.host).1,
        { s with
          host := (call.run s.host).2
          journal := s.journal.push (event (call.run s.host).1) }) := rfl

end Action

/-! ## Recorded calls -/

namespace Host

variable {σ : Type}

/-- Whether an entry point is there now. -/
def provides (h : Host σ) (c : Capability) : Action σ Bool :=
  return h.has (← get).host c

def askTable (h : Host σ) (infoClass : UInt32) (b : Block) : Action σ QueryReply :=
  Action.journaled (h.queryTable infoClass b) fun r => .table infoClass b.size r.status

def askObject (h : Host σ) (handle : HandleId) (infoClass : UInt32) (b : Block) :
    Action σ QueryReply :=
  Action.journaled (h.queryObject handle infoClass b) fun r =>
    .object handle infoClass b.size r.status

def askOpen (h : Host σ) (pid : UInt64) (access : UInt32) : Action σ HandleReply :=
  Action.journaled (h.openProcess pid access) fun r => .opened pid access r.status r.handle

def askDuplicate (h : Host σ) (source : HandleId) (value : UInt64) : Action σ HandleReply :=
  Action.journaled (h.duplicate source value) fun r => .duplicated source value r.status r.handle

def askClose (h : Host σ) (handle : HandleId) : Action σ Status :=
  Action.journaled (h.close handle) fun status => .closed handle status

def askKind (h : Host σ) (handle : HandleId) : Action σ FileKind :=
  Action.journaled (h.fileKind handle) fun kind => .classified handle kind

def askImage (h : Host σ) (handle : HandleId) : Action σ (Option String) :=
  Action.journaled (h.imagePath handle) fun path => .image handle path

end Host

end FileHolders
