import FileHolders.Name.Reading
import FileHolders.Outcome
import FileHolders.Owner
import FileHolders.Table.Reading
import FileHolders.Target

/-!
# The search

A search reads the table of all open handles and goes through its records in order.  Where a new
owner begins, the old one is let go, the caller may cancel, and the new one is opened.  Each of an
owner's handles is brought into the caller, and if it is a disk file its name is asked for and
compared with the target.  A match is reported, once for each run of matches of one process.

What fails concerns one owner or one handle and only passes it over.  The search as a whole always
ends with an outcome and a last line in the report.

Two rules keep the machine safe: a name is only asked for on handles that are disk files, since the
question may never be answered for others; and every handle that was handed out is let go before the
next record of another owner is looked at.
-/

namespace FileHolders

/-! ## What the caller chooses -/

/-- The caller's choices for one search. -/
structure Options where
  /-- Names that begin with the target match. -/
  partialMatch : Bool := false
  /-- The target is a volume: its device and all below it match.  This goes before
  `partialMatch`. -/
  wholeVolume : Bool := false
  /-- Handles of the caller itself are passed over. -/
  ignoreSelf : Bool := false
deriving DecidableEq, Repr

/-- The rule that the options choose. -/
def Options.coverage (o : Options) : Coverage :=
  if o.wholeVolume then .volume
  else if o.partialMatch then .beginning
  else .exact

/-- A source of cancellation: the answer to each question whether the search is cancelled, counted
from zero. -/
abbrev Cancellation := Nat → Bool

/-- A search that is never cancelled. -/
def Cancellation.never : Cancellation := fun _ => false

/-- One search: where, with which settings, for what, and how. -/
structure Search (σ : Type) where
  host : Host σ
  settings : Settings := {}
  text : String
  options : Options := {}
  cancellation : Cancellation := .never

/-- What a search knows while it goes through the records. -/
structure Progress where
  owner : Owner := .none
  denial : Denial := {}
  /-- The process that was reported last. -/
  lastHolder : Option UInt64 := none
  /-- The line above the holders was sent. -/
  headed : Bool := false
  /-- The line that was sent last. -/
  lastLine : Option String := none
  /-- How often the search asked whether it was cancelled. -/
  polls : Nat := 0
  cancelled : Bool := false
  holders : Array Holder := #[]
  tally : Tally := {}
deriving Repr

/-- What a search ends with.  A cancelled search counts as one that found nobody. -/
def Progress.outcome (p : Progress) : Outcome where
  found := !p.holders.isEmpty && !p.cancelled
  cancelled := p.cancelled
  holders := p.holders.toList
  tally := p.tally

namespace Search

variable {σ : Type}

open FileHolders.Action

/-! ## Lines of the report -/

def headLine (text : String) : String :=
  s!"NOTE: The following process(es) are accessing {text}:"

def foundLine : String :=
  "You should try to close these applications before attempting to reformat the drive."

def notFoundLine (applicationName text : String) : String :=
  s!"NOTE: {applicationName} was not able to identify the process(es) preventing access to {text}"

def unreadableLine (fault : Fault) : String :=
  s!"Warning: Could not enumerate process handles: {fault.message}"

def noBufferLine : String := "Warning: Could not allocate the object name buffer"

/-- Sends a line unless it is the one that was just sent. -/
def send (p : Progress) (text : String) : Action σ Progress :=
  if p.lastLine = some text then pure p
  else do
    note (.line text)
    pure { p with lastLine := some text }

/-! ## One handle -/

/-- Reports a match of a record. -/
def report (s : Search σ) (process : Held) (r : Record) (p : Progress) : Action σ Progress := do
  let p ← if p.headed then pure p else send p (headLine s.text)
  let p := { p with headed := true }
  if p.lastHolder = some r.pid then pure p
  else
    let imagePath ← s.host.askImage process.id
    let holder : Holder :=
      { pid := r.pid, imagePath, handleValue := r.handleValue, grantedAccess := r.grantedAccess }
    debug s!"Process {r.pid} holds handle 0x{Text.hex r.handleValue.toNat}"
    let p ← send p holder.line
    note (.holder holder)
    pure { p with lastHolder := some r.pid, holders := p.holders.push holder }

/-- Looks at a handle that is in the caller's hands.  The name buffer may be exchanged. -/
def examine (s : Search σ) (process handle : Held) (r : Record) (buffer : Block) (p : Progress) :
    Action σ (Block × Progress) := do
  if (← s.host.askKind handle.id) ≠ .disk then pure (buffer, p)
  else
    match ← Name.ask s.host s.settings handle.id buffer with
    | (buffer, .error fault) =>
      debug (s!"Could not query the name of handle 0x{Text.hex r.handleValue.toNat} of process " ++
        s!"{r.pid}: {fault.message}")
      pure (buffer, p)
    | (buffer, .ok name) =>
      let p := { p with tally.named := p.tally.named + 1 }
      if (Target.ofString s.text s.options.coverage).covers name then
        return (buffer, ← s.report process r p)
      else pure (buffer, p)

/-- Brings the handle of a record into the caller, looks at it and lets it go. -/
def inspect (s : Search σ) (process : Held) (r : Record) (buffer : Block) (p : Progress) :
    Action σ (Block × Progress) := do
  match ← Held.duplicate s.host process r.handleValue with
  | .error fault =>
    debug (s!"Could not duplicate handle 0x{Text.hex r.handleValue.toNat} of process " ++
      s!"{r.pid}: {fault.message}")
    pure (buffer, p)
  | .ok handle =>
    let p :=
      if process.isOwnProcess then p
      else { p with tally.duplicated := p.tally.duplicated + 1 }
    let result ← s.examine process handle r buffer p
    handle.release s.host
    pure result

/-! ## One owner -/

/-- Opens the owner of a new run. -/
def openOwner (s : Search σ) (pid : UInt64) (p : Progress) : Action σ Progress := do
  let p := { p with tally.attempts := p.tally.attempts + 1 }
  match ← Held.openProcess s.host pid s.settings.processAccess with
  | .ok process =>
    let owner ← p.owner.replaceOpened s.host pid process
    pure { p with owner, tally.opened := p.tally.opened + 1 }
  | .error fault =>
    debug s!"Could not open process {pid}: {fault.message}"
    let p :=
      if fault.status.kind = .accessDenied then
        { p with denial := p.denial.remember pid, tally.denied := p.tally.denied + 1 }
      else p
    let owner ← p.owner.replaceOutOfReach s.host pid
    pure { p with owner }

/-- Turns to the owner of a record: at the start of a run the owner before is let go, and unless
the search is cancelled or the owner was just denied, the new one is opened. -/
def turnTo (s : Search σ) (pid : UInt64) (p : Progress) : Action σ Progress := do
  if p.owner.startsRun pid then
    let owner ← p.owner.letGo s.host
    let cancelled := s.cancellation p.polls
    note (.polled cancelled)
    let p := { p with owner, polls := p.polls + 1 }
    if cancelled then
      info s!"Search cancelled at process {pid}"
      pure { p with cancelled := true }
    else if p.denial.covers pid then
      let owner ← p.owner.replaceOutOfReach s.host pid
      pure { p with owner }
    else s.openOwner pid p
  else pure p

/-! ## All records -/

/-- Takes one record. -/
def step (s : Search σ) (r : Record) (buffer : Block) (p : Progress) :
    Action σ (Block × Progress) := do
  note (.record r.pid r.handleValue r.grantedAccess)
  let p ← s.turnTo r.pid { p with tally.records := p.tally.records + 1 }
  if p.cancelled then pure (buffer, p)
  else
    match p.owner.process? with
    | none => pure (buffer, p)
    | some process =>
      if s.options.ignoreSelf && process.isOwnProcess then pure (buffer, p)
      else s.inspect process r buffer p

/-- Takes the records one after the other until the search is cancelled. -/
def walk (s : Search σ) : List Record → Block → Progress → Action σ (Block × Progress)
  | [], buffer, p => pure (buffer, p)
  | r :: rest, buffer, p => do
    let (buffer, p) ← s.step r buffer p
    if p.cancelled then pure (buffer, p) else walk s rest buffer p

/-- Goes through a table that was read, with a name buffer of its own. -/
def goThrough (s : Search σ) (table : Table) (p : Progress) : Action σ Progress := do
  match ← Arena.allocate s.host.heap s.settings.nameBufferInitial with
  | none => send p noBufferLine
  | some ⟨buffer, _⟩ =>
    let (buffer, p) ← s.walk table.records buffer p
    let owner ← p.owner.letGo s.host
    Arena.free s.host.heap buffer
    pure { p with owner }

/-- Reads the table and goes through it. -/
def survey (s : Search σ) (p : Progress) : Action σ Progress := do
  match ← Table.read s.host s.settings with
  | .error fault =>
    warn s!"Handle enumeration failed: {fault.message}"
    send p (unreadableLine fault)
  | .ok table =>
    let p ← s.goThrough table p
    Arena.free s.host.heap table.block
    pure p

/-- Surveys the table inside an arena of its own. -/
def surveyInArena (s : Search σ) (p : Progress) : Action σ Progress := do
  match ← Arena.create s.host.heap s.settings.arenaLimit with
  | .error fault =>
    warn s!"Could not create the search arena: {fault.message}"
    send p (unreadableLine (.arena fault))
  | .ok () =>
    let p ← s.survey p
    Arena.warnIfUnreleased (← Arena.destroy s.host.heap)
    pure p

/-! ## The whole -/

/-- The line of the log that a search begins with. -/
def openingMessage (s : Search σ) : String :=
  s!"Searching for processes holding {s.text} (partial: {s.options.partialMatch}, " ++
    s!"whole volume: {s.options.wholeVolume}, ignore self: {s.options.ignoreSelf})"

/-- The line of the log that a search ends with. -/
def closingMessage (o : Outcome) : String :=
  s!"Search finished: {o.holders.length} holder(s), {o.tally.records} records, " ++
    s!"{o.tally.attempts} opens ({o.tally.opened} ok, {o.tally.denied} denied), " ++
    s!"{o.tally.duplicated} duplicated, {o.tally.named} names"

/-- Runs a search.  An empty target is not searched for. -/
def run (s : Search σ) : Action σ Outcome := do
  info s.openingMessage
  let p ←
    if s.text.isEmpty then do
      warn "Empty target path, nothing to search for"
      pure {}
    else s.surveyInArena {}
  let outcome := p.outcome
  let _ ← send p
    (if outcome.found then foundLine else notFoundLine s.settings.applicationName s.text)
  info (closingMessage outcome)
  pure outcome

end Search

end FileHolders
