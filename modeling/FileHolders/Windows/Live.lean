import FileHolders.Command
import FileHolders.Text.Quoted
import FileHolders.Windows.Token
import FileHolders.Windows.Volume
import FileHolders.Worker

/-!
# Searching a live system

The work of a command on Windows: ask for the rights that help, turn the argument into a kernel
name, run the search on its thread, and print what the thread sends.
-/

namespace FileHolders.Windows

/-- What a clock tells about a search that is over. -/
structure Timing where
  startedAt : String
  milliseconds : Nat
deriving DecidableEq, Repr

namespace Platform

variable {σ : Type}

/-- Runs a search with ordinary settings on the live system, without a thread. -/
def search (p : Platform σ) (known : EntryPoints) (text : String) (options : Options) :
    Action σ Outcome :=
  Search.run { host := p.host known, text, options }

/-! ## The receiving side -/

/-- The message about a holder in the log of the command. -/
def holderMessage (h : Holder) : String :=
  s!"holder: pid {h.pid} ({Text.quoteOption h.imagePath})"

/-- The lines to print for the messages of a search. -/
def printedLines (json : Bool) (timing : Timing) (messages : List Message) : List String :=
  messages.flatMap fun message =>
    match message with
    | .line text => if json then [] else [text]
    | .holder _ => []
    | .complete outcome =>
      if json then [(outcome.toJson timing.startedAt timing.milliseconds).pretty] else []

/-- The outcome among the messages of a search. -/
def outcomeOf (messages : List Message) : Option Outcome :=
  messages.findSome? fun message =>
    match message with
    | .complete outcome => some outcome
    | _ => none

/-- Logs the holders among the messages of a search. -/
def logHolders : List Message → Action σ Unit
  | [] => pure ()
  | .holder h :: rest => do
    Command.say .debug (holderMessage h)
    logHolders rest
  | _ :: rest => logHolders rest

/-! ## The work of a command -/

/-- Asks for the rights that help a search and says which are missing. -/
def prepareRights (p : Platform σ) : Action σ Unit := do
  let elevated ← p.isElevated
  Action.onlyIf (!elevated)
    (Command.say .warn "Not running elevated: processes of other users cannot be inspected")
  match ← p.enableDebugPrivilege with
  | .ok () => Command.say .debug "SeDebugPrivilege enabled"
  | .error e => Command.say .debug s!"Could not enable SeDebugPrivilege: {e.message}"

/-- The work of a command. -/
def work (p : Platform σ) (timing : Timing) (a : Arguments) : Action σ Work := do
  p.prepareRights
  match ← p.resolve a.target with
  | .error fault => pure { result := .error fault.message }
  | .ok destination =>
    let known ← EntryPoints.lookUp p
    let options : Options :=
      { partialMatch := a.partialMatch
        wholeVolume := destination.wholeDrive
        ignoreSelf := !a.includeSelf }
    let todo ← Worker.runThread { host := p.host known, text := destination.name, options }
    let messages := (Worker.Exchange.drain { todo }).received
    logHolders messages
    let output := printedLines a.json timing messages
    match outcomeOf messages with
    | none => pure { output, result := .error "search thread exited without a result" }
    | some outcome => pure { output, result := .ok outcome.found }

/-- A command on Windows. -/
def command (p : Platform σ) (timing : Timing) (words : List String) : Action σ Ending :=
  Command.perform (p.work timing) words

end Platform

end FileHolders.Windows
