import FileHolders.Session
import FileHolders.Text.Terminal

/-!
# The command line

A command names one path or drive and may set flags.  `Arguments.parse` reads it; `Command.perform`
does what every command does around its work: it refuses what it cannot read, says that it starts,
and turns the result into what is printed and an exit code.
-/

namespace FileHolders

/-! ## Arguments -/

/-- What a command line asks for. -/
structure Arguments where
  target : String
  partialMatch : Bool := false
  includeSelf : Bool := false
  json : Bool := false
  verbose : Bool := false
deriving DecidableEq, Repr

/-- Why a command line is refused. -/
inductive ArgumentFault where
  | helpAsked
  | unknownOption (option : String)
  | secondPath
  | noPath
deriving DecidableEq, Repr

namespace Arguments

def usage : String :=
  "usage: locksleuth <PATH | DRIVE:> [--partial] [--include-self] [--json] [--verbose]"

end Arguments

/-- The wording of a refusal. -/
def ArgumentFault.message : ArgumentFault → String
  | helpAsked => Arguments.usage
  | unknownOption option => s!"unknown option {option}\n{Arguments.usage}"
  | secondPath => s!"only one path may be given\n{Arguments.usage}"
  | noPath => Arguments.usage

namespace Arguments

/-- What one word of a command line is. -/
inductive Word where
  | partialFlag
  | includeSelfFlag
  | jsonFlag
  | verboseFlag
  | help
  | unknown
  | path
deriving DecidableEq, Repr

/-- Words that begin with two dashes are options, and so are two words with one dash. -/
def Word.of (word : String) : Word :=
  if word = "--partial" then partialFlag
  else if word = "--include-self" then includeSelfFlag
  else if word = "--json" then jsonFlag
  else if word = "--verbose" ∨ word = "-v" then verboseFlag
  else if word = "--help" ∨ word = "-h" then help
  else if "--".toList.isPrefixOf word.toList then unknown
  else path

/-- What was read so far: the flags, and the path once there is one. -/
structure Reading where
  path : Option String := none
  partialMatch : Bool := false
  includeSelf : Bool := false
  json : Bool := false
  verbose : Bool := false
deriving DecidableEq, Repr

/-- Reads one more word. -/
def Reading.add (r : Reading) (word : String) : Except ArgumentFault Reading :=
  match Word.of word with
  | .partialFlag => .ok { r with partialMatch := true }
  | .includeSelfFlag => .ok { r with includeSelf := true }
  | .jsonFlag => .ok { r with json := true }
  | .verboseFlag => .ok { r with verbose := true }
  | .help => .error .helpAsked
  | .unknown => .error (.unknownOption word)
  | .path => if r.path.isSome then .error .secondPath else .ok { r with path := some word }

/-- What the words ask for, if a path was among them. -/
def Reading.finish (r : Reading) : Except ArgumentFault Arguments :=
  match r.path with
  | none => .error .noPath
  | some target =>
    .ok {
      target
      partialMatch := r.partialMatch
      includeSelf := r.includeSelf
      json := r.json
      verbose := r.verbose }

/-- Reads the words of a command line in order; the first one that is refused decides. -/
def parse (words : List String) : Except ArgumentFault Arguments :=
  words.foldlM Reading.add {} >>= Reading.finish

end Arguments

/-! ## Around the work -/

/-- How a command ends. -/
structure Ending where
  exitCode : Nat
  /-- The lines printed. -/
  output : List String := []
  /-- What is said on the error channel. -/
  error : Option String := none
  /-- The log messages that the chosen verbosity shows, as they are written to a terminal. -/
  log : List LogEntry := []
deriving DecidableEq, Repr

/-- What the work of a command gives: lines to print, and whether a holder was found. -/
structure Work where
  output : List String := []
  result : Except String Bool

/-- Whether messages of a level are shown. -/
def Level.isShown (verbose : Bool) : Level → Bool
  | error => true
  | warn => true
  | info => true
  | debug => verbose
  | trace => false

namespace Command

variable {σ : Type}

/-- Writes a message of the command into the log. -/
def say (level : Level) (message : String) : Action σ Unit :=
  modify fun s => { s with log := s.log.push { speaker := .command, level, message } }

/-- A message as it is written to a terminal. -/
def onTerminal (entry : LogEntry) : LogEntry := { entry with message := Text.disarm entry.message }

/-- Performs a command: reads the words, does the work and ends. -/
def perform (work : Arguments → Action σ Work) (words : List String) : Action σ Ending := do
  match Arguments.parse words with
  | .error fault => pure { exitCode := 1, error := some fault.message }
  | .ok arguments =>
    say .info "LockSleuth starting"
    let done ← work arguments
    let shown := (← get).log.toList.filter fun entry => entry.level.isShown arguments.verbose
    let log := shown.map onTerminal
    match done.result with
    | .ok found => pure { exitCode := if found then 0 else 1, output := done.output, log }
    | .error message => pure { exitCode := 1, output := done.output, error := some message, log }

/-- What a command says on a machine without a handle table to read. -/
def unsupportedMessage : String :=
  "LockSleuth inspects the Windows handle table and only runs on Windows"

/-- The work of a command on a machine without a handle table to read. -/
def unsupported (_ : Arguments) : Action σ Work :=
  pure { result := .error unsupportedMessage }

end Command

end FileHolders
