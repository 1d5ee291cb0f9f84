import FileHolders.Command

/-!
# The command line program
-/

namespace FileHolders

/-- The name of a level in the log. -/
def Level.text : Level → String
  | error => "ERROR"
  | warn => "WARN"
  | info => "INFO"
  | debug => "DEBUG"
  | trace => "TRACE"

end FileHolders

open FileHolders in
/-- Performs the command and ends with its exit code. -/
def main (words : List String) : IO UInt32 := do
  let (ending, _) := (Command.perform Command.unsupported words).run { host := () }
  for entry in ending.log do
    IO.eprintln s!"{entry.level.text} {entry.message}"
  for line in ending.output do
    IO.println line
  if let some message := ending.error then
    IO.eprintln s!"Error: {message}"
  return ending.exitCode.toUInt32
