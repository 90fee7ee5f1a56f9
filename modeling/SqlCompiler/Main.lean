import SqlCompiler.Command.Run

/-!
# The command line

Reads the arguments, the environment and the input, runs the command, and writes what comes of it.

The command line's `main`, with `write_output` (`writeText`).
-/

namespace SqlCompiler.CommandLine

/-- The text of an input, or none if it cannot be opened. -/
def readInput? (name : String) : IO (Option String) := do
  if name = "-" then return some (← (← IO.getStdin).readToEnd)
  else
    try return some (← IO.FS.readFile name)
    catch _ => return none

/-- An output can be opened. -/
def opens (name : String) : IO Bool := do
  if name = "-" then return true
  else
    try
      let _ ← IO.FS.Handle.mk name .append
      return true
    catch _ => return false

/-- What a command finds of its input and its output. Only a compilation reads standard input. -/
def filesOf (command : Command) : IO Command.Files := do
  let input? ←
    match command, command.input with
    | .compile _, name => readInput? name
    | _, "-" => pure (some "")
    | _, name => readInput? name
  return { input?, outputOpens := ← opens command.output }

/-- Writes the text for standard output; a compilation's goes to its output. -/
def writeText (command : Command) (text : String) : IO Unit := do
  match command with
  | .compile c => if c.output = "-" then IO.print text else IO.FS.writeFile c.output text
  | _ => IO.print text

end SqlCompiler.CommandLine

open SqlCompiler in
open CommandLine in
/-- Runs the command line. -/
def main (arguments : List String) : IO UInt32 := do
  match Command.parse (← IO.getEnv "SQLSHIM_TARGET") arguments with
  | none =>
    IO.eprint Outcome.usage.stderr
    return Outcome.usage.exitCode.toUInt32
  | some command =>
    let outcome := command.run (← filesOf command)
    if outcome.exitCode = 0 then writeText command outcome.stdout
    IO.eprint outcome.stderr
    return outcome.exitCode.toUInt32
