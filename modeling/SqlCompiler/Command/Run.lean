import SqlCompiler.Command.Parse
import SqlCompiler.Compile
import SqlCompiler.Format.Codec

/-!
# Running commands

What a command does, as a function of its input: a text that is printed, or a failure. Every outcome
has a text for standard output, one for standard error, and an exit code.
-/

namespace SqlCompiler

/-- What comes of a command. -/
inductive Outcome where
  /-- Text for standard output. -/
  | printed (text : String)
  /-- The outline of a type. -/
  | outlined (o : Data.Outline)
  /-- The command line is not understood, or its input or output cannot be opened. -/
  | usage
  /-- The input is no statement. -/
  | unreadable (e : Data.ReadError)
  /-- The statement is not compiled. -/
  | failed (d : Diagnostic)

namespace Outcome

/-- The exit code. -/
def exitCode : Outcome → UInt8
  | .printed _ | .outlined _ => 0
  | .usage => 2
  | .unreadable _ | .failed _ => 1

/-- The text for standard output. -/
def stdout : Outcome → String
  | .printed text => text
  | .outlined o => o.view.jsonLines
  | _ => ""

/-- The text for standard error. -/
def stderr : Outcome → String
  | .unreadable e => Diagnostic.display ⟨.simple e.message, []⟩ ++ "\n"
  | .failed d => d.display ++ "\n"
  | .usage => "error: the arguments are not understood; try --help\n"
  | _ => ""

end Outcome

namespace Command

/-- The text that `--help` prints. -/
def helpText : String :=
  "Usage: sqlshim compile [OPTIONS] [INPUT] [OUTPUT]\n"
    ++ "       sqlshim list-targets\n"
    ++ "       sqlshim debug json-schema [--schema-type statement|options|compiled]\n"

/-- What the database can do, as far as the arguments say; none if they say nothing. -/
def Compilation.capabilities? (c : Compilation) (dialect : Dialect) : Option Capabilities :=
  let base :=
    match dialect, c.serverVersion with
    | .oracle, some major => Capabilities.oracle major
    | dialect, _ => dialect.capabilities
  if c.maxInList.isSome || c.nativeOffsetLimit.isSome || c.fetchFirst.isSome
      || c.serverVersion.isSome then
    some
      { offsetLimit := c.nativeOffsetLimit.getD base.offsetLimit
        fetchFirst := c.fetchFirst.getD base.fetchFirst
        maxInList := c.maxInList.or base.maxInList }
  else none

/-- The options that the arguments ask for. -/
def Compilation.options (c : Compilation) : Except Fault Options := do
  let target ← Target.ofName c.target
  return { format := c.format
           target
           signatureComment := c.signatureComment
           capabilities := c.capabilities? target.dialect
           paramStyle := c.paramStyle
           emulateBooleans := c.emulateBooleans }

/-- What is printed of a compiled statement. -/
def Emit.text : Emit → Compiled → String
  | .sql, compiled => compiled.sql ++ "\n"
  | .json, compiled => compiled.view.jsonLines ++ "\n"

/-- Compiles the statement in a text. The statement is read before the options are looked at. -/
def Compilation.run (c : Compilation) (text : String) : Outcome :=
  match Statement.ofJson text with
  | .error e => .unreadable e
  | .ok st =>
    match c.options.bind fun o => (SqlCompiler.compile o st).outcome with
    | .ok compiled => .printed (c.emit.text compiled)
    | .error f => .failed f.diagnostic

/-- What a command finds of its input and its output. -/
structure Files where
  /-- The text of the input; none if it cannot be opened. -/
  input? : Option String
  /-- The output can be opened. -/
  outputOpens : Bool

/-- Goes on with the text of the input, if input and output can be opened. -/
def Files.use (files : Files) (f : String → Outcome) : Outcome :=
  match files.input?, files.outputOpens with
  | some text, true => f text
  | _, _ => .usage

/-- The name of the input of a command; a dash is standard input. -/
def input : Command → String
  | .help input _ => input
  | .compile c => c.input
  | _ => "-"

/-- The name of the output of a command; a dash is standard output. -/
def output : Command → String
  | .help _ output => output
  | .compile c => c.output
  | _ => "-"

/-- Runs a command. The input and the output are opened before anything is done. -/
def run (files : Files) : Command → Outcome
  | .version => .printed ("sqlshim " ++ SqlCompiler.version ++ "\n")
  | .listTargets => .printed ("\n".intercalate Target.names ++ "\n")
  | .outline type => .outlined (Data.outline Format.define 1000 type)
  | .help _ _ => files.use fun _ => .printed helpText
  | .compile c => files.use c.run

end Command

end SqlCompiler
