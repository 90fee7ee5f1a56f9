import SqlCompiler.Command.Arguments
import SqlCompiler.Data.Outline
import SqlCompiler.Format.Schema

/-!
# Commands

The commands of the command line, and how they are read from its arguments.
-/

namespace SqlCompiler.Command

/-- What a compilation prints. -/
inductive Emit where
  | sql
  | json

/-- How to compile. -/
structure Compilation where
  /-- Where the statement is read from; a dash is standard input. -/
  input : String := "-"
  /-- Where the result is written to; a dash is standard output. -/
  output : String := "-"
  /-- A signature is added. -/
  signatureComment : Bool := true
  /-- The text may be laid out. -/
  format : Bool := true
  /-- The name of the target. -/
  target : String := "sql.any"
  /-- How parameters are written. -/
  paramStyle : Option ParamStyle := none
  /-- The major version of the database. -/
  serverVersion : Option Nat := none
  /-- The most values of an `IN` list. -/
  maxInList : Option Nat := none
  /-- The database has `LIMIT` and `OFFSET`. -/
  nativeOffsetLimit : Option Bool := none
  /-- The database has `FETCH FIRST`. -/
  fetchFirst : Option Bool := none
  /-- Booleans are written as `1` and `0`. -/
  emulateBooleans : Option Bool := none
  /-- What is printed. -/
  emit : Emit := .sql

end SqlCompiler.Command

namespace SqlCompiler

open Command (Compilation Emit Interface Arguments)

/-- A command. -/
inductive Command where
  | version
  /-- Help, asked for behind arguments that name an input and an output. -/
  | help (input output : String)
  | compile (c : Compilation)
  | listTargets
  | outline (type : Format.TypeName)

namespace Command

/-- What `compile` takes. -/
def compileInterface : Interface :=
  { flags := ["hide-signature-comment", "no-format"]
    options :=
      ["target", "param-style", "server-version", "max-in-list", "native-offset-limit",
       "fetch-first", "emulate-booleans", "emit"]
    letters := [('t', "target")]
    positions := 2 }

/-- What a command without arguments takes. -/
def bareInterface : Interface :=
  { flags := [], options := [], letters := [], positions := 0 }

/-- What `debug json-schema` takes. -/
def outlineInterface : Interface :=
  { bareInterface with options := ["schema-type"] }

/-- The value of an option, read by `ofText?`; a value that it does not take is a fault. -/
def valueOf {α : Type} (a : Arguments) (name : String) (ofText? : String → Option α) :
    Option (Option α) :=
  match a.option? name with
  | none => some none
  | some text => (ofText? text).map some

/-- A truth value. -/
def readBool? : String → Option Bool
  | "true" => some true
  | "false" => some false
  | _ => none

/-- Decimal digits, at least one. -/
def readDigits? (cs : List Char) : Option Nat :=
  if !cs.isEmpty && cs.all (fun c => '0' ≤ c && c ≤ '9') then some (Numeral.natural cs) else none

/-- A natural number below `2 ^ 64`, perhaps with a plus sign. -/
def readSize? (text : String) : Option Nat :=
  let digits :=
    match text.toList with
    | '+' :: cs => cs
    | cs => cs
  (readDigits? digits).filter (· < UInt64.size)

/-- A natural number below `2 ^ 32`, perhaps with a sign. -/
def readVersion? (text : String) : Option Nat :=
  match text.toList with
  | '-' :: cs => (readDigits? cs).filter (· == 0)
  | _ => (readSize? text).filter (· < UInt32.size)

/-- What a compilation prints. -/
def readEmit? : String → Option Emit
  | "sql" => some .sql
  | "json" => some .json
  | _ => none

/-- The type to outline. -/
def readType? : String → Option Format.TypeName
  | "statement" => some .statement
  | "options" => some .options
  | "compiled" => some .compiled
  | _ => none

/-- Help, asked for where no input or output is named. -/
def helpAlone : Command :=
  .help "-" "-"

/-- Reads the arguments of `compile`. A target that is not given is taken from the environment.
Values are read also where help is asked for behind them. -/
def parseCompile (target? : Option String) (arguments : List String) : Option Command := do
  let a ← Arguments.parse compileInterface arguments
  let c : Compilation :=
    { input := a.positions.getD 0 "-"
      output := a.positions.getD 1 "-"
      signatureComment := !a.flags.contains "hide-signature-comment"
      format := !a.flags.contains "no-format"
      target := (a.option? "target").getD (target?.getD "sql.any")
      paramStyle := ← valueOf a "param-style" ParamStyle.ofText?
      serverVersion := ← valueOf a "server-version" readVersion?
      maxInList := ← valueOf a "max-in-list" readSize?
      nativeOffsetLimit := ← valueOf a "native-offset-limit" readBool?
      fetchFirst := ← valueOf a "fetch-first" readBool?
      emulateBooleans := ← valueOf a "emulate-booleans" readBool?
      emit := (← valueOf a "emit" readEmit?).getD .sql }
  return if a.help then .help c.input c.output else .compile c

/-- Reads the arguments of `list-targets`. -/
def parseListTargets (arguments : List String) : Option Command := do
  let a ← Arguments.parse bareInterface arguments
  return if a.help then helpAlone else .listTargets

/-- Reads the arguments of `debug json-schema`. -/
def parseOutline (arguments : List String) : Option Command := do
  let a ← Arguments.parse outlineInterface arguments
  let type ← valueOf a "schema-type" readType?
  return if a.help then helpAlone else .outline (type.getD .statement)

/-- The commands that help can be asked on. -/
def helpTopics : List (List String) :=
  [[], ["compile"], ["list-targets"], ["debug"], ["debug", "json-schema"], ["debug", "help"],
   ["help"]]

/-- Asks for help on a command. -/
def parseHelp (topic : List String) : Option Command :=
  if helpTopics.contains topic then some helpAlone else none

/-- The argument is the name behind two dashes, or starts with the letter behind one. -/
def isFlag (name : String) (letter : Char) (argument : String) : Bool :=
  argument == "--" ++ name || ['-', letter].isPrefixOf argument.toList

/-- Reads the arguments of `debug`. -/
def parseDebug : List String → Option Command
  | [] => none
  | "json-schema" :: arguments => parseOutline arguments
  | "help" :: topic => parseHelp ("debug" :: topic)
  | argument :: _ => if isFlag "help" 'h' argument then some helpAlone else none

/-- Reads the arguments of the command line; `target?` is the target that the environment names.
None if they are not understood. -/
def parse (target? : Option String) : List String → Option Command
  | [] => none
  | "compile" :: arguments => parseCompile target? arguments
  | "list-targets" :: arguments => parseListTargets arguments
  | "debug" :: arguments => parseDebug arguments
  | "help" :: topic => parseHelp topic
  | argument :: _ =>
    if isFlag "version" 'V' argument then some .version
    else if isFlag "help" 'h' argument then some helpAlone
    else none

end Command

end SqlCompiler
