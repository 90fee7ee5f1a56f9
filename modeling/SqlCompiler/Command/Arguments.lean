/-!
# Arguments

The arguments of a command: flags, options with a value, and positions. An option's value follows it
or is joined to it by an equals sign; a single-letter option may also have its value directly after
the letter. An argument that starts with a dash is never a value, unless it is a lone dash or comes
after a double dash.
-/

namespace SqlCompiler.Command

/-- What a command takes. -/
structure Interface where
  /-- The names of flags. -/
  flags : List String
  /-- The names of options with a value. -/
  options : List String
  /-- The options that have a letter too. -/
  letters : List (Char × String)
  /-- The most positions. -/
  positions : Nat

/-- The arguments of a command, taken apart. -/
structure Arguments where
  /-- The flags that are given. -/
  flags : List String := []
  /-- The options that are given, with their values. -/
  options : List (String × String) := []
  /-- The positions that are given. -/
  positions : List String := []
  /-- Help is asked for. What follows is not looked at. -/
  help : Bool := false

namespace Arguments

/-- Where the reader of arguments stands. -/
structure State where
  /-- What has been read. -/
  read : Arguments := {}
  /-- The option whose value is awaited. -/
  awaiting : Option String := none
  /-- A double dash has been read. -/
  onlyPositions : Bool := false

/-- Records a flag; a second time is a fault. -/
def addFlag (s : State) (name : String) : Option State :=
  if s.read.flags.contains name then none
  else some { s with read := { s.read with flags := name :: s.read.flags } }

/-- Records an option; a second time is a fault. -/
def addOption (s : State) (name value : String) : Option State :=
  if (s.read.options.lookup name).isSome then none
  else
    some { s with
      read := { s.read with options := (name, value) :: s.read.options }
      awaiting := none }

/-- Records a position; one too many is a fault. -/
def addPosition (i : Interface) (s : State) (value : String) : Option State :=
  if s.read.positions.length < i.positions then
    some { s with read := { s.read with positions := s.read.positions ++ [value] } }
  else none

/-- Records that help is asked for. -/
def addHelp (s : State) : State :=
  { s with read := { s.read with help := true } }

/-- Splits an argument at its first equals sign. -/
def splitEquals (cs : List Char) : List Char × Option (List Char) :=
  match cs.dropWhile (· ≠ '=') with
  | [] => (cs, none)
  | _ :: value => (cs.takeWhile (· ≠ '='), some value)

/-- Takes an argument that starts with two dashes; `cs` is the rest of it. -/
def takeLong (i : Interface) (s : State) (cs : List Char) : Option State :=
  let (name, value) := splitEquals cs
  let name := String.ofList name
  match value with
  | some value =>
    if i.options.contains name then addOption s name (String.ofList value) else none
  | none =>
    if i.options.contains name then
      if (s.read.options.lookup name).isSome then none else some { s with awaiting := some name }
    else if i.flags.contains name then addFlag s name
    else if name = "help" then some (addHelp s)
    else none

/-- Takes an argument that starts with one dash; `cs` is the rest of it. -/
def takeShort (i : Interface) (s : State) (cs : List Char) : Option State :=
  match cs with
  | [] => addPosition i s "-"
  | letter :: rest =>
    match i.letters.lookup letter with
    | some name =>
      match rest with
      | [] =>
        if (s.read.options.lookup name).isSome then none else some { s with awaiting := some name }
      | '=' :: value => addOption s name (String.ofList value)
      | value => addOption s name (String.ofList value)
    | none => if letter = 'h' then some (addHelp s) else none

/-- Takes one argument. -/
def take (i : Interface) (s : State) (argument : String) : Option State :=
  if s.read.help then some s
  else if s.onlyPositions then addPosition i s argument
  else
    match s.awaiting, argument.toList with
    | some name, ['-'] => addOption s name "-"
    | some _, '-' :: _ => none
    | some name, _ => addOption s name argument
    | none, ['-', '-'] => some { s with onlyPositions := true }
    | none, '-' :: '-' :: cs => takeLong i s cs
    | none, '-' :: cs => takeShort i s cs
    | none, _ => addPosition i s argument

/-- Takes arguments apart; none if the command cannot be run with them. -/
def parse (i : Interface) (arguments : List String) : Option Arguments := do
  let s ← arguments.foldlM (take i) {}
  if s.awaiting.isSome then none else some s.read

/-- The value of an option, if it is given. -/
def option? (a : Arguments) (name : String) : Option String :=
  a.options.lookup name

end Arguments

end SqlCompiler.Command
