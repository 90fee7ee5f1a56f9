import SqlCompiler.Report.Fault

/-!
# Targets, options and settings

`Options` are what a caller asks for; what it leaves open is the dialect's choice. `Settings` are
the options with every choice made.

`Target.ofName` is `from_str`, and `Options.settings` makes the choices that a context's `new`
makes.
-/

namespace SqlCompiler

open Data (Value)

/-- What to compile for: a dialect, or none for generic SQL. -/
structure Target where
  /-- The dialect, if one is chosen. -/
  dialect? : Option Dialect := none
  deriving DecidableEq

namespace Target

/-- The dialect; generic if none is chosen. -/
def dialect (t : Target) : Dialect :=
  t.dialect?.getD .generic

/-- The names of all targets. -/
def names : List String :=
  "sql.any" :: Dialect.all.map fun d => "sql." ++ d.text

/-- The target with a name. -/
def ofName (s : String) : Except Fault Target :=
  match s.toList with
  | 's' :: 'q' :: 'l' :: '.' :: rest =>
    let rest := String.ofList rest
    if rest = "any" then .ok { dialect? := none }
    else
      match Dialect.ofText? rest with
      | some d => .ok { dialect? := some d }
      | none => .error (.unknownTarget s names)
  | _ => .error (.unknownTarget s names)

/-- The view of a target. -/
def view (t : Target) : Value :=
  .wrapped "Sql" (.option (t.dialect?.map fun d => .variant d.name))

/-- A target from its view. -/
def ofView? : Value → Option Target
  | .wrapped "Sql" v => (ofOption? (ofVariant? Dialect.all Dialect.name) v).map (⟨·⟩)
  | _ => none

end Target

/-- What a caller asks for. -/
structure Options where
  /-- The text may be laid out over several lines. -/
  format : Bool := true
  /-- What to compile for. -/
  target : Target := {}
  /-- A comment after the text says which compiler made it. -/
  signatureComment : Bool := true
  /-- What the database can do, where the caller knows better than the dialect. -/
  capabilities : Option Capabilities := none
  /-- How parameters are written, unless as the dialect does. -/
  paramStyle : Option ParamStyle := none
  /-- Whether booleans are written as `1` and `0`, unless as the dialect does. -/
  emulateBooleans : Option Bool := none

namespace Options

/-- The view of options. -/
def view (o : Options) : Value :=
  .record "Options"
    [("format", .bool o.format), ("target", o.target.view),
     ("signature_comment", .bool o.signatureComment),
     ("capabilities", .option (o.capabilities.map Capabilities.view)),
     ("param_style", .option (o.paramStyle.map fun s => .variant s.name)),
     ("emulate_booleans", .option (o.emulateBooleans.map .bool))]

/-- Options from their view. -/
def ofView? : Value → Option Options
  | .record _ [(_, .bool format), (_, t), (_, .bool signatureComment), (_, c), (_, p), (_, b)] => do
    return { format, target := ← Target.ofView? t, signatureComment
             capabilities := ← ofOption? Capabilities.ofView? c
             paramStyle := ← ofOption? (ofVariant? ParamStyle.all ParamStyle.name) p
             emulateBooleans := ← ofOption? ofBool? b }
  | _ => none

end Options

/-- The options with every choice made. -/
structure Settings where
  /-- The dialect to write. -/
  dialect : Dialect
  /-- What the database can do. -/
  capabilities : Capabilities
  /-- How parameters are written. -/
  paramStyle : ParamStyle
  /-- Booleans are written as `1` and `0`. -/
  emulateBooleans : Bool

/-- Makes the choices that the options leave to the dialect. A list that may hold no values at all
is refused. -/
def Options.settings (o : Options) : Except Fault Settings :=
  let dialect := o.target.dialect
  let capabilities := o.capabilities.getD dialect.capabilities
  if capabilities.maxInList = some 0 then .error .zeroMaxInList
  else
    .ok { dialect, capabilities
          paramStyle := o.paramStyle.getD dialect.paramStyle
          emulateBooleans := o.emulateBooleans.getD dialect.emulatesBooleans }

/-- The same settings with parameters written in another style. -/
def Settings.withStyle (s : Settings) (style : ParamStyle) : Settings :=
  { s with paramStyle := style }

end SqlCompiler
