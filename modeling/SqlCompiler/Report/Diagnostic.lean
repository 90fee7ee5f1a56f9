import SqlCompiler.Data.Value

/-!
# Diagnostics

What a caller sees of a failure: the reason, some hints, and the code that goes with the kind of
reason. A diagnostic has a text for people, a JSON form, and a form that shows all its parts.

`Diagnostic.display` is `fmt`, and `Diagnostic.report` is `to_json`.
-/

namespace SqlCompiler

open Data (Value)

/-- Why something failed. -/
inductive Reason where
  | simple (text : String)
  | expected (who : Option String) (wanted found : String)
  | unexpected (found : String)
  | notFound (name space : String)
  /-- The dialect has no way to write a node. -/
  | unsupportedNode (node dialect : String)
  /-- A statement carries an ordering that it cannot have. -/
  | invalidOrderingContext (statement : String)
  | invalidArgument (details : String)
  /-- A fault of the compiler itself. -/
  | bug (details : Option String)
  deriving DecidableEq

namespace Reason

/-- The code of the kinds of reasons that have one. -/
def code? : Reason → Option String
  | .unsupportedNode _ _ => some "E0101"
  | .invalidOrderingContext _ => some "E0102"
  | .invalidArgument _ => some "E0103"
  | _ => none

/-- The words for a reason. -/
def message : Reason → String
  | .simple text => text
  | .expected who wanted found =>
    (match who with
      | some who => who ++ " "
      | none => "")
      ++ "expected " ++ wanted ++ ", but found " ++ found
  | .unexpected found => "unexpected " ++ found
  | .notFound name space => space ++ " `" ++ name ++ "` not found"
  | .unsupportedNode node dialect =>
    node ++ " is not supported by dialect `" ++ dialect ++ "`"
  | .invalidOrderingContext statement => statement ++ " cannot be ordered in this context"
  | .invalidArgument details => "invalid argument: " ++ details
  | .bug details =>
    "internal compiler error"
      ++ (match details with
        | some details => "; " ++ details
        | none => "")

/-- The view of an optional text. -/
def optionalText (s : Option String) : Value :=
  .option (s.map .text)

/-- The view of a reason. -/
def view : Reason → Value
  | .simple text => .wrapped "Simple" (.text text)
  | .expected who wanted found =>
    .fielded "Expected"
      [("who", optionalText who), ("expected", .text wanted), ("found", .text found)]
  | .unexpected found => .fielded "Unexpected" [("found", .text found)]
  | .notFound name space => .fielded "NotFound" [("name", .text name), ("namespace", .text space)]
  | .unsupportedNode node dialect =>
    .fielded "UnsupportedNode" [("node", .text node), ("dialect", .text dialect)]
  | .invalidOrderingContext statement =>
    .fielded "InvalidOrderingContext" [("statement", .text statement)]
  | .invalidArgument details => .fielded "InvalidArgument" [("details", .text details)]
  | .bug details => .fielded "Bug" [("details", optionalText details)]

end Reason

/-- A failure as it is reported. -/
structure Diagnostic where
  /-- Why it failed. -/
  reason : Reason
  /-- What to do about it. -/
  hints : List String := []
  deriving DecidableEq

namespace Diagnostic

/-- The code, if the kind of reason has one. -/
def code? (d : Diagnostic) : Option String :=
  d.reason.code?

/-- All parts of a diagnostic. -/
def view (d : Diagnostic) : Value :=
  .record "Error"
    [("kind", .variant "Error"), ("reason", d.reason.view), ("hints", .texts d.hints),
     ("code", Reason.optionalText d.code?)]

/-- The text for people: the code, the reason, and a line for each hint. -/
def display (d : Diagnostic) : String :=
  (match d.code? with
    | some code => "[" ++ code ++ "] "
    | none => "")
    ++ "Error: " ++ d.reason.message ++ "\n"
    ++ String.join (d.hints.map fun h => "↳ Hint: " ++ h ++ "\n")

/-- The form for programs. -/
def report (d : Diagnostic) : Value :=
  .record "ErrorMessage"
    [("kind", .variant "Error"), ("code", Reason.optionalText d.code?),
     ("reason", .text d.reason.message), ("hints", .texts d.hints)]

/-- The text of several diagnostics. -/
def displayAll (ds : List Diagnostic) : String :=
  String.join (ds.map display)

/-- The form of several diagnostics for programs. -/
def reportAll (ds : List Diagnostic) : Value :=
  .record "ErrorMessages" [("inner", .list (ds.map report))]

end Diagnostic

end SqlCompiler
