import SqlCompiler.Tree.OfView

/-!
# Dialects and what they can do

A dialect has a name, a way to write parameters and booleans, and capabilities. The capabilities
decide how row limits are written: `LIMIT` and `OFFSET`, else `FETCH FIRST`, else by row numbers.

`Capabilities.pagination` and `Capabilities.oracle` are `pagination` and `oracle`, and the choices
of a dialect are its `param_style`, `emulate_booleans` and `capabilities`.
-/

namespace SqlCompiler

open Data (Value)

/-- A dialect of SQL. -/
inductive Dialect where
  | generic
  | oracle
  deriving DecidableEq

/-- How parameters are written. -/
inductive ParamStyle where
  /-- As the literals they are bound to. -/
  | inline
  /-- As `?`. -/
  | questionMark
  /-- As `:a1`, `:a2` and so on. -/
  | colon
  /-- As `$1`, `$2` and so on. -/
  | dollar
  deriving DecidableEq

/-- How row limits are written. -/
inductive Pagination where
  | limitOffset
  | fetchFirst
  | rowNumber
  deriving DecidableEq

/-- What the target database can do. -/
structure Capabilities where
  /-- It has `LIMIT` and `OFFSET`. -/
  offsetLimit : Bool := true
  /-- It has `FETCH FIRST`. -/
  fetchFirst : Bool := true
  /-- The most values that an `IN` list may have. -/
  maxInList : Option Nat := none
  deriving DecidableEq

namespace Dialect

/-- All dialects. -/
def all : List Dialect :=
  [.generic, .oracle]

/-- The dialect's name in target names and messages. -/
def text : Dialect → String
  | .generic => "generic"
  | .oracle => "oracle"

/-- The dialect with a name. -/
def ofText? (s : String) : Option Dialect :=
  byName? all text s

/-- The dialect's name in the exchange format. -/
def name : Dialect → String
  | .generic => "Generic"
  | .oracle => "Oracle"

/-- How the dialect writes parameters. -/
def paramStyle : Dialect → ParamStyle
  | .generic => .questionMark
  | .oracle => .colon

/-- The dialect has no boolean literals, and writes `1` and `0`. -/
def emulatesBooleans : Dialect → Bool
  | .generic => false
  | .oracle => true

end Dialect

namespace ParamStyle

/-- All styles. -/
def all : List ParamStyle :=
  [.inline, .questionMark, .colon, .dollar]

/-- The style's name on the command line. -/
def text : ParamStyle → String
  | .inline => "inline"
  | .questionMark => "question_mark"
  | .colon => "colon"
  | .dollar => "dollar"

/-- The style with a name. -/
def ofText? (s : String) : Option ParamStyle :=
  byName? all text s

/-- The style's name in the exchange format. -/
def name : ParamStyle → String
  | .inline => "Inline"
  | .questionMark => "QuestionMark"
  | .colon => "Colon"
  | .dollar => "Dollar"

/-- The placeholder of the parameter at a position, counted from one. -/
def marker : ParamStyle → Nat → String
  | .inline, _ => "?"
  | .questionMark, _ => "?"
  | .colon, position => ":a" ++ toString position
  | .dollar, position => "$" ++ toString position

end ParamStyle

/-- The name of a way to write row limits. -/
def Pagination.name : Pagination → String
  | .limitOffset => "LimitOffset"
  | .fetchFirst => "FetchFirst"
  | .rowNumber => "RowNumber"

namespace Capabilities

/-- Oracle has `FETCH FIRST` from release 12 on, and takes at most a thousand values in a list. -/
def oracle (majorVersion : Nat) : Capabilities :=
  { offsetLimit := false, fetchFirst := 12 ≤ majorVersion, maxInList := some 1000 }

/-- How row limits are written. -/
def pagination (c : Capabilities) : Pagination :=
  if c.offsetLimit then .limitOffset
  else if c.fetchFirst then .fetchFirst
  else .rowNumber

/-- The view of capabilities. -/
def view (c : Capabilities) : Value :=
  .record "Capabilities"
    [("offset_limit", .bool c.offsetLimit), ("fetch_first", .bool c.fetchFirst),
     ("max_in_list", .option (c.maxInList.map fun n => .int n))]

/-- Capabilities from their view. -/
def ofView? : Value → Option Capabilities
  | .record _ [(_, .bool offsetLimit), (_, .bool fetchFirst), (_, .none)] =>
    some { offsetLimit, fetchFirst }
  | .record _ [(_, .bool offsetLimit), (_, .bool fetchFirst), (_, .some (.int n))] =>
    some { offsetLimit, fetchFirst, maxInList := some n.toNat }
  | _ => none

end Capabilities

/-- What a dialect can do when nothing else is known. -/
def Dialect.capabilities : Dialect → Capabilities
  | .generic => {}
  | .oracle => .oracle 11

end SqlCompiler
