import SqlCompiler.Report.Diagnostic
import SqlCompiler.Target.Dialect

/-!
# Faults

Every cause for which a statement is not compiled, and the diagnostic that each is reported as.
-/

namespace SqlCompiler

/-- The two statements that change rows. -/
inductive ChangeKind where
  | update
  | delete
  deriving DecidableEq

/-- The SQL word. -/
def ChangeKind.text : ChangeKind → String
  | .update => "UPDATE"
  | .delete => "DELETE"

/-- The two bounds on the rows of a query. -/
inductive RowBound where
  | limit
  | offset
  deriving DecidableEq

/-- The bound's name in messages. -/
def RowBound.name : RowBound → String
  | .limit => "limit"
  | .offset => "offset"

/-- The SQL word. -/
def RowBound.text : RowBound → String
  | .limit => "LIMIT"
  | .offset => "OFFSET"

/-- A cause for which a statement is not compiled. -/
inductive Fault where
  /-- The longest `IN` list allowed has no values. -/
  | zeroMaxInList
  /-- A query without cores. -/
  | noCores
  /-- A set operator on the first core. -/
  | leadingSetOperator (kind : SetKind)
  /-- A later core without a set operator. -/
  | missingSetOperator (index : Nat)
  /-- A case expression without branches. -/
  | noBranches
  /-- A float that is not finite. -/
  | nonFiniteFloat (x : Binary64)
  /-- A parameter to be inlined that has no value. -/
  | noValueToInline (name : String)
  /-- A value list with something other than a literal. -/
  | valueNotLiteral (e : Expr)
  /-- A condition on a cross join. -/
  | crossJoinConstraint
  /-- A row bound where the dialect has no way to write one. -/
  | unsupportedBound (bound : RowBound) (dialect : Dialect)
  /-- A set operator that keeps duplicates where the dialect has none. -/
  | unsupportedAll (kind : SetKind) (dialect : Dialect)
  /-- A lock on rows that are limited by the dialect's own clause. -/
  | lockedLimit (dialect : Dialect)
  /-- A lock on rows that are limited by a surrounding query. -/
  | lockedEmulation (dialect : Dialect)
  /-- An update that sets nothing. -/
  | noAssignments
  /-- A grouped change without a key. -/
  | groupingWithoutKey
  /-- A limited change without a key. -/
  | boundWithoutKey (change : ChangeKind)
  /-- An ordered and limited change. -/
  | orderedLimit (change : ChangeKind)
  /-- A negative row bound. -/
  | negativeBound (bound : RowBound) (n : Int64)
  /-- A row bound that is a literal and no integer. -/
  | boundNotInteger (bound : RowBound) (l : Literal)
  /-- An offset and a limit with no 64-bit sum. -/
  | boundOverflow (offset limit : Int64)
  /-- A distinct ordering without columns. -/
  | noDistinctColumns
  /-- A target that does not exist. -/
  | unknownTarget (name : String) (known : List String)

/-- How a fault is reported. -/
def Fault.diagnostic : Fault → Diagnostic
  | .zeroMaxInList => ⟨.invalidArgument "the maximum IN list length must be at least 1", []⟩
  | .noCores => ⟨.invalidArgument "a select statement needs at least one core", []⟩
  | .leadingSetOperator kind =>
    ⟨.expected (some "the first select core") "no set operator" kind.text, []⟩
  | .missingSetOperator index =>
    ⟨.expected (some ("select core " ++ toString index)) "a set operator" "none", []⟩
  | .noBranches => ⟨.expected (some "CASE") "at least one WHEN branch" "none", []⟩
  | .nonFiniteFloat x =>
    ⟨.invalidArgument
      ("float literal " ++ Data.inspectLayout.text x ++ " has no SQL representation"), []⟩
  | .noValueToInline name =>
    ⟨.invalidArgument ("parameter `" ++ name ++ "` has no value to inline"),
      ["provide a value or compile with a placeholder parameter style"]⟩
  | .valueNotLiteral e =>
    ⟨.invalidArgument ("IN list values must be literals, found " ++ e.kind.inspect),
      ["use an `InList` expression for lists of arbitrary expressions"]⟩
  | .crossJoinConstraint => ⟨.unexpected "a join constraint on CROSS JOIN", []⟩
  | .unsupportedBound bound dialect =>
    ⟨.unsupportedNode bound.text dialect.text,
      ["this target has neither LIMIT/OFFSET nor FETCH FIRST; "
        ++ "compile for a dialect that emulates them"]⟩
  | .unsupportedAll kind dialect => ⟨.unsupportedNode (kind.text ++ " ALL") dialect.text, []⟩
  | .lockedLimit dialect =>
    ⟨.unsupportedNode "FOR UPDATE together with a row limit" dialect.text, []⟩
  | .lockedEmulation dialect =>
    ⟨.unsupportedNode "FOR UPDATE together with a row limit" dialect.text,
      ["lock the rows in a separate statement"]⟩
  | .noAssignments => ⟨.invalidArgument "UPDATE without assignments", []⟩
  | .groupingWithoutKey =>
    ⟨.invalidArgument "grouping on UPDATE or DELETE needs a key to select rows through", []⟩
  | .boundWithoutKey change =>
    ⟨.invalidArgument
      (change.text ++ " with a limit or offset needs a key to select rows through"), []⟩
  | .orderedLimit change =>
    ⟨.invalidOrderingContext (change.text ++ " with a limit"),
      ["select the keys of the affected rows in a separate query"]⟩
  | .negativeBound bound n =>
    ⟨.invalidArgument (bound.name ++ " must not be negative, found " ++ toString n.toInt), []⟩
  | .boundNotInteger bound l =>
    ⟨.expected (some bound.name) "an integer" l.view.inspect, []⟩
  | .boundOverflow offset limit =>
    ⟨.invalidArgument ("offset " ++ toString offset.toInt ++ " plus limit "
      ++ toString limit.toInt ++ " overflows"), []⟩
  | .noDistinctColumns =>
    ⟨.invalidArgument "DISTINCT projections need at least one column to partition by", []⟩
  | .unknownTarget name known =>
    ⟨.notFound (Text.escaped name) "target",
      ["available targets: " ++ ", ".intercalate known]⟩

end SqlCompiler
