import SqlCompiler.Number.Binary64

/-!
# Literals and operators

The leaves of the statement tree: literal values, and the small closed sets of operators, join
kinds, sort directions and locks, each with the words that SQL has for it.
-/

namespace SqlCompiler

/-- A literal value. -/
inductive Literal where
  | null
  | boolean (b : Bool)
  /-- A signed 64-bit integer. -/
  | integer (n : Int64)
  | float (x : Binary64)
  | string (s : String)
  deriving DecidableEq

/-- An operator between two operands. -/
inductive BinaryOp where
  | eq
  | notEq
  | lt
  | ltEq
  | gt
  | gtEq
  | and
  | or
  | add
  | sub
  | mul
  | div
  | mod
  | concat
  | like
  | notLike
  deriving DecidableEq

/-- The operator's SQL spelling. -/
def BinaryOp.text : BinaryOp → String
  | .eq => "="
  | .notEq => "<>"
  | .lt => "<"
  | .ltEq => "<="
  | .gt => ">"
  | .gtEq => ">="
  | .and => "AND"
  | .or => "OR"
  | .add => "+"
  | .sub => "-"
  | .mul => "*"
  | .div => "/"
  | .mod => "%"
  | .concat => "||"
  | .like => "LIKE"
  | .notLike => "NOT LIKE"

/-- An operator before its operand. -/
inductive UnaryOp where
  | neg
  | not
  deriving DecidableEq

/-- The operator's SQL spelling, with the blank that a word needs. -/
def UnaryOp.text : UnaryOp → String
  | .neg => "-"
  | .not => "NOT "

/-- How the rows of two queries are combined. -/
inductive SetKind where
  | union
  | intersect
  | except
  deriving DecidableEq

/-- The SQL word. -/
def SetKind.text : SetKind → String
  | .union => "UNION"
  | .intersect => "INTERSECT"
  | .except => "EXCEPT"

/-- A set operator; `all` keeps duplicate rows. -/
structure SetOperator where
  /-- Which rows are kept. -/
  kind : SetKind
  /-- Duplicates are kept. -/
  all : Bool := false
  deriving DecidableEq

/-- The direction of an ordering. -/
inductive SortDirection where
  | asc
  | desc
  deriving DecidableEq

/-- The SQL word. -/
def SortDirection.text : SortDirection → String
  | .asc => "ASC"
  | .desc => "DESC"

/-- A lock on the selected rows. -/
inductive Lock where
  | forUpdate
  | forUpdateNoWait
  | forUpdateSkipLocked
  deriving DecidableEq

/-- The SQL clause. -/
def Lock.text : Lock → String
  | .forUpdate => "FOR UPDATE"
  | .forUpdateNoWait => "FOR UPDATE NOWAIT"
  | .forUpdateSkipLocked => "FOR UPDATE SKIP LOCKED"

/-- How two row sources are joined. -/
inductive JoinKind where
  | inner
  | left
  | right
  | full
  | cross
  deriving DecidableEq

/-- The SQL words. -/
def JoinKind.text : JoinKind → String
  | .inner => "INNER JOIN"
  | .left => "LEFT OUTER JOIN"
  | .right => "RIGHT OUTER JOIN"
  | .full => "FULL OUTER JOIN"
  | .cross => "CROSS JOIN"

/-- A table by its name. -/
structure TableRef where
  /-- The schema that holds the table. -/
  schema : Option String := none
  /-- The table's name. -/
  name : String
  /-- The name by which the statement refers to it. -/
  rename : Option String := none
  deriving DecidableEq

end SqlCompiler
