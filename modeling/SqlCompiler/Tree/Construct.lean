import SqlCompiler.Tree.Statement

/-!
# Building statements

Short forms for the common nodes of the tree, and functions that extend a query.

The constructors `column`, `int`, `from_table`, `with_limit` and so on of expressions and
statements.
-/

namespace SqlCompiler

namespace Expr

/-- An unqualified column. -/
def col (name : String) : Expr :=
  .column none name

/-- A column of a relation. -/
def qualified (relation name : String) : Expr :=
  .column (some relation) name

/-- All columns. -/
def all : Expr :=
  .star none

/-- An integer literal. -/
def int (n : Int64) : Expr :=
  .literal (.integer n)

/-- A string literal. -/
def string (s : String) : Expr :=
  .literal (.string s)

/-- A boolean literal. -/
def boolean (b : Bool) : Expr :=
  .literal (.boolean b)

/-- The null literal. -/
def null : Expr :=
  .literal .null

/-- A float literal. -/
def float (x : Binary64) : Expr :=
  .literal (.float x)

/-- A parameter with a value. -/
def bound (name : String) (value : Literal) : Expr :=
  .param name (some value)

/-- A call without duplicate elimination. -/
def call (name : String) (args : List Expr) : Expr :=
  .function name args false

/-- Equality. -/
def eq (left right : Expr) : Expr :=
  .binary left .eq right

/-- Strict order. -/
def gt (left right : Expr) : Expr :=
  .binary left .gt right

/-- Conjunction. -/
def and (left right : Expr) : Expr :=
  .binary left .and right

/-- Disjunction. -/
def or (left right : Expr) : Expr :=
  .binary left .or right

/-- The comparison under which null equals null. -/
def distinctFrom (left right : Expr) : Expr :=
  .isDistinctFrom left right false

/-- Membership in a list of literals. -/
def among (operand : Expr) (values : List Expr) : Expr :=
  .inValues operand values false

/-- Absence from a list of literals. -/
def notAmong (operand : Expr) (values : List Expr) : Expr :=
  .inValues operand values true

/-- An ascending ordering. -/
def asc (e : Expr) : OrderTerm :=
  ⟨e, some .asc⟩

/-- A descending ordering. -/
def desc (e : Expr) : OrderTerm :=
  ⟨e, some .desc⟩

end Expr

/-- A table by its bare name. -/
def TableRef.ofName (name : String) : TableRef :=
  { name }

/-- The table under another name. -/
def TableRef.renamed (t : TableRef) (name : String) : TableRef :=
  { t with rename := some name }

/-- A core that selects everything from nowhere. -/
def Core.empty : Core :=
  { setOp := none, distinct := false, projections := [], source := none
    wheres := [], groups := [], havings := [] }

/-- A table alone as a row source. -/
def JoinSource.ofTable (t : TableRef) : JoinSource :=
  ⟨.table t, []⟩

namespace Select

/-- A query of one core. -/
def ofCore (core : Core) : Select :=
  { cores := [core], orders := [], limit := none, offset := none, lock := none }

/-- Selects projections from a table. -/
def fromTable (name : String) (projections : List Expr) : Select :=
  ofCore { Core.empty with projections, source := some (.ofTable (.ofName name)) }

/-- Sets the row limit. -/
def withLimit (s : Select) (e : Expr) : Select :=
  { s with limit := some e }

/-- Sets the row offset. -/
def withOffset (s : Select) (e : Expr) : Select :=
  { s with offset := some e }

/-- Orders by one more term. -/
def withOrder (s : Select) (e : Expr) (direction : SortDirection) : Select :=
  { s with orders := s.orders ++ [⟨e, some direction⟩] }

/-- Changes the last core; a query without cores stays as it is. -/
def modifyLast (f : Core → Core) (s : Select) : Select :=
  match s.cores.getLast? with
  | none => s
  | some core => { s with cores := s.cores.dropLast ++ [f core] }

/-- Adds a condition to the last core. -/
def withWhere (s : Select) (e : Expr) : Select :=
  s.modifyLast fun core => { core with wheres := core.wheres ++ [e] }

/-- Drops duplicate rows of the last core. -/
def withDistinct (s : Select) : Select :=
  s.modifyLast fun core => { core with distinct := true }

/-- Appends the cores of another query; the first of them gets the set operator. -/
def combine (s : Select) (kind : SetKind) (all : Bool) (other : Select) : Select :=
  match other.cores with
  | [] => s
  | core :: rest => { s with cores := s.cores ++ { core with setOp := some ⟨kind, all⟩ } :: rest }

end Select

end SqlCompiler
