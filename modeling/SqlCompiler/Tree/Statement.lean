import SqlCompiler.Tree.Literal

/-!
# The statement tree

Expressions and queries refer to each other: an expression may hold a subquery, and a query holds
expressions everywhere. A query is one or more cores, joined by set operators, with an ordering, a
row limit, a row offset and a lock for the whole. `Update` and `Delete` change the rows of one
table.
-/

namespace SqlCompiler

mutual

/-- An expression. -/
inductive Expr where
  /-- A column, possibly qualified by its relation. -/
  | column (relation : Option String) (name : String)
  /-- All columns, possibly of one relation. -/
  | star (relation : Option String)
  | literal (value : Literal)
  /-- A parameter, bound or inlined as the options say. -/
  | param (name : String) (value : Option Literal)
  /-- SQL text, written as it is. -/
  | raw (text : String)
  | binary (left : Expr) (op : BinaryOp) (right : Expr)
  | unary (op : UnaryOp) (operand : Expr)
  | isNull (operand : Expr) (negated : Bool)
  /-- A comparison under which null equals null. -/
  | isDistinctFrom (left right : Expr) (negated : Bool)
  | between (operand low high : Expr) (negated : Bool)
  /-- Membership in a list of expressions. -/
  | inList (operand : Expr) (list : List Expr) (negated : Bool)
  /-- Membership in a list of literals, which may be split. -/
  | inValues (operand : Expr) (values : List Expr) (negated : Bool)
  | inSubquery (operand : Expr) (query : Select) (negated : Bool)
  | exists (query : Select) (negated : Bool)
  | function (name : String) (args : List Expr) (distinct : Bool)
  /-- A window function. -/
  | window (function : Expr) (partitionBy : List Expr) (orderBy : List OrderTerm)
  | case (operand : Option Expr) (branches : List Branch) (default : Option Expr)
  | cast (operand : Expr) (dataType : String)
  /-- An expression in parentheses. -/
  | grouping (inner : Expr)
  /-- An expression with a name of its own. -/
  | named (inner : Expr) (name : String)
  | subquery (query : Select)

/-- A branch of a case expression. -/
structure Branch where
  /-- When the branch is taken. -/
  condition : Expr
  /-- What it gives. -/
  value : Expr

/-- A term of an ordering. -/
structure OrderTerm where
  /-- What to order by. -/
  expr : Expr
  /-- The direction, if one is given. -/
  direction : Option SortDirection

/-- A query. -/
structure Select where
  /-- The cores, each but the first with its set operator. -/
  cores : List Core
  /-- The ordering of all rows. -/
  orders : List OrderTerm
  /-- The most rows to return. -/
  limit : Option Expr
  /-- The number of rows to skip. -/
  offset : Option Expr
  /-- The lock on the rows. -/
  lock : Option Lock

/-- One `SELECT` of a query. -/
structure Core where
  /-- How the core is combined with those before it. -/
  setOp : Option SetOperator
  /-- Duplicate rows are dropped. -/
  distinct : Bool
  /-- What is selected; everything if empty. -/
  projections : List Expr
  /-- Where the rows come from. -/
  source : Option JoinSource
  /-- The conditions on rows. -/
  wheres : List Expr
  /-- The grouping. -/
  groups : List Expr
  /-- The conditions on groups. -/
  havings : List Expr

/-- Row sources joined in order. -/
structure JoinSource where
  /-- The first source. -/
  base : TableFactor
  /-- The others. -/
  joins : List Join

/-- A source joined to those before it. -/
structure Join where
  /-- How it is joined. -/
  kind : JoinKind
  /-- What is joined. -/
  factor : TableFactor
  /-- The condition of the join. -/
  constraint : Option Expr

/-- A row source. -/
inductive TableFactor where
  | table (t : TableRef)
  /-- A subquery with a name. -/
  | derived (query : Select) (name : String)

end

/-- A column and its new value. -/
structure Assignment where
  /-- The column's name. -/
  column : String
  /-- The new value. -/
  value : Expr

/-- Which rows of a table a statement changes. -/
structure RowChoice where
  /-- The conditions on rows. -/
  wheres : List Expr := []
  /-- The ordering. -/
  orders : List OrderTerm := []
  /-- The most rows to change. -/
  limit : Option Expr := none
  /-- The number of rows to skip. -/
  offset : Option Expr := none
  /-- The grouping. -/
  groups : List Expr := []
  /-- The conditions on groups. -/
  havings : List Expr := []
  /-- What identifies a row, so that rows can be chosen by a subquery. -/
  key : Option Expr := none

/-- Changes columns of the chosen rows. -/
structure Update where
  /-- The table. -/
  relation : TableRef
  /-- The new values. -/
  assignments : List Assignment
  /-- The rows. -/
  rows : RowChoice := {}

/-- Removes the chosen rows. -/
structure Delete where
  /-- The table. -/
  relation : TableRef
  /-- The rows. -/
  rows : RowChoice := {}

/-- A statement. -/
inductive Statement where
  | select (s : Select)
  | update (u : Update)
  | delete (d : Delete)

end SqlCompiler
