import SqlCompiler.Data.Value
import SqlCompiler.Tree.Statement

/-!
# The tree as tagged data

Every part of the statement tree has a view as a `Data.Value`: the names of its types, fields and
variants are those of the exchange format. The functions called `view` give it.

`Statement.view` gives the data that `from_statement` writes.
-/

namespace SqlCompiler

open Data (Value)

/-- An optional text. -/
def textView (s : Option String) : Value :=
  .option (s.map .text)

/-- The view of a literal. -/
def Literal.view : Literal → Value
  | .null => .variant "Null"
  | .boolean b => .wrapped "Boolean" (.bool b)
  | .integer n => .wrapped "Integer" (.int n.toInt)
  | .float x => .wrapped "Float" (.float x)
  | .string s => .wrapped "String" (.text s)

/-- The operator's name. -/
def BinaryOp.name : BinaryOp → String
  | .eq => "Eq"
  | .notEq => "NotEq"
  | .lt => "Lt"
  | .ltEq => "LtEq"
  | .gt => "Gt"
  | .gtEq => "GtEq"
  | .and => "And"
  | .or => "Or"
  | .add => "Add"
  | .sub => "Sub"
  | .mul => "Mul"
  | .div => "Div"
  | .mod => "Mod"
  | .concat => "Concat"
  | .like => "Like"
  | .notLike => "NotLike"

/-- The operator's name. -/
def UnaryOp.name : UnaryOp → String
  | .neg => "Neg"
  | .not => "Not"

/-- The kind's name. -/
def SetKind.name : SetKind → String
  | .union => "Union"
  | .intersect => "Intersect"
  | .except => "Except"

/-- The direction's name. -/
def SortDirection.name : SortDirection → String
  | .asc => "Asc"
  | .desc => "Desc"

/-- The lock's name. -/
def Lock.name : Lock → String
  | .forUpdate => "ForUpdate"
  | .forUpdateNoWait => "ForUpdateNoWait"
  | .forUpdateSkipLocked => "ForUpdateSkipLocked"

/-- The kind's name. -/
def JoinKind.name : JoinKind → String
  | .inner => "Inner"
  | .left => "Left"
  | .right => "Right"
  | .full => "Full"
  | .cross => "Cross"

/-- The view of a set operator. -/
def SetOperator.view (op : SetOperator) : Value :=
  .record "SetOperator" [("kind", .variant op.kind.name), ("all", .bool op.all)]

/-- The view of a table. -/
def TableRef.view (t : TableRef) : Value :=
  .record "TableRef"
    [("schema", textView t.schema), ("name", .text t.name), ("alias", textView t.rename)]

/-- An expression, given the view of its kind. -/
def exprView (kind : Value) : Value :=
  .record "Expr" [("kind", kind)]

/-- A sort direction, where one is given. -/
def directionView (d : Option SortDirection) : Value :=
  .option (d.map fun d => .variant d.name)

/-- The quantifier of a core. -/
def distinctView (distinct : Bool) : Value :=
  if distinct then .some (.variant "Distinct") else .none

mutual

/-- The kind of an expression, with its content. -/
def Expr.kind : Expr → Value
  | .column relation name =>
    .fielded "Column" [("relation", textView relation), ("name", .text name)]
  | .star relation => .fielded "Star" [("relation", textView relation)]
  | .literal value => .wrapped "Literal" value.view
  | .param name value =>
    .fielded "Param" [("name", .text name), ("value", .option (value.map Literal.view))]
  | .raw text => .wrapped "SqlLiteral" (.text text)
  | .binary left op right =>
    .fielded "Binary"
      [("left", exprView left.kind), ("op", .variant op.name), ("right", exprView right.kind)]
  | .unary op operand =>
    .fielded "Unary" [("op", .variant op.name), ("expr", exprView operand.kind)]
  | .isNull operand negated =>
    .fielded "IsNull" [("expr", exprView operand.kind), ("negated", .bool negated)]
  | .isDistinctFrom left right negated =>
    .fielded "IsDistinctFrom"
      [("left", exprView left.kind), ("right", exprView right.kind), ("negated", .bool negated)]
  | .between operand low high negated =>
    .fielded "Between"
      [("expr", exprView operand.kind), ("low", exprView low.kind), ("high", exprView high.kind),
       ("negated", .bool negated)]
  | .inList operand list negated =>
    .fielded "InList"
      [("expr", exprView operand.kind), ("list", .list (exprViews list)),
       ("negated", .bool negated)]
  | .inValues operand values negated =>
    .fielded "HomogeneousIn"
      [("left", exprView operand.kind), ("values", .list (exprViews values)),
       ("negated", .bool negated)]
  | .inSubquery operand query negated =>
    .fielded "InSubquery"
      [("expr", exprView operand.kind), ("subquery", query.view), ("negated", .bool negated)]
  | .exists query negated =>
    .fielded "Exists" [("subquery", query.view), ("negated", .bool negated)]
  | .function name args distinct =>
    .fielded "Function"
      [("name", .text name), ("args", .list (exprViews args)), ("distinct", .bool distinct)]
  | .window function partitionBy orderBy =>
    .fielded "Window"
      [("function", exprView function.kind), ("partition_by", .list (exprViews partitionBy)),
       ("order_by", .list (orderViews orderBy))]
  | .case operand branches default =>
    .fielded "Case"
      [("operand", optionView operand), ("cases", .list (branchViews branches)),
       ("default", optionView default)]
  | .cast operand dataType =>
    .fielded "Cast" [("expr", exprView operand.kind), ("data_type", .text dataType)]
  | .grouping inner => .wrapped "Grouping" (exprView inner.kind)
  | .named inner name =>
    .fielded "Alias" [("expr", exprView inner.kind), ("alias", .text name)]
  | .subquery query => .wrapped "Subquery" query.view

/-- The views of expressions. -/
def exprViews : List Expr → List Value
  | [] => []
  | e :: es => exprView e.kind :: exprViews es

/-- An optional expression. -/
def optionView : Option Expr → Value
  | none => .none
  | some e => .some (exprView e.kind)

/-- An optional row bound; `name` is the name of its type. -/
def boundView (name : String) : Option Expr → Value
  | none => .none
  | some e => .some (.record name [("expr", exprView e.kind)])

/-- The views of branches. -/
def branchViews : List Branch → List Value
  | [] => []
  | ⟨condition, value⟩ :: bs =>
    .record "SwitchCase" [("condition", exprView condition.kind), ("value", exprView value.kind)]
      :: branchViews bs

/-- The views of ordering terms. -/
def orderViews : List OrderTerm → List Value
  | [] => []
  | ⟨expr, direction⟩ :: os =>
    .record "OrderExpr" [("expr", exprView expr.kind), ("direction", directionView direction)]
      :: orderViews os

/-- The view of a query. -/
def Select.view : Select → Value
  | ⟨cores, orders, limit, offset, lock⟩ =>
    .record "SelectStatement"
      [("cores", .list (coreViews cores)), ("orders", .list (orderViews orders)),
       ("limit", boundView "Limit" limit), ("offset", boundView "Offset" offset),
       ("lock", .option (lock.map fun l => .variant l.name))]

/-- The views of cores. -/
def coreViews : List Core → List Value
  | [] => []
  | ⟨setOp, distinct, projections, source, wheres, groups, havings⟩ :: cs =>
    .record "SelectCore"
      [("set_op", .option (setOp.map SetOperator.view)), ("quantifier", distinctView distinct),
       ("projections", .list (exprViews projections)), ("source", sourceView source),
       ("wheres", .list (exprViews wheres)), ("groups", .list (exprViews groups)),
       ("havings", .list (exprViews havings))]
      :: coreViews cs

/-- The view of an optional row source. -/
def sourceView : Option JoinSource → Value
  | none => .none
  | some ⟨base, joins⟩ =>
    .some (.record "JoinSource" [("base", base.view), ("joins", .list (joinViews joins))])

/-- The views of joins. -/
def joinViews : List Join → List Value
  | [] => []
  | ⟨kind, factor, constraint⟩ :: js =>
    .record "Join"
      [("kind", .variant kind.name), ("factor", factor.view),
       ("constraint", optionView constraint)]
      :: joinViews js

/-- The view of one row source. -/
def TableFactor.view : TableFactor → Value
  | .table t => .wrapped "Table" t.view
  | .derived query name => .fielded "Derived" [("subquery", query.view), ("alias", .text name)]

end

/-- The view of an expression. -/
def Expr.view (e : Expr) : Value :=
  exprView e.kind

/-- The view of an ordering term. -/
def OrderTerm.view (o : OrderTerm) : Value :=
  .record "OrderExpr" [("expr", o.expr.view), ("direction", directionView o.direction)]

/-- The view of an assignment. -/
def Assignment.view (a : Assignment) : Value :=
  .record "Assignment" [("column", .text a.column), ("value", a.value.view)]

/-- The fields that say which rows change. -/
def RowChoice.fieldViews (r : RowChoice) : List (String × Value) :=
  [("wheres", .list (exprViews r.wheres)), ("orders", .list (orderViews r.orders)),
   ("limit", boundView "Limit" r.limit), ("offset", boundView "Offset" r.offset),
   ("groups", .list (exprViews r.groups)), ("havings", .list (exprViews r.havings)),
   ("key", optionView r.key)]

/-- The view of an update. -/
def Update.view (u : Update) : Value :=
  .record "UpdateStatement"
    (("relation", u.relation.view) :: ("assignments", .list (u.assignments.map Assignment.view))
      :: u.rows.fieldViews)

/-- The view of a delete. -/
def Delete.view (d : Delete) : Value :=
  .record "DeleteStatement" (("relation", d.relation.view) :: d.rows.fieldViews)

/-- The view of a statement. -/
def Statement.view : Statement → Value
  | .select s => .wrapped "Select" s.view
  | .update u => .wrapped "Update" u.view
  | .delete d => .wrapped "Delete" d.view

end SqlCompiler
