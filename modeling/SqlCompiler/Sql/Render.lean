import SqlCompiler.Sql.OrderAlias

/-!
# Rendering expressions and queries

The recursion over the tree. Each node emits its own text around the emissions of its parts; what a
query does with its parts is said in `Sql.Query`, `Sql.RowWindow` and `Sql.OrderAlias`.

`Expr.emit` is `walk_expr`, `emitDistinctFrom` is `walk_is_distinct_from`, `Select.emit` is
`visit_select` of the two dialects, and `TableFactor.emit` is `walk_table_factor`.
-/

namespace SqlCompiler

open Emission (sql ident)

/-- A word that is there only in the negated form. -/
def negatable (negated : Bool) (positive negative : String) : Emission :=
  sql (if negated then negative else positive)

/-- A comparison under which null equals null. Oracle decodes it to a number. -/
def emitDistinctFrom (s : Settings) (left right : Rendered) (negated : Bool) : Emission :=
  match s.dialect with
  | .generic =>
    left.operand .left isStrength .left
      ++ negatable negated " IS DISTINCT FROM " " IS NOT DISTINCT FROM "
      ++ right.operand .right isStrength .left
  | .oracle =>
    sql "DECODE(" ++ left.emission ++ sql ", " ++ right.emission
      ++ negatable negated ", 0, 1) = 1" ", 0, 1) = 0"

/-- A window after its function. -/
def emitWindow (partitionBy orderBy : List Emission) : Emission :=
  sql " OVER ("
    ++ .clause "PARTITION BY " ", " partitionBy
    ++ (if !partitionBy.isEmpty && !orderBy.isEmpty then sql " " else .empty)
    ++ .clause "ORDER BY " ", " orderBy
    ++ sql ")"

/-- A word with an expression after it, if there is one. -/
def after (word : String) : Option Emission → Emission
  | some e => sql word ++ e
  | none => .empty

/-- A sort direction after its term. -/
def emitDirection : Option SortDirection → Emission
  | some d => sql (" " ++ d.text)
  | none => .empty

/-- The condition of a join. A cross join has none. -/
def emitConstraint (kind : JoinKind) : Option Emission → Emission
  | some e => if kind = .cross then .fail .crossJoinConstraint else sql " ON " ++ e
  | none => .empty

mutual

/-- The emission of an expression. -/
def Expr.emit (s : Settings) : Expr → Emission
  | .column relation name => qualifier relation ++ ident name
  | .star relation => qualifier relation ++ sql "*"
  | .literal value => value.emit s
  | .param name value => emitParam s name value
  | .raw text => .verbatim text
  | .binary left op right =>
    Rendered.operand ⟨left, left.emit s⟩ .left op.strength op.associativity
      ++ sql (" " ++ op.text ++ " ")
      ++ Rendered.operand ⟨right, right.emit s⟩ .right op.strength op.associativity
  | .unary op operand =>
    sql op.text ++ Rendered.operand ⟨operand, operand.emit s⟩ .right op.strength op.associativity
  | .isNull operand negated =>
    Rendered.operand ⟨operand, operand.emit s⟩ .left isStrength .left
      ++ negatable negated " IS NULL" " IS NOT NULL"
  | .isDistinctFrom left right negated =>
    emitDistinctFrom s ⟨left, left.emit s⟩ ⟨right, right.emit s⟩ negated
  | .between operand low high negated =>
    Rendered.operand ⟨operand, operand.emit s⟩ .left membershipStrength .left
      ++ negatable negated " BETWEEN " " NOT BETWEEN "
      ++ Rendered.operand ⟨low, low.emit s⟩ .right membershipStrength .left
      ++ sql " AND "
      ++ Rendered.operand ⟨high, high.emit s⟩ .right membershipStrength .left
  | .inList operand list negated =>
    if list.isEmpty then negatable negated "1=0" "1=1"
    else
      Rendered.operand ⟨operand, operand.emit s⟩ .left membershipStrength .left
        ++ negatable negated " IN (" " NOT IN ("
        ++ .join ", " (emitEach s list)
        ++ sql ")"
  | .inValues operand values negated =>
    emitInValues s ⟨operand, operand.emit s⟩ values negated
  | .inSubquery operand query negated =>
    Rendered.operand ⟨operand, operand.emit s⟩ .left membershipStrength .left
      ++ negatable negated " IN (" " NOT IN ("
      ++ query.emit s
      ++ sql ")"
  | .exists query negated =>
    negatable negated "EXISTS (" "NOT EXISTS (" ++ query.emit s ++ sql ")"
  | .function name args distinct =>
    .verbatim name ++ sql (if distinct then "(DISTINCT " else "(")
      ++ .join ", " (emitEach s args) ++ sql ")"
  | .window function partitionBy orderBy =>
    function.emit s ++ emitWindow (emitEach s partitionBy) (emitOrders s orderBy)
  | .case operand branches default =>
    if branches.isEmpty then .fail .noBranches
    else
      sql "CASE" ++ after " " (emitOption s operand) ++ emitBranches s branches
        ++ after " ELSE " (emitOption s default) ++ sql " END"
  | .cast operand dataType =>
    sql "CAST(" ++ operand.emit s ++ sql " AS " ++ .verbatim dataType ++ sql ")"
  | .grouping inner => .parens (inner.emit s)
  | .named inner name => inner.emit s ++ sql " AS " ++ ident name
  | .subquery query => .parens (query.emit s)

/-- The emissions of expressions. -/
def emitEach (s : Settings) : List Expr → List Emission
  | [] => []
  | e :: es => e.emit s :: emitEach s es

/-- The emission of an optional expression. -/
def emitOption (s : Settings) : Option Expr → Option Emission
  | none => none
  | some e => some (e.emit s)

/-- The emission of branches. -/
def emitBranches (s : Settings) : List Branch → Emission
  | [] => .empty
  | ⟨condition, value⟩ :: bs =>
    sql " WHEN " ++ condition.emit s ++ sql " THEN " ++ value.emit s ++ emitBranches s bs

/-- The emissions of ordering terms. -/
def emitOrders (s : Settings) : List OrderTerm → List Emission
  | [] => []
  | ⟨expr, direction⟩ :: os => (expr.emit s ++ emitDirection direction) :: emitOrders s os

/-- The emission of a query. -/
def Select.emit (s : Settings) : Select → Emission
  | ⟨cores, orders, limit, offset, lock⟩ =>
    let parts : QueryParts :=
      { cores := emitCores s cores
        orders := emitOrders s orders
        limit := renderedOption limit (emitOption s limit)
        offset := renderedOption offset (emitOption s offset)
        lock }
    match s.dialect with
    | .generic => parts.standard s
    | .oracle =>
      -- The probe is rendered with placeholders, whatever the style of the statement is.
      let probe : Probe :=
        if orders.isEmpty then ⟨[], []⟩
        else if s.paramStyle = .inline then
          ⟨emitProjections (s.withStyle .questionMark) cores,
            emitOrders (s.withStyle .questionMark) orders⟩
        else ⟨parts.cores.flatMap (·.projections), parts.orders⟩
      (parts.orderedByAlias probe).bind fun parts => parts.oracle s

/-- The parts of cores. -/
def emitCores (s : Settings) : List Core → List CoreParts
  | [] => []
  | ⟨setOp, distinct, projections, source, wheres, groups, havings⟩ :: cs =>
    { setOp, distinct
      projections := emitEach s projections
      source := emitSource s source
      wheres := renderedList wheres (emitEach s wheres)
      groups := emitEach s groups
      havings := renderedList havings (emitEach s havings) } :: emitCores s cs

/-- The emissions of the projections of all cores. -/
def emitProjections (s : Settings) : List Core → List Emission
  | [] => []
  | ⟨_, _, projections, _, _, _, _⟩ :: cs => emitEach s projections ++ emitProjections s cs

/-- The emission of an optional row source. -/
def emitSource (s : Settings) : Option JoinSource → Option Emission
  | none => none
  | some ⟨base, joins⟩ => some (base.emit s ++ emitJoins s joins)

/-- The emission of joins. -/
def emitJoins (s : Settings) : List Join → Emission
  | [] => .empty
  | ⟨kind, factor, constraint⟩ :: js =>
    sql (" " ++ kind.text ++ " ") ++ factor.emit s
      ++ emitConstraint kind (emitOption s constraint)
      ++ emitJoins s js

/-- The emission of one row source. -/
def TableFactor.emit (s : Settings) : TableFactor → Emission
  | .table t => t.emit
  | .derived query name => .parens (query.emit s) ++ sql " " ++ ident name

end

end SqlCompiler
