import SqlCompiler.Sql.Query

/-!
# Row windows by row number

Where the target has no clause for row limits, rows are counted with the pseudo-column `ROWNUM`. It
is given out as rows leave the conditions of a query, before they are ordered. A limit alone goes
into the conditions if the query has no ordering, grouping or duplicate elimination; otherwise the
query is wrapped, and the rows of its finished result are counted.

The pagination pass of Oracle: `QueryParts.byRowNumber` is `write_row_number`, with `can_push_limit`
(`canPushLimit`), `push_limit` (`pushLimit`), `write_upper_bound` (`emitLastRow`) and `constant`
(`constantBound`).
-/

namespace SqlCompiler

open Emission (sql parens note)

/-- The value of a row bound that is a literal, and none for any other expression. It must be an
integer that is not negative. -/
def constantBound (bound : RowBound) : Expr → Except Fault (Option Int64)
  | .literal (.integer n) =>
    if n < 0 then .error (.negativeBound bound n) else .ok (some n)
  | .literal l => .error (.boundNotInteger bound l)
  | _ => .ok none

/-- Checks an optional row bound. -/
def checkBound (bound : RowBound) : Option Rendered → Except Fault Unit
  | some r => (constantBound bound r.expr).map fun _ => ()
  | none => .ok ()

/-- The condition that at most `limit` rows have been counted. -/
def rowNumberAtMost (limit : Rendered) : Rendered :=
  { expr := .binary (.raw "ROWNUM") .ltEq limit.expr
    emission := .verbatim "ROWNUM" ++ sql " <= "
      ++ limit.operand .right BinaryOp.ltEq.strength BinaryOp.ltEq.associativity }

/-- Any `limit` rows of the query will do: it has one core, and no ordering, grouping or duplicate
elimination. -/
def QueryParts.canPushLimit (q : QueryParts) : Bool :=
  match q.cores with
  | [c] => q.orders.isEmpty && c.groups.isEmpty && c.havings.isEmpty && !c.distinct
  | _ => false

/-- The limit as a condition of the query. -/
def QueryParts.pushLimit (q : QueryParts) (limit : Rendered) : QueryParts :=
  { q with
    cores := q.cores.map fun c => { c with wheres := c.wheres ++ [rowNumberAtMost limit] }
    limit := none }

/-- The query without row bounds. -/
def QueryParts.unbounded (q : QueryParts) : QueryParts :=
  { q with limit := none, offset := none }

/-- The number of the last row of a window: the sum of two literals, or a sum that is left to the
database. -/
def emitLastRow (offset limit : Rendered) : Emission :=
  (Traced.ofExcept (constantBound .offset offset.expr)).bind fun o =>
  (Traced.ofExcept (constantBound .limit limit.expr)).bind fun l =>
    match o, l with
    | some o, some l =>
      if o.toInt + l.toInt ≤ Int64.maxValue.toInt then sql (toString (o.toInt + l.toInt))
      else .fail (.boundOverflow o l)
    | _, _ => parens (offset.emission ++ sql " + " ++ limit.emission)

/-- The query wrapped so that its rows are counted and cut off. -/
def QueryParts.wrapped (s : Settings) (q : QueryParts) : Emission :=
  match q.limit, q.offset with
  | some limit, some offset =>
    note .limitAndOffsetWrapped
      ++ sql "SELECT * FROM (SELECT raw_sql_.*, rownum raw_rnum_ FROM ("
      ++ q.unbounded.standard s
      ++ sql ") raw_sql_ WHERE rownum <= "
      ++ emitLastRow offset limit
      ++ sql ") WHERE raw_rnum_ > "
      ++ offset.emission
  | some limit, none =>
    note .limitWrapped
      ++ sql "SELECT * FROM ("
      ++ q.unbounded.standard s
      ++ sql ") WHERE ROWNUM <= "
      ++ limit.emission
  | none, some offset =>
    note .offsetWrapped
      ++ sql "SELECT * FROM (SELECT raw_sql_.*, rownum raw_rnum_ FROM ("
      ++ q.unbounded.standard s
      ++ sql ") raw_sql_) WHERE raw_rnum_ > "
      ++ offset.emission
  | none, none => q.standard s

/-- The emission of a query whose row bounds are kept by row number. A lock reaches only the query
that it stands in, so it cannot go with a wrapped one. -/
def QueryParts.byRowNumber (s : Settings) (q : QueryParts) : Emission :=
  (Traced.ofExcept (checkBound .limit q.limit)).bind fun _ =>
  (Traced.ofExcept (checkBound .offset q.offset)).bind fun _ =>
    match q.limit, q.offset with
    | none, none => q.standard s
    | some limit, none =>
      if q.canPushLimit then note .limitPushed ++ (q.pushLimit limit).standard s
      else if q.lock.isSome then .fail (.lockedEmulation s.dialect)
      else q.wrapped s
    | _, _ => if q.lock.isSome then .fail (.lockedEmulation s.dialect) else q.wrapped s

end SqlCompiler
