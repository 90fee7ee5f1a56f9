import SqlCompiler.Sql.Literal

/-!
# Queries from their parts

A query is written in two steps: first its expressions and sources, then the clauses around them.
`QueryParts` are what the first step leaves, and `QueryParts.standard` is the second step in the
form of standard SQL. Rewrites of a query are functions on its parts.

`CoreParts.emit` is `walk_select_core`, `SetOperator.emit` is `walk_set_operator`, `emitBounds` is
`write_pagination` with `walk_limit` and `walk_offset`, `TableRef.emit` is `write_table`, and
`QueryParts.standard` is `walk_select`.
-/

namespace SqlCompiler

open Emission (sql ident)

/-- The parts of a core. -/
structure CoreParts where
  /-- How the core is combined with those before it. -/
  setOp : Option SetOperator
  /-- Duplicate rows are dropped. -/
  distinct : Bool
  /-- What is selected. -/
  projections : List Emission
  /-- Where the rows come from. -/
  source : Option Emission
  /-- The conditions on rows. -/
  wheres : List Rendered
  /-- The grouping. -/
  groups : List Emission
  /-- The conditions on groups. -/
  havings : List Rendered

/-- The parts of a query. -/
structure QueryParts where
  /-- The cores. -/
  cores : List CoreParts
  /-- The terms of the ordering. -/
  orders : List Emission
  /-- The row limit. -/
  limit : Option Rendered
  /-- The row offset. -/
  offset : Option Rendered
  /-- The lock. -/
  lock : Option Lock

/-- Expressions with their emissions. -/
def renderedList (es : List Expr) (emissions : List Emission) : List Rendered :=
  List.zipWith Rendered.mk es emissions

/-- An optional expression with its emission. -/
def renderedOption (e : Option Expr) (emission : Option Emission) : Option Rendered :=
  match e, emission with
  | some e, some emission => some ⟨e, emission⟩
  | _, _ => none

/-- A name with a dot after it, if there is one. -/
def qualifier : Option String → Emission
  | none => .empty
  | some name => ident name ++ sql "."

/-- The emission of a table. -/
def TableRef.emit (t : TableRef) : Emission :=
  qualifier t.schema ++ ident t.name
    ++ match t.rename with
      | some name => sql " " ++ ident name
      | none => .empty

/-- The emission of a core. -/
def CoreParts.emit (c : CoreParts) : Emission :=
  sql (if c.distinct then "SELECT DISTINCT " else "SELECT ")
    ++ (if c.projections.isEmpty then sql "*" else .join ", " c.projections)
    ++ (match c.source with
      | some source => sql " FROM " ++ source
      | none => .empty)
    ++ conditions " WHERE " c.wheres
    ++ .clause " GROUP BY " ", " c.groups
    ++ conditions " HAVING " c.havings

/-- The emission of a set operator. Oracle has no `EXCEPT`, and keeps duplicates only in a union. -/
def SetOperator.emit (s : Settings) (op : SetOperator) : Emission :=
  match s.dialect, op.kind, op.all with
  | .oracle, .except, true => .fail (.unsupportedAll .except .oracle)
  | .oracle, .intersect, true => .fail (.unsupportedAll .intersect .oracle)
  | .oracle, .except, false => sql "MINUS"
  | _, kind, all => sql (if all then kind.text ++ " ALL" else kind.text)

/-- The cores after the first; each has a set operator. -/
def laterCores (s : Settings) : Nat → List CoreParts → Emission
  | _, [] => .empty
  | index, c :: cs =>
    (match c.setOp with
      | some op => sql " " ++ op.emit s ++ sql " " ++ c.emit
      | none => .fail (.missingSetOperator index))
      ++ laterCores s (index + 1) cs

/-- The cores of a query; the first has no set operator. -/
def emitCoreParts (s : Settings) : List CoreParts → Emission
  | [] => .fail .noCores
  | c :: cs =>
    (match c.setOp with
      | some op => .fail (.leadingSetOperator op.kind)
      | none => c.emit)
      ++ laterCores s 1 cs

/-- One row bound, where the target has a clause for it. -/
def emitBound (s : Settings) (bound : RowBound) (e : Emission) : Emission :=
  match s.capabilities.pagination, bound with
  | .limitOffset, .limit => sql " LIMIT " ++ e
  | .limitOffset, .offset => sql " OFFSET " ++ e
  | .fetchFirst, .limit => sql " FETCH FIRST " ++ e ++ sql " ROWS ONLY"
  | .fetchFirst, .offset => sql " OFFSET " ++ e ++ sql " ROWS"
  | .rowNumber, bound => .fail (.unsupportedBound bound s.dialect)

/-- An optional row bound. -/
def emitBound? (s : Settings) (bound : RowBound) : Option Rendered → Emission
  | some r => emitBound s bound r.emission
  | none => .empty

/-- The row bounds: the limit first, or last where the target has `FETCH FIRST`. -/
def emitBounds (s : Settings) (limit offset : Option Rendered) : Emission :=
  if s.capabilities.pagination = .fetchFirst then
    emitBound? s .offset offset ++ emitBound? s .limit limit
  else emitBound? s .limit limit ++ emitBound? s .offset offset

/-- The emission of a query in standard form. -/
def QueryParts.standard (s : Settings) (q : QueryParts) : Emission :=
  emitCoreParts s q.cores
    ++ .clause " ORDER BY " ", " q.orders
    ++ emitBounds s q.limit q.offset
    ++ match q.lock with
      | some lock => sql (" " ++ lock.text)
      | none => .empty

end SqlCompiler
