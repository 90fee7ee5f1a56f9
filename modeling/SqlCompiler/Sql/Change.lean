import SqlCompiler.Sql.Render
import SqlCompiler.Tree.Construct

/-!
# Statements that change rows

`UPDATE` and `DELETE` choose their rows by conditions, or, where they also have an ordering, a
grouping or a row limit and a key, by a subquery on the key. Oracle takes neither an ordering nor a
row limit on them: an ordering without a limit changes nothing and is dropped, and a limit needs a
key.

`RowChoice.admitted` is `check_dml` with `strip_orders`, `RowChoice.subselect` is
`walk_build_subselect`, and `RowChoice.emit` is `write_dml_filter`.
-/

namespace SqlCompiler

open Emission (sql ident join)

/-- The choice of rows has more than conditions. -/
def RowChoice.needsSubselect (r : RowChoice) : Bool :=
  r.limit.isSome || r.offset.isSome || !r.orders.isEmpty || !r.groups.isEmpty
    || !r.havings.isEmpty

/-- The query for the keys of the chosen rows. -/
def RowChoice.subselect (r : RowChoice) (relation : TableRef) (key : Expr) : Select :=
  { cores :=
      [{ Core.empty with
          projections := [key]
          source := some (.ofTable relation)
          wheres := r.wheres
          groups := r.groups
          havings := r.havings }]
    orders := r.orders
    limit := r.limit
    offset := r.offset
    lock := none }

/-- The clauses that choose rows where there is no key to choose them by. -/
def RowChoice.emitPlain (s : Settings) (r : RowChoice) : Emission :=
  if !r.groups.isEmpty || !r.havings.isEmpty then .fail .groupingWithoutKey
  else
    conditions " WHERE " (renderedList r.wheres (emitEach s r.wheres))
      ++ .clause " ORDER BY " ", " (emitOrders s r.orders)
      ++ emitBounds s (renderedOption r.limit (emitOption s r.limit))
        (renderedOption r.offset (emitOption s r.offset))

/-- The clauses that choose rows. -/
def RowChoice.emit (s : Settings) (relation : TableRef) (r : RowChoice) : Emission :=
  match r.key with
  | some key =>
    if r.needsSubselect then
      sql " WHERE " ++ key.emit s ++ sql " IN (" ++ (r.subselect relation key).emit s ++ sql ")"
    else r.emitPlain s
  | none => r.emitPlain s

/-- The choice of rows that is left of it for a dialect, or the fault that it cannot be made. -/
def RowChoice.admitted (s : Settings) (change : ChangeKind) (r : RowChoice) : Traced RowChoice :=
  match s.dialect with
  | .generic => .ok r
  | .oracle =>
    if !r.orders.isEmpty && r.limit.isSome then .fail (.orderedLimit change)
    else if (r.limit.isSome || r.offset.isSome) && r.key.isNone then
      .fail (.boundWithoutKey change)
    else if r.orders.isEmpty then .ok r
    else (Traced.note (.ordersDropped change)).bind fun _ => .ok { r with orders := [] }

/-- The emission of an assignment. -/
def Assignment.emit (s : Settings) (a : Assignment) : Emission :=
  ident a.column ++ sql " = " ++ a.value.emit s

/-- The emission of an update. -/
def Update.emit (s : Settings) (u : Update) : Emission :=
  (u.rows.admitted s .update).bind fun rows =>
    if u.assignments.isEmpty then .fail .noAssignments
    else
      sql "UPDATE " ++ u.relation.emit ++ sql " SET "
        ++ join ", " (u.assignments.map (·.emit s))
        ++ rows.emit s u.relation

/-- The emission of a delete. -/
def Delete.emit (s : Settings) (d : Delete) : Emission :=
  (d.rows.admitted s .delete).bind fun rows =>
    sql "DELETE FROM " ++ d.relation.emit ++ rows.emit s d.relation

/-- The emission of a statement. -/
def Statement.emit (s : Settings) : Statement → Emission
  | .select q => q.emit s
  | .update u => u.emit s
  | .delete d => d.emit s

end SqlCompiler
