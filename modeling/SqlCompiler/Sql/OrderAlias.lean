import SqlCompiler.Sql.OrderText
import SqlCompiler.Sql.RowWindow

/-!
# Ordering by aliases

A query without duplicates can only be ordered by what it selects. Its ordering terms are therefore
selected too, each as the first value over the partition of the distinct columns, under the name
`alias_i__`. A query that has such projections is then ordered by those names.

The order fix-up pass of Oracle: `QueryParts.orderedByAlias` is `order_hacks`, and `anyMarked` is
`has_window_projection`.
-/

namespace SqlCompiler

open Emission (sql)

/-- What marks a projection that stands for an ordering term. -/
def windowMarker : String :=
  "FIRST_VALUE"

/-- A text occurs in another. -/
def occursIn (needle : List Char) : List Char → Bool
  | [] => needle.isEmpty
  | c :: cs => needle.isPrefixOf (c :: cs) || occursIn needle cs

/-- The name of the ordering term at an index. -/
def orderAlias (index : Nat) : String :=
  "alias_" ++ toString index ++ "__"

/-- The text of an emission, made on the side: only its notes and its fault stay. -/
def Emission.asText (style : ParamStyle) (e : Emission) : Traced String :=
  e.bind fun ps => .ok (Piece.render style ps)

/-- One of the projections holds the marker. Projections after it are not looked at. -/
def anyMarked : List Emission → Traced Bool
  | [] => .ok false
  | e :: es =>
    (e.asText .questionMark).bind fun text =>
      if occursIn windowMarker.toList text.toList then .ok true else anyMarked es

/-- The ordering terms of all orderings, as texts. -/
def orderTexts (style : ParamStyle) : List Emission → Traced (List (List Char))
  | [] => .ok []
  | e :: es =>
    (e.asText style).bind fun text =>
      (orderTexts style es).bind fun rest => .ok (OrderText.splitTerms text.toList ++ rest)

/-- The ordering by the alias of a term; `index` is the term's. -/
def aliasOrder (index : Nat) (term : List Char) : Emission :=
  .verbatim (orderAlias index ++ if OrderText.isDescending term then " DESC" else "")

/-- What is looked at to find out whether a query is ordered by aliases. -/
structure Probe where
  /-- The projections of all cores. -/
  projections : List Emission
  /-- The orderings. -/
  orders : List Emission

/-- The query ordered by aliases, if it has projections for its ordering terms. -/
def QueryParts.orderedByAlias (q : QueryParts) (probe : Probe) : Traced QueryParts :=
  if q.orders.isEmpty then .ok q
  else
    (anyMarked probe.projections).bind fun marked =>
      if marked then
        (orderTexts .questionMark probe.orders).bind fun terms =>
        (Traced.note (.orderAliases terms.length)).bind fun _ =>
          .ok { q with orders := terms.mapIdx aliasOrder }
      else .ok q

/-- The emission of a query for Oracle. -/
def QueryParts.oracle (s : Settings) (q : QueryParts) : Emission :=
  match s.capabilities.pagination with
  | .rowNumber => q.byRowNumber s
  | .fetchFirst =>
    if (q.limit.isSome || q.offset.isSome) && q.lock.isSome then .fail (.lockedLimit s.dialect)
    else q.standard s
  | .limitOffset => q.standard s

end SqlCompiler
