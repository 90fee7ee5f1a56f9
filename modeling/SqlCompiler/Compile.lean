import SqlCompiler.Sql.Change

/-!
# Compiling

`compile` writes a statement for the target that the options name. `distinctProjections` gives the
projections of a query without duplicates that is ordered by other columns than it selects.

The entry points `compile` and `distinct_projections`, the second with `projections_for_distinct` of
the order fix-up.
-/

namespace SqlCompiler

/-- The version of the compiler, as its signature gives it. -/
def version : String :=
  "0.3.0"

/-- The comment that says which compiler made a text. -/
def signature (dialect : Dialect) : String :=
  "\n\n-- Generated by sqlshim version:" ++ version ++ " (target: " ++ dialect.text ++ ")\n"

/-- A compiled statement with its text laid out, if the options ask for that. -/
def Compiled.laidOut (c : Compiled) (o : Options) (layout : String → String) : Compiled :=
  if o.format then { c with sql := layout c.sql } else c

/-- A compiled statement with a signature, if the options ask for one. -/
def Compiled.signed (c : Compiled) (o : Options) (dialect : Dialect) : Compiled :=
  if o.signatureComment then { c with sql := c.sql ++ signature dialect } else c

/-- Adds a note about the fault that a computation ended in. -/
def Traced.noteFault {α : Type} (x : Traced α) : Traced α :=
  match x.outcome with
  | .ok _ => x
  | .error f => { x with notes := x.notes ++ [.failed f] }

/-- Compiles a statement by settings. -/
def compileWith (s : Settings) (st : Statement) : Traced Compiled :=
  (Traced.note (.compiling s.dialect s.capabilities.pagination)).bind fun _ =>
    (st.emit s).bind fun pieces => .ok (Piece.compiled s.paramStyle pieces)

/-- Compiles a statement. What lays the text out is a library of its own, so the layout is given;
the signature comes behind the text as it is laid out. -/
def compile (o : Options) (st : Statement) (layout : String → String := id) : Traced Compiled :=
  Traced.noteFault <|
    (Traced.ofExcept o.settings).bind fun s =>
      (compileWith s st).bind fun c => .ok ((c.laidOut o layout).signed o s.dialect)

/-- The projection that stands for the ordering term at an index. -/
def aliasProjection (partition : String) (index : Nat) (term : String) : Expr :=
  .raw (windowMarker ++ "(" ++ term ++ ") OVER (PARTITION BY " ++ partition ++ " ORDER BY " ++ term
    ++ ") AS " ++ orderAlias index)

/-- The projections of a query without duplicates of `columns` that is ordered by `orders`: one for
each ordering term, then the columns. -/
def distinctProjections (o : Options) (columns : List Expr) (orders : List OrderTerm) :
    Traced (List Expr) :=
  (Traced.ofExcept o.settings).bind fun s =>
    let s := s.withStyle .inline
    if columns.isEmpty then .fail .noDistinctColumns
    else
      ((Emission.join ", " (emitEach s columns)).asText .inline).bind fun partition =>
      (orderTexts .inline (emitOrders s orders)).bind fun terms =>
        let terms := (terms.map OrderText.bareTerm).filter (!·.isEmpty)
        .ok ((terms.map String.ofList).mapIdx (aliasProjection partition) ++ columns)

end SqlCompiler
