import SqlCompiler.Sql.Precedence

/-!
# Literals and value lists

A literal is written as SQL writes it; a float that is not finite has no spelling. A membership test
in a list of literals is split into several where the target bounds the length of a list: the parts
are joined by `OR`, or by `AND` if the test is negated, so the whole means the same.

`Literal.emit` is `walk_literal`, `emitParam` is `walk_param`, and in `InValues` stand
`literal_values` (`literals`), `write_single` (`single`) and `write_in_list` (`emit`).
-/

namespace SqlCompiler

/-- The emission of a literal. -/
def Literal.emit (s : Settings) : Literal → Emission
  | .null => .sql "NULL"
  | .boolean b =>
    .sql (match s.emulateBooleans, b with
      | true, true => "1"
      | true, false => "0"
      | false, true => "TRUE"
      | false, false => "FALSE")
  | .integer n => .sql (toString n.toInt)
  | .float x => if x.isFinite then .sql (Data.inspectLayout.text x) else .fail (.nonFiniteFloat x)
  | .string content => .piece (.string content)

/-- The emission of a parameter: a placeholder, or the literal that it is bound to. -/
def emitParam (s : Settings) (name : String) (value : Option Literal) : Emission :=
  if s.paramStyle = .inline then
    match value with
    | some l => l.emit s
    | none => .fail (.noValueToInline name)
  else .piece (.param name value)

namespace InValues

/-- The literals of a value list; anything else is a fault. -/
def literals : List Expr → Except Fault (List Literal)
  | [] => .ok []
  | .literal l :: es => (literals es).map (l :: ·)
  | e :: _ => .error (.valueNotLiteral e)

/-- Consecutive parts of at most `size` items; `fuel` bounds their number. -/
def chunksUpTo {α : Type} (size : Nat) : Nat → List α → List (List α)
  | 0, _ => []
  | _, [] => []
  | fuel + 1, xs => xs.take size :: chunksUpTo size fuel (xs.drop size)

/-- Consecutive parts of `size` items; the last may be shorter. -/
def chunks {α : Type} (size : Nat) (xs : List α) : List (List α) :=
  chunksUpTo size xs.length xs

/-- A membership test in one list. -/
def single (s : Settings) (operand : Emission) (negated : Bool) (values : List Literal) :
    Emission :=
  operand ++ .sql (if negated then " NOT IN (" else " IN (")
    ++ .join ", " (values.map (·.emit s)) ++ .sql ")"

/-- A membership test in as many lists as are needed. Nothing is in an empty list. -/
def emit (s : Settings) (operand : Emission) (negated : Bool) (values : List Literal) : Emission :=
  if values.isEmpty then
    if negated then .sql "1=1" else operand ++ .sql " IN (NULL)"
  else
    match s.capabilities.maxInList with
    | some max =>
      if max < values.length then
        let parts := chunks max values
        .note (.splitInList values.length parts.length)
          ++ .parens (.join (if negated then " AND " else " OR ")
            (parts.map (single s operand negated)))
      else single s operand negated values
    | none => single s operand negated values

end InValues

/-- The emission of a membership test in a list of literals. -/
def emitInValues (s : Settings) (left : Rendered) (values : List Expr) (negated : Bool) :
    Emission :=
  (Traced.ofExcept (InValues.literals values)).bind fun literals =>
    InValues.emit s (left.operand .left membershipStrength .left) negated literals

end SqlCompiler
