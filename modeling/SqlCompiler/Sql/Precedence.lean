import SqlCompiler.Sql.Emission

/-!
# Precedence

Operators bind by strength. An operand is written in parentheses if it binds weaker than the
operator around it, or as strong and on the side to which the operator does not associate.

`needsParens` is `needs_parentheses`, `strength` and `associativity` are `binding_strength` and
`associativity`, `Rendered.operand` is `visit_operand`, and `conjunction` is `visit_conjunction`.
-/

namespace SqlCompiler

/-- The side to which operands of equal strength need no parentheses. -/
inductive Associativity where
  | left
  | both
  | right
  deriving DecidableEq

/-- The side of its operator on which an operand stands. -/
inductive Side where
  | left
  | right
  deriving DecidableEq

/-- Operands on this side need no parentheses. -/
def Associativity.covers : Associativity → Side → Bool
  | .both, _ => true
  | .left, .left => true
  | .right, .right => true
  | _, _ => false

/-- How strong the operator binds. -/
def BinaryOp.strength : BinaryOp → Nat
  | .mul | .div | .mod => 11
  | .add | .sub => 10
  | .concat => 9
  | .like | .notLike => 7
  | .eq | .notEq | .lt | .ltEq | .gt | .gtEq => 6
  | .and => 3
  | .or => 2

/-- Subtraction, division and remainder associate to the left, all else to both sides. -/
def BinaryOp.associativity : BinaryOp → Associativity
  | .sub | .div | .mod => .left
  | _ => .both

/-- How strong the operator binds. -/
def UnaryOp.strength : UnaryOp → Nat
  | .neg => 13
  | .not => 4

/-- A minus after a minus would start a comment, so its operand never goes without parentheses. -/
def UnaryOp.associativity : UnaryOp → Associativity
  | .neg => .left
  | .not => .right

/-- How strong `IS NULL` and `IS DISTINCT FROM` bind. -/
def isStrength : Nat :=
  5

/-- How strong `BETWEEN`, `IN` and `LIKE` bind. -/
def membershipStrength : Nat :=
  7

/-- How strong the outermost operator of an expression binds. A literal with a minus sign binds like
the sign, and what has no operator at its top binds strongest. -/
def Expr.strength : Expr → Nat
  | .binary _ op _ => op.strength
  | .unary op _ => op.strength
  | .literal (.integer n) => if n < 0 then UnaryOp.neg.strength else 20
  | .literal (.float x) => if x.isNegative then UnaryOp.neg.strength else 20
  | .between _ _ _ _ | .inList _ _ _ | .inValues _ _ _ | .inSubquery _ _ _ => membershipStrength
  | .isNull _ _ | .isDistinctFrom _ _ _ => isStrength
  | _ => 20

/-- An operand of strength `child` needs parentheses beside an operator of strength `parent`. -/
def needsParens (child parent : Nat) (side : Side) (associativity : Associativity) : Bool :=
  child < parent || (child == parent && !associativity.covers side)

/-- An expression with its emission. -/
structure Rendered where
  /-- The expression. -/
  expr : Expr
  /-- What is emitted for it. -/
  emission : Emission

/-- The emission of an operand, in parentheses if it needs them. -/
def Rendered.operand (r : Rendered) (side : Side) (strength : Nat)
    (associativity : Associativity) : Emission :=
  if needsParens r.expr.strength strength side associativity then .parens r.emission
  else r.emission

/-- Conditions that must all hold. One alone needs no parentheses. -/
def conjunction : List Rendered → Emission
  | [r] => r.emission
  | rs =>
    .join " AND "
      (rs.map fun r => r.operand .left BinaryOp.and.strength BinaryOp.and.associativity)

/-- Conditions after a keyword; nothing if there are none. -/
def conditions (word : String) (rs : List Rendered) : Emission :=
  if rs.isEmpty then .empty else .sql word ++ conjunction rs

end SqlCompiler
