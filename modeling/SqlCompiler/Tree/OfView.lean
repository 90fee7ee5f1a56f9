import SqlCompiler.Tree.View

/-!
# The tree from tagged data

The functions called `ofView?` take a part of the statement tree out of its view. They look at names
of variants and at the order of fields, and give none where the data is not a view.

`Statement.ofView?` takes the statement out of the data that `to_statement` reads.
-/

namespace SqlCompiler

open Data (Value)

/-- The member of a closed set that has a name. -/
def byName? {α : Type} (all : List α) (name : α → String) (s : String) : Option α :=
  all.find? fun a => name a == s

/-- All binary operators. -/
def BinaryOp.all : List BinaryOp :=
  [.eq, .notEq, .lt, .ltEq, .gt, .gtEq, .and, .or, .add, .sub, .mul, .div, .mod, .concat, .like,
   .notLike]

/-- All unary operators. -/
def UnaryOp.all : List UnaryOp :=
  [.neg, .not]

/-- All kinds of set operators. -/
def SetKind.all : List SetKind :=
  [.union, .intersect, .except]

/-- Both sort directions. -/
def SortDirection.all : List SortDirection :=
  [.asc, .desc]

/-- All locks. -/
def Lock.all : List Lock :=
  [.forUpdate, .forUpdateNoWait, .forUpdateSkipLocked]

/-- All kinds of joins. -/
def JoinKind.all : List JoinKind :=
  [.inner, .left, .right, .full, .cross]

/-- A member of a closed set from its variant. -/
def ofVariant? {α : Type} (all : List α) (name : α → String) : Value → Option α
  | .variant s => byName? all name s
  | _ => none

/-- An optional part from its view. -/
def ofOption? {α : Type} (ofView? : Value → Option α) : Value → Option (Option α)
  | .none => some none
  | .some v => (ofView? v).map some
  | _ => none

/-- A text from its view. -/
def ofText? : Value → Option String
  | .text s => some s
  | _ => none

/-- A truth value from its view. -/
def ofBool? : Value → Option Bool
  | .bool b => some b
  | _ => none

/-- A literal from its view. -/
def Literal.ofView? : Value → Option Literal
  | .variant "Null" => some .null
  | .wrapped "Boolean" (.bool b) => some (.boolean b)
  | .wrapped "Integer" (.int n) => some (.integer (.ofInt n))
  | .wrapped "Float" (.float x) => some (.float x)
  | .wrapped "String" (.text s) => some (.string s)
  | _ => none

/-- A set operator from its view. -/
def SetOperator.ofView? : Value → Option SetOperator
  | .record _ [(_, kind), (_, .bool all)] =>
    (ofVariant? SetKind.all SetKind.name kind).map fun kind => ⟨kind, all⟩
  | _ => none

/-- A table from its view. -/
def TableRef.ofView? : Value → Option TableRef
  | .record _ [(_, schema), (_, .text name), (_, rename)] => do
    return { schema := ← ofOption? ofText? schema, name, rename := ← ofOption? ofText? rename }
  | _ => none

/-- A core's quantifier from its view. -/
def ofDistinct? : Value → Option Bool
  | .none => some false
  | .some (.variant "Distinct") => some true
  | _ => none

mutual

/-- An expression from the view of its kind. -/
def Expr.ofKind? : Value → Option Expr
  | .wrapped "Literal" v => (Literal.ofView? v).map .literal
  | .wrapped "SqlLiteral" (.text s) => some (.raw s)
  | .wrapped "Grouping" v => (Expr.ofView? v).map .grouping
  | .wrapped "Subquery" v => (Select.ofView? v).map .subquery
  | .fielded "Column" [(_, r), (_, .text n)] => (ofOption? ofText? r).map (.column · n)
  | .fielded "Star" [(_, r)] => (ofOption? ofText? r).map .star
  | .fielded "Param" [(_, .text n), (_, v)] => (ofOption? Literal.ofView? v).map (.param n ·)
  | .fielded "Binary" [(_, l), (_, op), (_, r)] => do
    return .binary (← Expr.ofView? l) (← ofVariant? BinaryOp.all BinaryOp.name op)
      (← Expr.ofView? r)
  | .fielded "Unary" [(_, op), (_, e)] => do
    return .unary (← ofVariant? UnaryOp.all UnaryOp.name op) (← Expr.ofView? e)
  | .fielded "IsNull" [(_, e), (_, .bool negated)] => do
    return .isNull (← Expr.ofView? e) negated
  | .fielded "IsDistinctFrom" [(_, l), (_, r), (_, .bool negated)] => do
    return .isDistinctFrom (← Expr.ofView? l) (← Expr.ofView? r) negated
  | .fielded "Between" [(_, e), (_, l), (_, h), (_, .bool negated)] => do
    return .between (← Expr.ofView? e) (← Expr.ofView? l) (← Expr.ofView? h) negated
  | .fielded "InList" [(_, e), (_, .list es), (_, .bool negated)] => do
    return .inList (← Expr.ofView? e) (← exprsOf? es) negated
  | .fielded "HomogeneousIn" [(_, e), (_, .list es), (_, .bool negated)] => do
    return .inValues (← Expr.ofView? e) (← exprsOf? es) negated
  | .fielded "InSubquery" [(_, e), (_, q), (_, .bool negated)] => do
    return .inSubquery (← Expr.ofView? e) (← Select.ofView? q) negated
  | .fielded "Exists" [(_, q), (_, .bool negated)] => do
    return .exists (← Select.ofView? q) negated
  | .fielded "Function" [(_, .text n), (_, .list es), (_, .bool distinct)] => do
    return .function n (← exprsOf? es) distinct
  | .fielded "Window" [(_, f), (_, .list ps), (_, .list os)] => do
    return .window (← Expr.ofView? f) (← exprsOf? ps) (← ordersOf? os)
  | .fielded "Case" [(_, e), (_, .list bs), (_, d)] => do
    return .case (← optionOf? e) (← branchesOf? bs) (← optionOf? d)
  | .fielded "Cast" [(_, e), (_, .text t)] => do
    return .cast (← Expr.ofView? e) t
  | .fielded "Alias" [(_, e), (_, .text n)] => do
    return .named (← Expr.ofView? e) n
  | _ => none

/-- An expression from its view. -/
def Expr.ofView? : Value → Option Expr
  | .record _ [(_, kind)] => Expr.ofKind? kind
  | _ => none

/-- Expressions from their views. -/
def exprsOf? : List Value → Option (List Expr)
  | [] => some []
  | v :: vs => do return (← Expr.ofView? v) :: (← exprsOf? vs)

/-- An optional expression from its view. -/
def optionOf? : Value → Option (Option Expr)
  | .none => some none
  | .some v => (Expr.ofView? v).map some
  | _ => none

/-- An optional row bound from its view. -/
def boundOf? : Value → Option (Option Expr)
  | .none => some none
  | .some (.record _ [(_, v)]) => (Expr.ofView? v).map some
  | _ => none

/-- Branches from their views. -/
def branchesOf? : List Value → Option (List Branch)
  | [] => some []
  | .record _ [(_, c), (_, v)] :: bs => do
    return ⟨← Expr.ofView? c, ← Expr.ofView? v⟩ :: (← branchesOf? bs)
  | _ => none

/-- Ordering terms from their views. -/
def ordersOf? : List Value → Option (List OrderTerm)
  | [] => some []
  | .record _ [(_, e), (_, d)] :: os => do
    return ⟨← Expr.ofView? e,
      ← ofOption? (ofVariant? SortDirection.all SortDirection.name) d⟩ :: (← ordersOf? os)
  | _ => none

/-- A query from its view. -/
def Select.ofView? : Value → Option Select
  | .record _ [(_, .list cs), (_, .list os), (_, l), (_, o), (_, k)] => do
    return ⟨← coresOf? cs, ← ordersOf? os, ← boundOf? l, ← boundOf? o,
      ← ofOption? (ofVariant? Lock.all Lock.name) k⟩
  | _ => none

/-- Cores from their views. -/
def coresOf? : List Value → Option (List Core)
  | [] => some []
  | .record _ [(_, op), (_, q), (_, .list ps), (_, s), (_, .list ws), (_, .list gs), (_, .list hs)]
      :: cs => do
    return ⟨← ofOption? SetOperator.ofView? op, ← ofDistinct? q, ← exprsOf? ps, ← sourceOf? s,
      ← exprsOf? ws, ← exprsOf? gs, ← exprsOf? hs⟩ :: (← coresOf? cs)
  | _ => none

/-- An optional row source from its view. -/
def sourceOf? : Value → Option (Option JoinSource)
  | .none => some none
  | .some (.record _ [(_, b), (_, .list js)]) => do
    return some ⟨← TableFactor.ofView? b, ← joinsOf? js⟩
  | _ => none

/-- Joins from their views. -/
def joinsOf? : List Value → Option (List Join)
  | [] => some []
  | .record _ [(_, k), (_, f), (_, c)] :: js => do
    return ⟨← ofVariant? JoinKind.all JoinKind.name k, ← TableFactor.ofView? f, ← optionOf? c⟩
      :: (← joinsOf? js)
  | _ => none

/-- One row source from its view. -/
def TableFactor.ofView? : Value → Option TableFactor
  | .wrapped "Table" v => (TableRef.ofView? v).map .table
  | .fielded "Derived" [(_, q), (_, .text n)] => (Select.ofView? q).map (.derived · n)
  | _ => none

end

/-- A core from its view. -/
def Core.ofView? (v : Value) : Option Core :=
  match coresOf? [v] with
  | some [core] => some core
  | _ => none

/-- An ordering term from its view. -/
def OrderTerm.ofView? (v : Value) : Option OrderTerm :=
  match ordersOf? [v] with
  | some [order] => some order
  | _ => none

/-- An assignment from its view. -/
def Assignment.ofView? : Value → Option Assignment
  | .record _ [(_, .text column), (_, v)] => (Expr.ofView? v).map (⟨column, ·⟩)
  | _ => none

/-- The choice of rows from its fields. -/
def RowChoice.ofFields? : List (String × Value) → Option RowChoice
  | [(_, .list ws), (_, .list os), (_, l), (_, o), (_, .list gs), (_, .list hs), (_, k)] => do
    return { wheres := ← exprsOf? ws, orders := ← ordersOf? os, limit := ← boundOf? l
             offset := ← boundOf? o, groups := ← exprsOf? gs, havings := ← exprsOf? hs
             key := ← optionOf? k }
  | _ => none

/-- An update from its view. -/
def Update.ofView? : Value → Option Update
  | .record _ ((_, t) :: (_, .list as) :: rows) => do
    return ⟨← TableRef.ofView? t, ← as.mapM Assignment.ofView?, ← RowChoice.ofFields? rows⟩
  | _ => none

/-- A delete from its view. -/
def Delete.ofView? : Value → Option Delete
  | .record _ ((_, t) :: rows) => do
    return ⟨← TableRef.ofView? t, ← RowChoice.ofFields? rows⟩
  | _ => none

/-- A statement from its view. -/
def Statement.ofView? : Value → Option Statement
  | .wrapped "Select" v => (Select.ofView? v).map .select
  | .wrapped "Update" v => (Update.ofView? v).map .update
  | .wrapped "Delete" v => (Delete.ofView? v).map .delete
  | _ => none

end SqlCompiler
