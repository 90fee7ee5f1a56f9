import SqlCompiler.Data.Shape
import SqlCompiler.Target.Options

/-!
# The exchange format

The shapes of the statement tree, of the options and of the compiled result. A field that is left
out takes its default where it has one, and an optional field is then absent.
-/

namespace SqlCompiler.Format

open Data

/-- The named types of the format. -/
inductive TypeName where
  | statement
  | select
  | core
  | setOperator
  | setKind
  | quantifier
  | limit
  | offset
  | orderTerm
  | sortDirection
  | lock
  | joinSource
  | join
  | joinKind
  | tableFactor
  | tableRef
  | assignment
  | update
  | delete
  | expr
  | exprKind
  | branch
  | literal
  | binaryOp
  | unaryOp
  | options
  | target
  | dialect
  | paramStyle
  | capabilities
  | compiled
  | boundParam
  deriving DecidableEq

/-- A field that must be there. -/
def required (name : String) (shape : Shape TypeName) : FieldShape TypeName :=
  { name, shape }

/-- A field that may be null, and may be left out of an object. -/
def optional (name : String) (shape : Shape TypeName) : FieldShape TypeName :=
  { name, shape, optional := true }

/-- A field that may be null, and may be left out. -/
def omissible (name : String) (shape : Shape TypeName) : FieldShape TypeName :=
  { name, shape, optional := true, default? := some .none }

/-- A list that is empty when it is left out. -/
def listed (name : String) (item : TypeName) : FieldShape TypeName :=
  { name, shape := .list item, default? := some (.list []) }

/-- A variant that holds one value of a named type. -/
def holding (name : String) (type : TypeName) : Case TypeName :=
  ⟨name, .one (.named type) false⟩

/-- A variant with fields. -/
def having (name : String) (fields : List (FieldShape TypeName)) : Case TypeName :=
  ⟨name, .fields fields⟩

/-- A type whose variants hold nothing. -/
def enumeration {α : Type} (type : String) (all : List α) (name : α → String) :
    Definition TypeName :=
  .variants type (all.map fun a => ⟨name a, .nothing⟩)

/-- An expression. -/
def expr : Shape TypeName :=
  .named .expr

/-- The fields that say which rows change. -/
def rowFields : List (FieldShape TypeName) :=
  [listed "wheres" .expr, listed "orders" .orderTerm, omissible "limit" (.named .limit),
   omissible "offset" (.named .offset), listed "groups" .expr, listed "havings" .expr,
   omissible "key" expr]

/-- The kinds of expressions. -/
def exprCases : List (Case TypeName) :=
  [having "Column" [optional "relation" .text, required "name" .text],
   having "Star" [optional "relation" .text],
   holding "Literal" .literal,
   having "Param" [required "name" .text, optional "value" (.named .literal)],
   ⟨"SqlLiteral", .one .text false⟩,
   having "Binary" [required "left" expr, required "op" (.named .binaryOp), required "right" expr],
   having "Unary" [required "op" (.named .unaryOp), required "expr" expr],
   having "IsNull" [required "expr" expr, required "negated" .bool],
   having "IsDistinctFrom"
     [required "left" expr, required "right" expr, required "negated" .bool],
   having "Between"
     [required "expr" expr, required "low" expr, required "high" expr, required "negated" .bool],
   having "InList" [required "expr" expr, required "list" (.list .expr), required "negated" .bool],
   having "HomogeneousIn"
     [required "left" expr, required "values" (.list .expr), required "negated" .bool],
   having "InSubquery"
     [required "expr" expr, required "subquery" (.named .select), required "negated" .bool],
   having "Exists" [required "subquery" (.named .select), required "negated" .bool],
   having "Function"
     [required "name" .text, required "args" (.list .expr), required "distinct" .bool],
   having "Window"
     [required "function" expr, required "partition_by" (.list .expr),
      required "order_by" (.list .orderTerm)],
   having "Case"
     [optional "operand" expr, required "cases" (.list .branch), optional "default" expr],
   having "Cast" [required "expr" expr, required "data_type" .text],
   holding "Grouping" .expr,
   having "Alias" [required "expr" expr, required "alias" .text],
   holding "Subquery" .select]

/-- The definitions of all types. -/
def define : TypeName → Definition TypeName
  | .statement =>
    .variants "Statement"
      [holding "Select" .select, holding "Update" .update, holding "Delete" .delete]
  | .select =>
    .record "SelectStatement"
      [required "cores" (.list .core), listed "orders" .orderTerm,
       omissible "limit" (.named .limit), omissible "offset" (.named .offset),
       omissible "lock" (.named .lock)]
  | .core =>
    .record "SelectCore"
      [omissible "set_op" (.named .setOperator), omissible "quantifier" (.named .quantifier),
       listed "projections" .expr, omissible "source" (.named .joinSource),
       listed "wheres" .expr, listed "groups" .expr, listed "havings" .expr]
  | .setOperator =>
    .record "SetOperator"
      [required "kind" (.named .setKind),
       { name := "all", shape := .bool, default? := some (.bool false) }]
  | .setKind => enumeration "SetOperatorKind" SetKind.all SetKind.name
  | .quantifier => .variants "SetQuantifier" [⟨"Distinct", .nothing⟩]
  | .limit => .record "Limit" [required "expr" expr]
  | .offset => .record "Offset" [required "expr" expr]
  | .orderTerm =>
    .record "OrderExpr" [required "expr" expr, omissible "direction" (.named .sortDirection)]
  | .sortDirection => enumeration "SortDirection" SortDirection.all SortDirection.name
  | .lock => enumeration "Lock" Lock.all Lock.name
  | .joinSource =>
    .record "JoinSource" [required "base" (.named .tableFactor), listed "joins" .join]
  | .join =>
    .record "Join"
      [required "kind" (.named .joinKind), required "factor" (.named .tableFactor),
       omissible "constraint" expr]
  | .joinKind => enumeration "JoinKind" JoinKind.all JoinKind.name
  | .tableFactor =>
    .variants "TableFactor"
      [holding "Table" .tableRef,
       having "Derived" [required "subquery" (.named .select), required "alias" .text]]
  | .tableRef =>
    .record "TableRef" [omissible "schema" .text, required "name" .text, omissible "alias" .text]
  | .assignment => .record "Assignment" [required "column" .text, required "value" expr]
  | .update =>
    .record "UpdateStatement"
      (required "relation" (.named .tableRef) :: required "assignments" (.list .assignment)
        :: rowFields)
  | .delete => .record "DeleteStatement" (required "relation" (.named .tableRef) :: rowFields)
  | .expr => .record "Expr" [required "kind" (.named .exprKind)]
  | .exprKind => .variants "ExprKind" exprCases
  | .branch => .record "SwitchCase" [required "condition" expr, required "value" expr]
  | .literal =>
    .variants "Literal"
      [⟨"Null", .nothing⟩, ⟨"Boolean", .one .bool false⟩, ⟨"Integer", .one .integer false⟩,
       ⟨"Float", .one .float false⟩, ⟨"String", .one .text false⟩]
  | .binaryOp => enumeration "BinOp" BinaryOp.all BinaryOp.name
  | .unaryOp => enumeration "UnOp" UnaryOp.all UnaryOp.name
  | .options =>
    .record "Options"
      [required "format" .bool, required "target" (.named .target),
       required "signature_comment" .bool, optional "capabilities" (.named .capabilities),
       optional "param_style" (.named .paramStyle), optional "emulate_booleans" .bool]
  | .target => .variants "Target" [⟨"Sql", .one (.named .dialect) true⟩]
  | .dialect => enumeration "Dialect" Dialect.all Dialect.name
  | .paramStyle => enumeration "ParamStyle" ParamStyle.all ParamStyle.name
  | .capabilities =>
    .record "Capabilities"
      [required "offset_limit" .bool, required "fetch_first" .bool, optional "max_in_list" .size]
  | .compiled =>
    .record "CompiledSql" [required "sql" .text, required "params" (.list .boundParam)]
  | .boundParam =>
    .record "BoundParam"
      [required "marker" .text, required "name" .text, optional "value" (.named .literal)]

end SqlCompiler.Format
