import SqlCompiler.Format.Codec
import SqlCompiler.Proofs.Exchange.Shapes
import SqlCompiler.Tree.Construct

/-!
# Statements in the exchange format

A statement is taken out of its view again (`Statement.ofView?_view`), and its view fits the shape
that the format has for statements (`Statement.fits`). So reading undoes writing
(`Statement.ofJson_toJson`). Writing is `from_statement` and reading `to_statement`.
-/

namespace SqlCompiler

open Data (Value Fits FitItems FitsPlace FitFields)
open Format (TypeName define)

/-! ## Out of views -/

/-- A chain of readings goes on with what has been read. -/
theorem bind_of_some {α β : Type} {x : Option α} {a : α} {f : α → Option β} {b : β}
    (h : x = some a) (hf : f a = some b) : x.bind f = some b := by
  rw [h]
  exact hf

/-- What has been read is put under its constructor. -/
theorem map_of_some {α β : Type} {x : Option α} {a : α} {f : α → β} (h : x = some a) :
    x.map f = some (f a) := by
  rw [h]
  rfl

/-- An optional part is taken out of its view as the part is. -/
theorem ofOption?_option {α : Type} {view : α → Value} {ofView? : Value → Option α}
    (h : ∀ a, ofView? (view a) = some a) (o : Option α) :
    ofOption? ofView? (.option (o.map view)) = some o := by
  obtain _ | a := o
  · rfl
  · exact map_of_some (h a)

/-- A text that may be missing is taken out of its view. -/
theorem ofOption?_textView (s : Option String) : ofOption? ofText? (textView s) = some s := by
  cases s <;> rfl

/-- A literal is taken out of its view. -/
theorem Literal.ofView?_view (l : Literal) : Literal.ofView? l.view = some l := by
  cases l with
  | integer n => exact congrArg (fun n => some (Literal.integer n)) (Int64.ofInt_toInt n)
  | _ => rfl

/-- A binary operator is found by its name. -/
theorem BinaryOp.ofVariant?_name (op : BinaryOp) :
    ofVariant? BinaryOp.all BinaryOp.name (.variant op.name) = some op := by
  cases op <;> rfl

/-- A unary operator is found by its name. -/
theorem UnaryOp.ofVariant?_name (op : UnaryOp) :
    ofVariant? UnaryOp.all UnaryOp.name (.variant op.name) = some op := by
  cases op <;> rfl

/-- A kind of join is found by its name. -/
theorem JoinKind.ofVariant?_name (kind : JoinKind) :
    ofVariant? JoinKind.all JoinKind.name (.variant kind.name) = some kind := by
  cases kind <;> rfl

/-- A direction that may be missing is taken out of its view. -/
theorem ofOption?_directionView (d : Option SortDirection) :
    ofOption? (ofVariant? SortDirection.all SortDirection.name) (directionView d) = some d :=
  ofOption?_option (fun d => by cases d <;> rfl) d

/-- A lock that may be missing is taken out of its view. -/
theorem ofOption?_lock (l : Option Lock) :
    ofOption? (ofVariant? Lock.all Lock.name) (.option (l.map fun l => .variant l.name))
      = some l :=
  ofOption?_option (fun l => by cases l <;> rfl) l

/-- A set operator is taken out of its view. -/
theorem SetOperator.ofView?_view (op : SetOperator) : SetOperator.ofView? op.view = some op := by
  obtain ⟨kind, all⟩ := op
  cases kind <;> rfl

/-- The quantifier of a core is taken out of its view. -/
theorem ofDistinct?_distinctView (distinct : Bool) :
    ofDistinct? (distinctView distinct) = some distinct := by
  cases distinct <;> rfl

/-- A table is taken out of its view. -/
theorem TableRef.ofView?_view (t : TableRef) : TableRef.ofView? t.view = some t :=
  bind_of_some (ofOption?_textView t.schema) (bind_of_some (ofOption?_textView t.rename) rfl)

-- An expression is its kind in a record of one field, so what holds of `Expr.ofKind?` and the kind
-- is by definition what holds of `Expr.ofView?` and the record.
mutual

/-- An expression is taken out of the view of its kind. -/
theorem Expr.ofKind?_kind (e : Expr) : Expr.ofKind? e.kind = some e := by
  -- One case for each kind of expression, in the order of its fields.
  match e with
  | .column relation _ => exact map_of_some (ofOption?_textView relation)
  | .star relation => exact map_of_some (ofOption?_textView relation)
  | .literal value => exact map_of_some value.ofView?_view
  | .param _ value => exact map_of_some (ofOption?_option Literal.ofView?_view value)
  | .raw _ => rfl
  | .binary left op right =>
    exact bind_of_some left.ofKind?_kind <| bind_of_some op.ofVariant?_name <|
      bind_of_some right.ofKind?_kind rfl
  | .unary op operand =>
    exact bind_of_some op.ofVariant?_name <| bind_of_some operand.ofKind?_kind rfl
  | .isNull operand _ => exact bind_of_some operand.ofKind?_kind rfl
  | .isDistinctFrom left right _ =>
    exact bind_of_some left.ofKind?_kind <| bind_of_some right.ofKind?_kind rfl
  | .between operand low high _ =>
    exact bind_of_some operand.ofKind?_kind <| bind_of_some low.ofKind?_kind <|
      bind_of_some high.ofKind?_kind rfl
  | .inList operand list _ =>
    exact bind_of_some operand.ofKind?_kind <| bind_of_some (exprsOf?_exprViews list) rfl
  | .inValues operand values _ =>
    exact bind_of_some operand.ofKind?_kind <| bind_of_some (exprsOf?_exprViews values) rfl
  | .inSubquery operand query _ =>
    exact bind_of_some operand.ofKind?_kind <| bind_of_some query.ofView?_view rfl
  | .exists query _ => exact bind_of_some query.ofView?_view rfl
  | .function _ args _ => exact bind_of_some (exprsOf?_exprViews args) rfl
  -- The parts are read in the order of the fields, so the chain follows them.
  | .window function partitionBy orderBy =>
    exact bind_of_some function.ofKind?_kind <|
      bind_of_some (exprsOf?_exprViews partitionBy) <|
      bind_of_some (ordersOf?_orderViews orderBy) rfl
  | .case operand branches default =>
    exact bind_of_some (optionOf?_optionView operand) <|
      bind_of_some (branchesOf?_branchViews branches) <|
      bind_of_some (optionOf?_optionView default) rfl
  | .cast operand _ => exact bind_of_some operand.ofKind?_kind rfl
  | .grouping inner => exact map_of_some inner.ofKind?_kind
  | .named inner _ => exact bind_of_some inner.ofKind?_kind rfl
  | .subquery query => exact map_of_some query.ofView?_view

/-- Expressions are taken out of their views. -/
theorem exprsOf?_exprViews (es : List Expr) : exprsOf? (exprViews es) = some es := by
  match es with
  | [] => rfl
  | e :: es => exact bind_of_some e.ofKind?_kind <| bind_of_some (exprsOf?_exprViews es) rfl

/-- An expression that may be missing is taken out of its view. -/
theorem optionOf?_optionView (e : Option Expr) : optionOf? (optionView e) = some e := by
  match e with
  | none => rfl
  | some e => exact map_of_some e.ofKind?_kind

/-- A row bound is taken out of its view. -/
theorem boundOf?_boundView (name : String) (e : Option Expr) :
    boundOf? (boundView name e) = some e := by
  match e with
  | none => rfl
  | some e => exact map_of_some e.ofKind?_kind

/-- Branches are taken out of their views. -/
theorem branchesOf?_branchViews (bs : List Branch) :
    branchesOf? (branchViews bs) = some bs := by
  match bs with
  | [] => rfl
  | ⟨condition, value⟩ :: bs =>
    exact bind_of_some condition.ofKind?_kind <| bind_of_some value.ofKind?_kind <|
      bind_of_some (branchesOf?_branchViews bs) rfl

/-- Ordering terms are taken out of their views. -/
theorem ordersOf?_orderViews (os : List OrderTerm) : ordersOf? (orderViews os) = some os := by
  match os with
  | [] => rfl
  | ⟨expr, direction⟩ :: os =>
    exact bind_of_some expr.ofKind?_kind <|
      bind_of_some (ofOption?_directionView direction) <|
      bind_of_some (ordersOf?_orderViews os) rfl

/-- A query is taken out of its view. -/
theorem Select.ofView?_view (q : Select) : Select.ofView? q.view = some q := by
  match q with
  | ⟨cores, orders, limit, offset, lock⟩ =>
    exact bind_of_some (coresOf?_coreViews cores) <| bind_of_some (ordersOf?_orderViews orders) <|
      bind_of_some (boundOf?_boundView _ limit) <| bind_of_some (boundOf?_boundView _ offset) <|
      bind_of_some (ofOption?_lock lock) rfl

/-- Cores are taken out of their views. -/
theorem coresOf?_coreViews (cs : List Core) : coresOf? (coreViews cs) = some cs := by
  match cs with
  | [] => rfl
  | ⟨setOp, distinct, projections, source, wheres, groups, havings⟩ :: cs =>
    -- A core has seven fields, and a set operator is one that may be missing.
    exact bind_of_some (ofOption?_option SetOperator.ofView?_view setOp) <|
      bind_of_some (ofDistinct?_distinctView distinct) <|
      bind_of_some (exprsOf?_exprViews projections) <|
      bind_of_some (sourceOf?_sourceView source) <|
      bind_of_some (exprsOf?_exprViews wheres) <| bind_of_some (exprsOf?_exprViews groups) <|
      bind_of_some (exprsOf?_exprViews havings) <| bind_of_some (coresOf?_coreViews cs) rfl

/-- A row source that may be missing is taken out of its view. -/
theorem sourceOf?_sourceView (s : Option JoinSource) : sourceOf? (sourceView s) = some s := by
  match s with
  | none => rfl
  | some ⟨base, joins⟩ =>
    exact bind_of_some base.ofView?_view <| bind_of_some (joinsOf?_joinViews joins) rfl

/-- Joined sources are taken out of their views. -/
theorem joinsOf?_joinViews (js : List Join) : joinsOf? (joinViews js) = some js := by
  match js with
  | [] => rfl
  | ⟨kind, factor, constraint⟩ :: js =>
    exact bind_of_some kind.ofVariant?_name <| bind_of_some factor.ofView?_view <|
      bind_of_some (optionOf?_optionView constraint) <| bind_of_some (joinsOf?_joinViews js) rfl

/-- A single source is taken out of its view. -/
theorem TableFactor.ofView?_view (f : TableFactor) : TableFactor.ofView? f.view = some f := by
  match f with
  | .table t => exact map_of_some t.ofView?_view
  | .derived query _ => exact map_of_some query.ofView?_view

end

/-- An assignment is taken out of its view. -/
theorem Assignment.ofView?_view (a : Assignment) : Assignment.ofView? a.view = some a :=
  map_of_some a.value.ofKind?_kind

/-- Assignments are taken out of their views. -/
theorem mapM_assignmentViews (as : List Assignment) :
    (as.map Assignment.view).mapM Assignment.ofView? = some as := by
  induction as with
  | nil => rfl
  | cons a as ih =>
    rw [List.map_cons, List.mapM_cons]
    exact bind_of_some a.ofView?_view <| bind_of_some ih rfl

/-- A choice of rows is taken out of its fields. -/
theorem RowChoice.ofFields?_fieldViews (r : RowChoice) :
    RowChoice.ofFields? r.fieldViews = some r :=
  bind_of_some (exprsOf?_exprViews r.wheres) <| bind_of_some (ordersOf?_orderViews r.orders) <|
    bind_of_some (boundOf?_boundView _ r.limit) <| bind_of_some (boundOf?_boundView _ r.offset) <|
    bind_of_some (exprsOf?_exprViews r.groups) <| bind_of_some (exprsOf?_exprViews r.havings) <|
    bind_of_some (optionOf?_optionView r.key) rfl

/-- An update is taken out of its view. -/
theorem Update.ofView?_view (u : Update) : Update.ofView? u.view = some u :=
  bind_of_some u.relation.ofView?_view <| bind_of_some (mapM_assignmentViews u.assignments) <|
    bind_of_some u.rows.ofFields?_fieldViews rfl

/-- A deletion is taken out of its view. -/
theorem Delete.ofView?_view (d : Delete) : Delete.ofView? d.view = some d :=
  bind_of_some d.relation.ofView?_view <| bind_of_some d.rows.ofFields?_fieldViews rfl

/-- A statement is taken out of its view. -/
theorem Statement.ofView?_view (s : Statement) : Statement.ofView? s.view = some s := by
  cases s with
  | select q => exact map_of_some q.ofView?_view
  | update u => exact map_of_some u.ofView?_view
  | delete d => exact map_of_some d.ofView?_view

/-! ## Views that fit -/

/-- Data that may be missing fits its place if all such data fits the type. -/
theorem fitsPlace_option {α : Type} {view : α → Value} {type : TypeName}
    (h : ∀ a, Fits define (.named type) (view a)) (o : Option α) :
    FitsPlace define (.named type) true (.option (o.map view)) := by
  obtain _ | a := o
  · exact .absent
  · exact .present (h a)

/-- A text that may be missing fits its place. -/
theorem fitsPlace_textView (s : Option String) : FitsPlace define .text true (textView s) := by
  obtain _ | s := s
  · exact .absent
  · exact .present (.text s)

/-- The members of an enumeration fit it. -/
theorem fits_enumeration {α : Type} {type : TypeName} {typeName : String} {all : List α}
    {name : α → String} (hdefine : define type = Format.enumeration typeName all name) {a : α}
    (ha : a ∈ all) : Fits define (.named type) (.variant (name a)) := by
  refine .variant hdefine ?_
  obtain ⟨c, hfind⟩ : ∃ c, (all.map fun a => (⟨name a, .nothing⟩ : Data.Case TypeName)).find?
      (·.name == name a) = some c :=
    Option.isSome_iff_exists.mp (List.find?_isSome.mpr
      ⟨_, List.mem_map_of_mem ha, beq_self_eq_true (name a)⟩)
  have hbeq := List.find?_some hfind
  obtain ⟨b, _, rfl⟩ := List.mem_map.mp (List.mem_of_find?_eq_some hfind)
  -- What is found has the same name, so it is the same variant.
  have hname : name b = name a := eq_of_beq hbeq
  rw [Data.findCase, hfind, hname]

/-- The view of a literal fits its type. -/
theorem Literal.fits (l : Literal) : Fits define (.named .literal) l.view := by
  cases l with
  | null => exact .variant rfl rfl
  | boolean b => exact .wrapped rfl rfl (.required (.bool b))
  | integer n => exact .wrapped rfl rfl (.required (.integer n))
  | float x => exact .wrapped rfl rfl (.required (.float x))
  | string s => exact .wrapped rfl rfl (.required (.text s))

/-- The name of a binary operator fits its type. -/
theorem BinaryOp.fits (op : BinaryOp) : Fits define (.named .binaryOp) (.variant op.name) :=
  fits_enumeration rfl (by cases op <;> decide)

/-- The name of a unary operator fits its type. -/
theorem UnaryOp.fits (op : UnaryOp) : Fits define (.named .unaryOp) (.variant op.name) :=
  fits_enumeration rfl (by cases op <;> decide)

/-- The name of a direction fits its type. -/
theorem SortDirection.fits (d : SortDirection) :
    Fits define (.named .sortDirection) (.variant d.name) :=
  fits_enumeration rfl (by cases d <;> decide)

/-- The name of a lock fits its type. -/
theorem Lock.fits (l : Lock) : Fits define (.named .lock) (.variant l.name) :=
  fits_enumeration rfl (by cases l <;> decide)

/-- The name of a kind of join fits its type. -/
theorem JoinKind.fits (kind : JoinKind) : Fits define (.named .joinKind) (.variant kind.name) :=
  fits_enumeration rfl (by cases kind <;> decide)

/-- The name of a kind of set operator fits its type. -/
theorem SetKind.fits (kind : SetKind) : Fits define (.named .setKind) (.variant kind.name) :=
  fits_enumeration rfl (by cases kind <;> decide)

/-- The view of a set operator fits its type. -/
theorem SetOperator.fits (op : SetOperator) : Fits define (.named .setOperator) op.view :=
  .record rfl <| .cons (.required op.kind.fits) <| .cons (.required (.bool op.all)) .nil

/-- The quantifier of a core fits its place. -/
theorem fitsPlace_distinctView (distinct : Bool) :
    FitsPlace define (.named .quantifier) true (distinctView distinct) := by
  cases distinct with
  | false => exact .absent
  | true => exact .present (.variant rfl rfl)

/-- The view of a table fits its type. -/
theorem TableRef.fits (t : TableRef) : Fits define (.named .tableRef) t.view :=
  .record rfl <| .cons (fitsPlace_textView t.schema) <| .cons (.required (.text t.name)) <|
    .cons (fitsPlace_textView t.rename) .nil

/-- An expression fits its type if its kind does. -/
theorem fits_exprView {kind : Value} (h : Fits define (.named .exprKind) kind) :
    Fits define (.named .expr) (exprView kind) :=
  .record rfl <| .cons (.required h) .nil

-- For each constructor the two `rfl` look up the type's variants and the one of that name.
mutual

/-- The view of an expression's kind fits. -/
theorem Expr.fits (e : Expr) : Fits define (.named .exprKind) e.kind := by
  -- Again one case for each kind; a kind with fields has them in the order of the shape.
  match e with
  | .column relation name =>
    exact .fielded rfl rfl <| .cons (fitsPlace_textView relation) <|
      .cons (.required (.text name)) .nil
  | .star relation => exact .fielded rfl rfl <| .cons (fitsPlace_textView relation) .nil
  | .literal value => exact .wrapped rfl rfl (.required value.fits)
  | .param name value =>
    exact .fielded rfl rfl <| .cons (.required (.text name)) <|
      .cons (fitsPlace_option Literal.fits value) .nil
  | .raw text => exact .wrapped rfl rfl (.required (.text text))
  | .binary left op right =>
    exact .fielded rfl rfl <| .cons (.required (fits_exprView left.fits)) <|
      .cons (.required op.fits) <| .cons (.required (fits_exprView right.fits)) .nil
  | .unary op operand =>
    exact .fielded rfl rfl <| .cons (.required op.fits) <|
      .cons (.required (fits_exprView operand.fits)) .nil
  | .isNull operand negated =>
    exact .fielded rfl rfl <| .cons (.required (fits_exprView operand.fits)) <|
      .cons (.required (.bool negated)) .nil
  | .isDistinctFrom left right negated =>
    exact .fielded rfl rfl <| .cons (.required (fits_exprView left.fits)) <|
      .cons (.required (fits_exprView right.fits)) <| .cons (.required (.bool negated)) .nil
  | .between operand low high negated =>
    exact .fielded rfl rfl <| .cons (.required (fits_exprView operand.fits)) <|
      .cons (.required (fits_exprView low.fits)) <| .cons (.required (fits_exprView high.fits)) <|
      .cons (.required (.bool negated)) .nil
  | .inList operand list negated =>
    exact .fielded rfl rfl <| .cons (.required (fits_exprView operand.fits)) <|
      .cons (.required (.list (fitItems_exprViews list))) <| .cons (.required (.bool negated)) .nil
  | .inValues operand values negated =>
    exact .fielded rfl rfl <| .cons (.required (fits_exprView operand.fits)) <|
      .cons (.required (.list (fitItems_exprViews values))) <|
      .cons (.required (.bool negated)) .nil
  | .inSubquery operand query negated =>
    exact .fielded rfl rfl <| .cons (.required (fits_exprView operand.fits)) <|
      .cons (.required query.fits) <| .cons (.required (.bool negated)) .nil
  | .exists query negated =>
    exact .fielded rfl rfl <| .cons (.required query.fits) <| .cons (.required (.bool negated)) .nil
  | .function name args distinct =>
    exact .fielded rfl rfl <| .cons (.required (.text name)) <|
      .cons (.required (.list (fitItems_exprViews args))) <| .cons (.required (.bool distinct)) .nil
  | .window function partitionBy orderBy =>
    exact .fielded rfl rfl <| .cons (.required (fits_exprView function.fits)) <|
      .cons (.required (.list (fitItems_exprViews partitionBy))) <|
      .cons (.required (.list (fitItems_orderViews orderBy))) .nil
  | .case operand branches default =>
    exact .fielded rfl rfl <| .cons (fitsPlace_optionView operand) <|
      .cons (.required (.list (fitItems_branchViews branches))) <|
      .cons (fitsPlace_optionView default) .nil
  | .cast operand dataType =>
    exact .fielded rfl rfl <| .cons (.required (fits_exprView operand.fits)) <|
      .cons (.required (.text dataType)) .nil
  | .grouping inner => exact .wrapped rfl rfl (.required (fits_exprView inner.fits))
  | .named inner name =>
    exact .fielded rfl rfl <| .cons (.required (fits_exprView inner.fits)) <|
      .cons (.required (.text name)) .nil
  | .subquery query => exact .wrapped rfl rfl (.required query.fits)

/-- The views of expressions fit the type of expressions. -/
theorem fitItems_exprViews (es : List Expr) : FitItems define .expr (exprViews es) := by
  match es with
  | [] => exact .nil
  | e :: es => exact .cons (fits_exprView e.fits) (fitItems_exprViews es)

/-- An expression that may be missing fits its place. -/
theorem fitsPlace_optionView (e : Option Expr) :
    FitsPlace define Format.expr true (optionView e) := by
  match e with
  | none => exact .absent
  | some e => exact .present (fits_exprView e.fits)

/-- A row bound fits its place, which is a record with an expression. -/
theorem fitsPlace_boundView {type : TypeName} {name : String}
    (hdefine : define type = .record name [Format.required "expr" Format.expr])
    (e : Option Expr) : FitsPlace define (.named type) true (boundView name e) := by
  match e with
  | none => exact .absent
  | some e => exact .present (.record hdefine <| .cons (.required (fits_exprView e.fits)) .nil)

/-- The views of branches fit their type. -/
theorem fitItems_branchViews (bs : List Branch) :
    FitItems define .branch (branchViews bs) := by
  match bs with
  | [] => exact .nil
  | ⟨condition, value⟩ :: bs =>
    refine .cons (.record rfl ?_) (fitItems_branchViews bs)
    exact .cons (.required (fits_exprView condition.fits)) <|
      .cons (.required (fits_exprView value.fits)) .nil

/-- The views of ordering terms fit their type. -/
theorem fitItems_orderViews (os : List OrderTerm) :
    FitItems define .orderTerm (orderViews os) := by
  match os with
  | [] => exact .nil
  | ⟨expr, direction⟩ :: os =>
    refine .cons (.record rfl ?_) (fitItems_orderViews os)
    exact .cons (.required (fits_exprView expr.fits)) <|
      .cons (fitsPlace_option SortDirection.fits direction) .nil

/-- The view of a query fits its type. -/
theorem Select.fits (q : Select) : Fits define (.named .select) q.view := by
  match q with
  | ⟨cores, orders, limit, offset, lock⟩ =>
    exact .record rfl <| .cons (.required (.list (fitItems_coreViews cores))) <|
      .cons (.required (.list (fitItems_orderViews orders))) <|
      .cons (fitsPlace_boundView rfl limit) <| .cons (fitsPlace_boundView rfl offset) <|
      .cons (fitsPlace_option Lock.fits lock) .nil

/-- The views of cores fit their type. -/
theorem fitItems_coreViews (cs : List Core) : FitItems define .core (coreViews cs) := by
  match cs with
  | [] => exact .nil
  | ⟨setOp, distinct, projections, source, wheres, groups, havings⟩ :: cs =>
    refine .cons (.record rfl ?_) (fitItems_coreViews cs)
    exact .cons (fitsPlace_option SetOperator.fits setOp) <|
      .cons (fitsPlace_distinctView distinct) <|
      .cons (.required (.list (fitItems_exprViews projections))) <|
      .cons (fitsPlace_sourceView source) <|
      .cons (.required (.list (fitItems_exprViews wheres))) <|
      .cons (.required (.list (fitItems_exprViews groups))) <|
      .cons (.required (.list (fitItems_exprViews havings))) .nil

/-- A row source that may be missing fits its place. -/
theorem fitsPlace_sourceView (s : Option JoinSource) :
    FitsPlace define (.named .joinSource) true (sourceView s) := by
  match s with
  | none => exact .absent
  | some ⟨base, joins⟩ =>
    exact .present <| .record rfl <| .cons (.required base.fits) <|
      .cons (.required (.list (fitItems_joinViews joins))) .nil

/-- The views of joined sources fit their type. -/
theorem fitItems_joinViews (js : List Join) : FitItems define .join (joinViews js) := by
  match js with
  | [] => exact .nil
  | ⟨kind, factor, constraint⟩ :: js =>
    refine .cons (.record rfl ?_) (fitItems_joinViews js)
    exact .cons (.required kind.fits) <| .cons (.required factor.fits) <|
      .cons (fitsPlace_optionView constraint) .nil

/-- The view of a single source fits its type. -/
theorem TableFactor.fits (f : TableFactor) : Fits define (.named .tableFactor) f.view := by
  match f with
  | .table t => exact .wrapped rfl rfl (.required t.fits)
  | .derived query name =>
    exact .fielded rfl rfl <| .cons (.required query.fits) <| .cons (.required (.text name)) .nil

end

/-- The view of an assignment fits its type. -/
theorem Assignment.fits (a : Assignment) : Fits define (.named .assignment) a.view :=
  .record rfl <| .cons (.required (.text a.column)) <|
    .cons (.required (fits_exprView a.value.fits)) .nil

/-- The views of assignments fit their type. -/
theorem fitItems_assignmentViews (as : List Assignment) :
    FitItems define .assignment (as.map Assignment.view) := by
  induction as with
  | nil => exact .nil
  | cons a as ih => exact .cons a.fits ih

/-- The fields of a choice of rows fit the fields that both changes share. -/
theorem RowChoice.fits (r : RowChoice) : FitFields define Format.rowFields r.fieldViews :=
  .cons (.required (.list (fitItems_exprViews r.wheres))) <|
    .cons (.required (.list (fitItems_orderViews r.orders))) <|
    .cons (fitsPlace_boundView rfl r.limit) <| .cons (fitsPlace_boundView rfl r.offset) <|
    .cons (.required (.list (fitItems_exprViews r.groups))) <|
    .cons (.required (.list (fitItems_exprViews r.havings))) <|
    .cons (fitsPlace_optionView r.key) .nil

/-- The view of an update fits its type. -/
theorem Update.fits (u : Update) : Fits define (.named .update) u.view :=
  .record rfl <| .cons (.required u.relation.fits) <|
    .cons (.required (.list (fitItems_assignmentViews u.assignments))) u.rows.fits

/-- The view of a deletion fits its type. -/
theorem Delete.fits (d : Delete) : Fits define (.named .delete) d.view :=
  .record rfl <| .cons (.required d.relation.fits) d.rows.fits

/-- The view of a statement fits. -/
theorem Statement.fits (s : Statement) : Fits define (.named .statement) s.view := by
  cases s with
  | select q => exact .wrapped rfl rfl (.required q.fits)
  | update u => exact .wrapped rfl rfl (.required u.fits)
  | delete d => exact .wrapped rfl rfl (.required d.fits)

/-! ## Reading what is written -/

/-- No record or variant of the format has two fields of one name. -/
theorem distinctFields_define : Data.DistinctFields define := by
  intro type
  cases type <;> decide

/-- Reading undoes writing for every statement without float literals whose text does not nest more
than 127 arrays and objects. -/
theorem Statement.ofJson_toJson {s : Statement} (hfloat : s.view.holdsFloat = false)
    (hdepth : s.view.document.nesting ≤ 127) : Statement.ofJson s.toJson = .ok s := by
  -- The text is read as a document, the document by its shape, the statement out of the view.
  have hparse : Json.Document.parse s.toJson.toList = ⟨s.view.document, true⟩ := by
    rw [Statement.toJson, Value.json, Json.Document.text, String.toList_ofList]
    exact Json.Document.parse_compact (s.fits.isPlain hfloat)
  have hread : Data.read define Data.maxDepth (.shape (.named .statement)) s.view.document
      = .ok s.view := s.fits.read distinctFields_define hfloat Data.maxDepth hdepth
  simp only [Statement.ofJson, Format.ofText, Format.ofDocument, hparse, hread, bind, Except.bind,
    s.ofView?_view]
  rfl

/-- An update with characters that are escaped, the least integer, a subquery, and optional parts of
which some are absent. -/
theorem ofJson_toJson_of_update :
    let query : Select :=
      { Select.fromTable "t\u0001" [.col "b\n"] with lock := some .forUpdateSkipLocked }
    let s : Statement := .update ⟨{ schema := some "a\"\\\u001F", name := "π𝄞" },
      [⟨"", .literal (.integer Int64.minValue)⟩, ⟨"c", .param "p" none⟩],
      { wheres := [.case none [⟨.literal .null, .inSubquery (.star (some "t")) query true⟩] none]
        orders := [⟨.raw "x", some .desc⟩, ⟨.raw "y", none⟩], key := some (.subquery query) }⟩
    s.view.holdsFloat = false ∧ s.view.document.nesting ≤ 127 ∧
      Statement.ofJson s.toJson = .ok s := by
  intro query s
  have hfloat : s.view.holdsFloat = false := rfl
  have hdepth : s.view.document.nesting ≤ 127 := by decide
  exact ⟨hfloat, hdepth, Statement.ofJson_toJson hfloat hdepth⟩

end SqlCompiler
