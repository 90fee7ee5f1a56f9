import Mathlib.Data.List.Forall2
import SqlCompiler.Tree.Statement

/-!
# Trees that agree up to their literals

Two trees agree if they have the same nodes and the literals in the same places are related by some
`Z`: those of literal nodes, of value lists and of parameters. With the equality of literals for `Z`
that is the equality of trees (`Expr.eq_of_agree`, `Expr.agree_self`).
-/

namespace SqlCompiler

mutual

/-- The expressions have the same nodes, with related literals. -/
inductive Expr.Agree (Z : Literal → Literal → Prop) : Expr → Expr → Prop where
  | column (relation : Option String) (name : String) :
      Expr.Agree Z (.column relation name) (.column relation name)
  | star (relation : Option String) : Expr.Agree Z (.star relation) (.star relation)
  | literal {l l' : Literal} (h : Z l l') : Expr.Agree Z (.literal l) (.literal l')
  | param (name : String) {v v' : Option Literal} (h : Option.Rel Z v v') :
      Expr.Agree Z (.param name v) (.param name v')
  | raw (text : String) : Expr.Agree Z (.raw text) (.raw text)
  | binary {a a' b b' : Expr} (op : BinaryOp) (ha : Expr.Agree Z a a') (hb : Expr.Agree Z b b') :
      Expr.Agree Z (.binary a op b) (.binary a' op b')
  | unary {a a' : Expr} (op : UnaryOp) (ha : Expr.Agree Z a a') :
      Expr.Agree Z (.unary op a) (.unary op a')
  | isNull {a a' : Expr} (negated : Bool) (ha : Expr.Agree Z a a') :
      Expr.Agree Z (.isNull a negated) (.isNull a' negated)
  | isDistinctFrom {a a' b b' : Expr} (negated : Bool) (ha : Expr.Agree Z a a')
      (hb : Expr.Agree Z b b') :
      Expr.Agree Z (.isDistinctFrom a b negated) (.isDistinctFrom a' b' negated)
  | between {a a' b b' c c' : Expr} (negated : Bool) (ha : Expr.Agree Z a a')
      (hb : Expr.Agree Z b b') (hc : Expr.Agree Z c c') :
      Expr.Agree Z (.between a b c negated) (.between a' b' c' negated)
  | inList {a a' : Expr} {es es' : List Expr} (negated : Bool) (ha : Expr.Agree Z a a')
      (hes : List.Forall₂ (Expr.Agree Z) es es') :
      Expr.Agree Z (.inList a es negated) (.inList a' es' negated)
  | inValues {a a' : Expr} {es es' : List Expr} (negated : Bool) (ha : Expr.Agree Z a a')
      (hes : List.Forall₂ (Expr.Agree Z) es es') :
      Expr.Agree Z (.inValues a es negated) (.inValues a' es' negated)
  | inSubquery {a a' : Expr} {q q' : Select} (negated : Bool) (ha : Expr.Agree Z a a')
      (hq : Select.Agree Z q q') :
      Expr.Agree Z (.inSubquery a q negated) (.inSubquery a' q' negated)
  | existsIn {q q' : Select} (negated : Bool) (hq : Select.Agree Z q q') :
      Expr.Agree Z (.exists q negated) (.exists q' negated)
  | function {es es' : List Expr} (name : String) (distinct : Bool)
      (hes : List.Forall₂ (Expr.Agree Z) es es') :
      Expr.Agree Z (.function name es distinct) (.function name es' distinct)
  | window {a a' : Expr} {es es' : List Expr} {os os' : List OrderTerm} (ha : Expr.Agree Z a a')
      (hes : List.Forall₂ (Expr.Agree Z) es es') (hos : List.Forall₂ (OrderTerm.Agree Z) os os') :
      Expr.Agree Z (.window a es os) (.window a' es' os')
  | case {a a' b b' : Option Expr} {bs bs' : List Branch} (ha : Option.Rel (Expr.Agree Z) a a')
      (hbs : List.Forall₂ (Branch.Agree Z) bs bs') (hb : Option.Rel (Expr.Agree Z) b b') :
      Expr.Agree Z (.case a bs b) (.case a' bs' b')
  | cast {a a' : Expr} (dataType : String) (ha : Expr.Agree Z a a') :
      Expr.Agree Z (.cast a dataType) (.cast a' dataType)
  | grouping {a a' : Expr} (ha : Expr.Agree Z a a') : Expr.Agree Z (.grouping a) (.grouping a')
  | named {a a' : Expr} (name : String) (ha : Expr.Agree Z a a') :
      Expr.Agree Z (.named a name) (.named a' name)
  | subquery {q q' : Select} (hq : Select.Agree Z q q') :
      Expr.Agree Z (.subquery q) (.subquery q')

/-- The branches have the same nodes, with related literals. -/
inductive Branch.Agree (Z : Literal → Literal → Prop) : Branch → Branch → Prop where
  | mk {a a' b b' : Expr} (ha : Expr.Agree Z a a') (hb : Expr.Agree Z b b') :
      Branch.Agree Z ⟨a, b⟩ ⟨a', b'⟩

/-- The ordering terms have the same nodes, with related literals. -/
inductive OrderTerm.Agree (Z : Literal → Literal → Prop) : OrderTerm → OrderTerm → Prop where
  | mk {a a' : Expr} (direction : Option SortDirection) (ha : Expr.Agree Z a a') :
      OrderTerm.Agree Z ⟨a, direction⟩ ⟨a', direction⟩

/-- The queries have the same nodes, with related literals. -/
inductive Select.Agree (Z : Literal → Literal → Prop) : Select → Select → Prop where
  | mk {cs cs' : List Core} {os os' : List OrderTerm} {l l' o o' : Option Expr}
      (lock : Option Lock) (hcs : List.Forall₂ (Core.Agree Z) cs cs')
      (hos : List.Forall₂ (OrderTerm.Agree Z) os os') (hl : Option.Rel (Expr.Agree Z) l l')
      (ho : Option.Rel (Expr.Agree Z) o o') :
      Select.Agree Z ⟨cs, os, l, o, lock⟩ ⟨cs', os', l', o', lock⟩

/-- The cores have the same nodes, with related literals. -/
inductive Core.Agree (Z : Literal → Literal → Prop) : Core → Core → Prop where
  | mk {ps ps' ws ws' gs gs' hs hs' : List Expr} {j j' : Option JoinSource}
      (setOp : Option SetOperator) (distinct : Bool) (hps : List.Forall₂ (Expr.Agree Z) ps ps')
      (hj : Option.Rel (JoinSource.Agree Z) j j') (hws : List.Forall₂ (Expr.Agree Z) ws ws')
      (hgs : List.Forall₂ (Expr.Agree Z) gs gs') (hhs : List.Forall₂ (Expr.Agree Z) hs hs') :
      Core.Agree Z ⟨setOp, distinct, ps, j, ws, gs, hs⟩ ⟨setOp, distinct, ps', j', ws', gs', hs'⟩

/-- The row sources have the same nodes, with related literals. -/
inductive JoinSource.Agree (Z : Literal → Literal → Prop) : JoinSource → JoinSource → Prop where
  | mk {t t' : TableFactor} {js js' : List Join} (ht : TableFactor.Agree Z t t')
      (hjs : List.Forall₂ (Join.Agree Z) js js') : JoinSource.Agree Z ⟨t, js⟩ ⟨t', js'⟩

/-- The joined sources have the same nodes, with related literals. -/
inductive Join.Agree (Z : Literal → Literal → Prop) : Join → Join → Prop where
  | mk {t t' : TableFactor} {c c' : Option Expr} (kind : JoinKind) (ht : TableFactor.Agree Z t t')
      (hc : Option.Rel (Expr.Agree Z) c c') : Join.Agree Z ⟨kind, t, c⟩ ⟨kind, t', c'⟩

/-- The single sources have the same nodes, with related literals. -/
inductive TableFactor.Agree (Z : Literal → Literal → Prop) : TableFactor → TableFactor → Prop where
  | table (t : TableRef) : TableFactor.Agree Z (.table t) (.table t)
  | derived {q q' : Select} (name : String) (hq : Select.Agree Z q q') :
      TableFactor.Agree Z (.derived q name) (.derived q' name)

end

/-- The assignments are to the same column, of agreeing values. -/
structure Assignment.Agree (Z : Literal → Literal → Prop) (a a' : Assignment) : Prop where
  column : a'.column = a.column
  value : a.value.Agree Z a'.value

/-- The choices of rows have the same nodes, with related literals. -/
structure RowChoice.Agree (Z : Literal → Literal → Prop) (r r' : RowChoice) : Prop where
  wheres : List.Forall₂ (Expr.Agree Z) r.wheres r'.wheres
  orders : List.Forall₂ (OrderTerm.Agree Z) r.orders r'.orders
  limit : Option.Rel (Expr.Agree Z) r.limit r'.limit
  offset : Option.Rel (Expr.Agree Z) r.offset r'.offset
  groups : List.Forall₂ (Expr.Agree Z) r.groups r'.groups
  havings : List.Forall₂ (Expr.Agree Z) r.havings r'.havings
  key : Option.Rel (Expr.Agree Z) r.key r'.key

/-- The statements have the same nodes, with related literals. -/
inductive Statement.Agree (Z : Literal → Literal → Prop) : Statement → Statement → Prop where
  | select {q q' : Select} (hq : q.Agree Z q') : Statement.Agree Z (.select q) (.select q')
  | update {as as' : List Assignment} {r r' : RowChoice} (relation : TableRef)
      (has : List.Forall₂ (Assignment.Agree Z) as as') (hr : r.Agree Z r') :
      Statement.Agree Z (.update ⟨relation, as, r⟩) (.update ⟨relation, as', r'⟩)
  | delete {r r' : RowChoice} (relation : TableRef) (hr : r.Agree Z r') :
      Statement.Agree Z (.delete ⟨relation, r⟩) (.delete ⟨relation, r'⟩)

variable {Z : Literal → Literal → Prop}

section Lists

variable {α : Type} {r : α → α → Prop}

/-- A reflexive relation relates an option to itself. -/
theorem optionRel_self (hr : ∀ a, r a a) (x : Option α) : Option.Rel r x x := by
  cases x with
  | none => exact .none
  | some a => exact .some (hr a)

/-- Options are equal if only equal values are related. -/
theorem eq_of_optionRel (hr : ∀ a b, r a b → a = b) {x y : Option α} (h : Option.Rel r x y) :
    x = y := by
  cases h with
  | none => rfl
  | some h => rw [hr _ _ h]

/-- Lists are equal if only equal items are related. -/
theorem eq_of_forall₂ (hr : ∀ a b, r a b → a = b) {xs ys : List α} (h : List.Forall₂ r xs ys) :
    xs = ys := by
  have heq : List.Forall₂ (· = ·) xs ys := h.imp hr
  rwa [List.forall₂_eq_eq_eq] at heq

end Lists

mutual

/-- An expression agrees with itself, if every literal is related to itself. -/
theorem Expr.agree_self (hZ : ∀ l, Z l l) : (e : Expr) → e.Agree Z e
  | .column relation name => .column relation name
  | .star relation => .star relation
  -- The relation of literals is used here and for parameters, and nowhere else.
  | .literal l => .literal (hZ l)
  | .param name v => .param name (optionRel_self hZ v)
  | .raw text => .raw text
  | .binary a op b => .binary op (a.agree_self hZ) (b.agree_self hZ)
  | .unary op a => .unary op (a.agree_self hZ)
  | .isNull a negated => .isNull negated (a.agree_self hZ)
  | .isDistinctFrom a b negated => .isDistinctFrom negated (a.agree_self hZ) (b.agree_self hZ)
  | .between a b c negated =>
    .between negated (a.agree_self hZ) (b.agree_self hZ) (c.agree_self hZ)
  | .inList a es negated => .inList negated (a.agree_self hZ) (agree_self_each hZ es)
  | .inValues a es negated => .inValues negated (a.agree_self hZ) (agree_self_each hZ es)
  | .inSubquery a q negated => .inSubquery negated (a.agree_self hZ) (q.agree_self hZ)
  | .exists q negated => .existsIn negated (q.agree_self hZ)
  | .function name es distinct => .function name distinct (agree_self_each hZ es)
  | .window a es os =>
    .window (a.agree_self hZ) (agree_self_each hZ es) (agree_self_orders hZ os)
  | .case a bs b =>
    .case (agree_self_option hZ a) (agree_self_branches hZ bs) (agree_self_option hZ b)
  | .cast a dataType => .cast dataType (a.agree_self hZ)
  | .grouping a => .grouping (a.agree_self hZ)
  | .named a name => .named name (a.agree_self hZ)
  | .subquery q => .subquery (q.agree_self hZ)

/-- Each expression of a list agrees with itself. -/
theorem agree_self_each (hZ : ∀ l, Z l l) : (es : List Expr) → List.Forall₂ (Expr.Agree Z) es es
  | [] => .nil
  | e :: es => .cons (e.agree_self hZ) (agree_self_each hZ es)

/-- An expression that may be missing agrees with itself. -/
theorem agree_self_option (hZ : ∀ l, Z l l) : (e : Option Expr) → Option.Rel (Expr.Agree Z) e e
  | none => .none
  | some e => .some (e.agree_self hZ)

/-- The branches of a case distinction agree with themselves. -/
theorem agree_self_branches (hZ : ∀ l, Z l l) :
    (bs : List Branch) → List.Forall₂ (Branch.Agree Z) bs bs
  | [] => .nil
  | ⟨a, b⟩ :: bs => .cons (.mk (a.agree_self hZ) (b.agree_self hZ)) (agree_self_branches hZ bs)

/-- Ordering terms agree with themselves. -/
theorem agree_self_orders (hZ : ∀ l, Z l l) :
    (os : List OrderTerm) → List.Forall₂ (OrderTerm.Agree Z) os os
  | [] => .nil
  | ⟨a, direction⟩ :: os => .cons (.mk direction (a.agree_self hZ)) (agree_self_orders hZ os)

/-- A query agrees with itself, if every literal is related to itself. -/
theorem Select.agree_self (hZ : ∀ l, Z l l) : (q : Select) → q.Agree Z q
  | ⟨cs, os, l, o, lock⟩ =>
    .mk lock (agree_self_cores hZ cs) (agree_self_orders hZ os) (agree_self_option hZ l)
      (agree_self_option hZ o)

/-- The cores of a query agree with themselves. -/
theorem agree_self_cores (hZ : ∀ l, Z l l) : (cs : List Core) → List.Forall₂ (Core.Agree Z) cs cs
  | [] => .nil
  | ⟨setOp, distinct, ps, j, ws, gs, hs⟩ :: cs =>
    .cons (.mk setOp distinct (agree_self_each hZ ps) (agree_self_source hZ j)
      (agree_self_each hZ ws) (agree_self_each hZ gs) (agree_self_each hZ hs))
      (agree_self_cores hZ cs)

/-- A row source that may be missing agrees with itself. -/
theorem agree_self_source (hZ : ∀ l, Z l l) :
    (j : Option JoinSource) → Option.Rel (JoinSource.Agree Z) j j
  | none => .none
  | some ⟨t, js⟩ => .some (.mk (t.agree_self hZ) (agree_self_joins hZ js))

/-- Joined sources agree with themselves. -/
theorem agree_self_joins (hZ : ∀ l, Z l l) : (js : List Join) → List.Forall₂ (Join.Agree Z) js js
  | [] => .nil
  | ⟨kind, t, c⟩ :: js =>
    .cons (.mk kind (t.agree_self hZ) (agree_self_option hZ c)) (agree_self_joins hZ js)

/-- A single source agrees with itself, if every literal is related to itself. -/
theorem TableFactor.agree_self (hZ : ∀ l, Z l l) : (t : TableFactor) → t.Agree Z t
  | .table t => .table t
  -- A derived table holds a query, which closes the circle of the mutual induction.
  | .derived q name => .derived name (q.agree_self hZ)

end

mutual

/-- Expressions that agree are equal, if only equal literals are related. -/
theorem Expr.eq_of_agree (hZ : ∀ l l', Z l l' → l = l') : (e e' : Expr) → e.Agree Z e' → e = e'
  | .column _ _, _, .column _ _ => rfl
  | .star _, _, .star _ => rfl
  -- Again only literals and parameters need the relation.
  | .literal _, _, .literal h => congrArg _ (hZ _ _ h)
  | .param _ _, _, .param _ h => congrArg _ (eq_of_optionRel hZ h)
  | .raw _, _, .raw _ => rfl
  | .binary a _ b, _, .binary _ ha hb => by rw [a.eq_of_agree hZ _ ha, b.eq_of_agree hZ _ hb]
  | .unary _ a, _, .unary _ ha => by rw [a.eq_of_agree hZ _ ha]
  | .isNull a _, _, .isNull _ ha => by rw [a.eq_of_agree hZ _ ha]
  | .isDistinctFrom a b _, _, .isDistinctFrom _ ha hb => by
    rw [a.eq_of_agree hZ _ ha, b.eq_of_agree hZ _ hb]
  | .between a b c _, _, .between _ ha hb hc => by
    rw [a.eq_of_agree hZ _ ha, b.eq_of_agree hZ _ hb, c.eq_of_agree hZ _ hc]
  | .inList a es _, _, .inList _ ha hes => by
    rw [a.eq_of_agree hZ _ ha, eq_of_agree_each hZ es _ hes]
  | .inValues a es _, _, .inValues _ ha hes => by
    rw [a.eq_of_agree hZ _ ha, eq_of_agree_each hZ es _ hes]
  | .inSubquery a q _, _, .inSubquery _ ha hq => by
    rw [a.eq_of_agree hZ _ ha, q.eq_of_agree hZ _ hq]
  | .exists q _, _, .existsIn _ hq => by rw [q.eq_of_agree hZ _ hq]
  | .function _ es _, _, .function _ _ hes => by rw [eq_of_agree_each hZ es _ hes]
  | .window a es os, _, .window ha hes hos => by
    rw [a.eq_of_agree hZ _ ha, eq_of_agree_each hZ es _ hes, eq_of_agree_orders hZ os _ hos]
  | .case a bs b, _, .case ha hbs hb => by
    rw [eq_of_agree_option hZ a _ ha, eq_of_agree_branches hZ bs _ hbs,
      eq_of_agree_option hZ b _ hb]
  | .cast a _, _, .cast _ ha => by rw [a.eq_of_agree hZ _ ha]
  | .grouping a, _, .grouping ha => by rw [a.eq_of_agree hZ _ ha]
  | .named a _, _, .named _ ha => by rw [a.eq_of_agree hZ _ ha]
  | .subquery q, _, .subquery hq => by rw [q.eq_of_agree hZ _ hq]
termination_by structural e => e

/-- Lists of expressions that agree are equal. -/
theorem eq_of_agree_each (hZ : ∀ l l', Z l l' → l = l') :
    (es es' : List Expr) → List.Forall₂ (Expr.Agree Z) es es' → es = es'
  | [], _, .nil => rfl
  | e :: es, _, .cons he hes => by rw [e.eq_of_agree hZ _ he, eq_of_agree_each hZ es _ hes]
termination_by structural es => es

/-- Expressions that may be missing and agree are equal. -/
theorem eq_of_agree_option (hZ : ∀ l l', Z l l' → l = l') :
    (e e' : Option Expr) → Option.Rel (Expr.Agree Z) e e' → e = e'
  | none, _, .none => rfl
  | some e, _, .some he => by rw [e.eq_of_agree hZ _ he]
termination_by structural e => e

/-- Branches that agree are equal. -/
theorem eq_of_agree_branches (hZ : ∀ l l', Z l l' → l = l') :
    (bs bs' : List Branch) → List.Forall₂ (Branch.Agree Z) bs bs' → bs = bs'
  | [], _, .nil => rfl
  | ⟨a, b⟩ :: bs, _, .cons (.mk ha hb) hbs => by
    rw [a.eq_of_agree hZ _ ha, b.eq_of_agree hZ _ hb, eq_of_agree_branches hZ bs _ hbs]
termination_by structural bs => bs

/-- Ordering terms that agree are equal. -/
theorem eq_of_agree_orders (hZ : ∀ l l', Z l l' → l = l') :
    (os os' : List OrderTerm) → List.Forall₂ (OrderTerm.Agree Z) os os' → os = os'
  | [], _, .nil => rfl
  | ⟨a, _⟩ :: os, _, .cons (.mk _ ha) hos => by
    rw [a.eq_of_agree hZ _ ha, eq_of_agree_orders hZ os _ hos]
termination_by structural os => os

/-- Queries that agree are equal, if only equal literals are related. -/
theorem Select.eq_of_agree (hZ : ∀ l l', Z l l' → l = l') :
    (q q' : Select) → q.Agree Z q' → q = q'
  | ⟨cs, os, l, o, _⟩, _, .mk _ hcs hos hl ho => by
    rw [eq_of_agree_cores hZ cs _ hcs, eq_of_agree_orders hZ os _ hos,
      eq_of_agree_option hZ l _ hl, eq_of_agree_option hZ o _ ho]
termination_by structural q => q

/-- Cores that agree are equal. -/
theorem eq_of_agree_cores (hZ : ∀ l l', Z l l' → l = l') :
    (cs cs' : List Core) → List.Forall₂ (Core.Agree Z) cs cs' → cs = cs'
  | [], _, .nil => rfl
  | ⟨_, _, ps, j, ws, gs, hs⟩ :: cs, _, .cons (.mk _ _ hps hj hws hgs hhs) hcs => by
    rw [eq_of_agree_each hZ ps _ hps, eq_of_agree_source hZ j _ hj, eq_of_agree_each hZ ws _ hws,
      eq_of_agree_each hZ gs _ hgs, eq_of_agree_each hZ hs _ hhs, eq_of_agree_cores hZ cs _ hcs]
termination_by structural cs => cs

/-- Row sources that agree are equal. -/
theorem eq_of_agree_source (hZ : ∀ l l', Z l l' → l = l') :
    (j j' : Option JoinSource) → Option.Rel (JoinSource.Agree Z) j j' → j = j'
  | none, _, .none => rfl
  | some ⟨t, js⟩, _, .some (.mk ht hjs) => by
    rw [t.eq_of_agree hZ _ ht, eq_of_agree_joins hZ js _ hjs]
termination_by structural j => j

/-- Joined sources that agree are equal. -/
theorem eq_of_agree_joins (hZ : ∀ l l', Z l l' → l = l') :
    (js js' : List Join) → List.Forall₂ (Join.Agree Z) js js' → js = js'
  | [], _, .nil => rfl
  | ⟨_, t, c⟩ :: js, _, .cons (.mk _ ht hc) hjs => by
    rw [t.eq_of_agree hZ _ ht, eq_of_agree_option hZ c _ hc, eq_of_agree_joins hZ js _ hjs]
termination_by structural js => js

/-- Single sources that agree are equal, if only equal literals are related. -/
theorem TableFactor.eq_of_agree (hZ : ∀ l l', Z l l' → l = l') :
    (t t' : TableFactor) → t.Agree Z t' → t = t'
  | .table _, _, .table _ => rfl
  | .derived q _, _, .derived _ hq => by rw [q.eq_of_agree hZ _ hq]
termination_by structural t => t

end

/-- A choice of rows agrees with itself, if every literal is related to itself. -/
theorem RowChoice.agree_self (hZ : ∀ l, Z l l) (r : RowChoice) : r.Agree Z r :=
  { wheres := agree_self_each hZ r.wheres
    orders := agree_self_orders hZ r.orders
    limit := agree_self_option hZ r.limit
    offset := agree_self_option hZ r.offset
    groups := agree_self_each hZ r.groups
    havings := agree_self_each hZ r.havings
    key := agree_self_option hZ r.key }

/-- A statement agrees with itself, if every literal is related to itself. -/
theorem Statement.agree_self (hZ : ∀ l, Z l l) (st : Statement) : st.Agree Z st := by
  cases st with
  | select q => exact .select (q.agree_self hZ)
  | update u =>
    -- Assignments are to the columns that they are to, so only their values matter.
    have has : List.Forall₂ (Assignment.Agree Z) u.assignments u.assignments :=
      List.forall₂_same.mpr fun a _ => ⟨rfl, a.value.agree_self hZ⟩
    exact .update u.relation has (u.rows.agree_self hZ)
  | delete d => exact .delete d.relation (d.rows.agree_self hZ)

end SqlCompiler
