import Mathlib.Logic.Relation
import Mathlib.Tactic.Tauto
import SqlCompiler.Proofs.QueryParts

/-!
# The nodes that a statement is written from

Expressions and queries are the nodes of a statement. The children of a node are the nodes that its
text is put together from, and a node visits its children, their children and so on. Not everything
in the tree is visited: a test for membership in an empty list is written without its operand, and a
change that needs no subquery without its key.

What holds of a node if it holds of its children holds of all nodes (`Node.induction`), and what
comes down to a condition on each single node is that condition on all nodes that are visited
(`Node.iff_forall_visits`).
-/

namespace SqlCompiler

/-- A node with an emission of its own. -/
inductive Node where
  | expr (e : Expr)
  | query (q : Select)

/-- The emission of a node. -/
def Node.emit (s : Settings) : Node → Emission
  | .expr e => e.emit s
  | .query q => q.emit s

/-- An expression is emitted as itself. -/
@[simp]
theorem Node.emit_expr (s : Settings) (e : Expr) : (Node.expr e).emit s = e.emit s :=
  rfl

/-- A query is emitted as itself. -/
@[simp]
theorem Node.emit_query (s : Settings) (q : Select) : (Node.query q).emit s = q.emit s :=
  rfl

/-! ## Children -/

/-- The nodes that an expression is written from. Without values to compare it with, the operand of
a membership test is left out. -/
def Expr.children : Expr → List Node
  | .binary left _ right => [.expr left, .expr right]
  | .unary _ operand => [.expr operand]
  | .isNull operand _ => [.expr operand]
  | .isDistinctFrom left right _ => [.expr left, .expr right]
  | .between operand low high _ => [.expr operand, .expr low, .expr high]
  | .inList operand list _ => if list.isEmpty then [] else .expr operand :: list.map .expr
  | .inValues operand values negated =>
    if values.isEmpty && negated then [] else .expr operand :: values.map .expr
  | .inSubquery operand query _ => [.expr operand, .query query]
  | .exists query _ => [.query query]
  | .function _ args _ => args.map .expr
  | .window f partitionBy orderBy =>
    .expr f :: (partitionBy.map .expr ++ orderBy.map fun o => .expr o.expr)
  | .case operand branches default =>
    operand.toList.map .expr ++ branches.flatMap (fun b => [.expr b.condition, .expr b.value])
      ++ default.toList.map .expr
  | .cast operand _ => [.expr operand]
  | .grouping inner => [.expr inner]
  | .named inner _ => [.expr inner]
  | .subquery query => [.query query]
  | _ => []

/-- The nodes that a row source is written from. -/
def TableFactor.children : TableFactor → List Node
  | .table _ => []
  | .derived query _ => [.query query]

/-- The nodes that a joined source is written from. -/
def Join.children (j : Join) : List Node :=
  j.factor.children ++ j.constraint.toList.map .expr

/-- The nodes that row sources are written from. -/
def JoinSource.children (j : JoinSource) : List Node :=
  j.base.children ++ j.joins.flatMap Join.children

/-- The nodes that a core is written from. -/
def Core.children (c : Core) : List Node :=
  c.projections.map .expr ++ c.source.toList.flatMap JoinSource.children ++ c.wheres.map .expr
    ++ c.groups.map .expr ++ c.havings.map .expr

/-- The nodes that a query is written from. -/
def Select.children (q : Select) : List Node :=
  q.cores.flatMap Core.children ++ q.orders.map (fun o => .expr o.expr) ++ q.limit.toList.map .expr
    ++ q.offset.toList.map .expr

/-- A limit as a condition adds that condition to the nodes. -/
theorem Select.mem_children_pushLimit {q : Select} {limit : Expr} {n : Node}
    (h : n ∈ (q.pushLimit limit).children) :
    n ∈ q.children ∨ n = .expr (.binary (.raw "ROWNUM") .ltEq limit) := by
  -- Only the conditions of the core that the limit goes to grow, by the comparison.
  have hcore : ∀ c : Core, ∀ w : Expr, n ∈ ({ c with wheres := c.wheres ++ [w] } : Core).children →
      n ∈ c.children ∨ n = .expr w := by
    intro c w hn
    simp only [Core.children, List.map_append, List.mem_append, List.map_cons, List.map_nil,
      List.mem_singleton] at hn ⊢
    tauto
  simp only [children, List.mem_append] at h ⊢
  obtain ((h | h) | h) | h := h
  · obtain ⟨c, hc, hn⟩ := List.mem_flatMap.mp h
    obtain ⟨c, hmem, rfl⟩ := List.mem_map.mp hc
    exact (hcore c _ hn).imp_left fun hn => .inl (.inl (.inl (List.mem_flatMap.mpr ⟨c, hmem, hn⟩)))
  · exact .inl (.inl (.inl (.inr h)))
  · cases h
  · exact .inl (.inr h)

/-- The nodes that a node is written from. -/
def Node.children : Node → List Node
  | .expr e => e.children
  | .query q => q.children

/-- The nodes that a choice of rows is written from. The key is among them only if the rows are
chosen by a subquery. -/
def RowChoice.children (r : RowChoice) : List Node :=
  r.wheres.map .expr ++ r.orders.map (fun o => .expr o.expr) ++ r.limit.toList.map .expr
    ++ r.offset.toList.map .expr ++ r.groups.map .expr ++ r.havings.map .expr
    ++ if r.needsSubselect then r.key.toList.map .expr else []

/-- The query for the keys of chosen rows is written from the nodes that the choice is written
from. -/
theorem RowChoice.mem_children_subselect {r : RowChoice} {key : Expr} (hkey : r.key = some key)
    (h : r.needsSubselect = true) (relation : TableRef) (n : Node) :
    n ∈ (r.subselect relation key).children ↔ n ∈ r.children := by
  have hsource : (JoinSource.ofTable relation).children = [] := rfl
  simp only [subselect, Select.children, Core.children, hsource, RowChoice.children, h, hkey,
    if_true, List.flatMap_cons, List.flatMap_nil, List.append_nil, Option.toList, List.map_cons,
    List.map_nil, List.mem_append, List.mem_singleton]
  tauto

/-- The nodes that a statement is written from. -/
def Statement.children : Statement → List Node
  | .select q => [.query q]
  | .update u => u.assignments.map (fun a => .expr a.value) ++ u.rows.children
  | .delete d => d.rows.children

/-! ## Visited nodes -/

/-- A node is visited with another one: it is that node, or visited with a child of it. -/
def Node.Visits : Node → Node → Prop :=
  Relation.ReflTransGen fun m c => c ∈ m.children

/-- A node is visited when a statement is written. -/
def Statement.Visits (st : Statement) (n : Node) : Prop :=
  ∃ c ∈ st.children, c.Visits n

namespace Node

/-- A node visits itself and what its children visit. -/
theorem visits_iff {m n : Node} : m.Visits n ↔ m = n ∨ ∃ c ∈ m.children, c.Visits n :=
  Relation.ReflTransGen.cases_head_iff

/-- A condition on all visited nodes is one on the node and on what is visited with its children. -/
theorem forall_visits_iff {p : Node → Prop} {m : Node} :
    (∀ n, m.Visits n → p n) ↔ p m ∧ ∀ c ∈ m.children, ∀ n, c.Visits n → p n := by
  constructor
  · intro h
    exact ⟨h m .refl, fun c hc n hn => h n (.head hc hn)⟩
  · rintro ⟨hm, hchildren⟩ n hn
    obtain rfl | ⟨c, hc, hn⟩ := visits_iff.mp hn
    · exact hm
    · exact hchildren c hc n hn

/-- A visited node is the node itself or visited with a child. -/
theorem exists_visits_iff {p : Node → Prop} {m : Node} :
    (∃ n, m.Visits n ∧ p n) ↔ p m ∨ ∃ c ∈ m.children, ∃ n, c.Visits n ∧ p n := by
  constructor
  · rintro ⟨n, hn, hp⟩
    obtain rfl | ⟨c, hc, hn⟩ := visits_iff.mp hn
    · exact .inl hp
    · exact .inr ⟨c, hc, n, hn, hp⟩
  · rintro (hp | ⟨c, hc, n, hn, hp⟩)
    · exact ⟨m, .refl, hp⟩
    · exact ⟨n, .head hc hn, hp⟩

end Node

namespace Statement

/-- What is visited when a statement is written is visited with one of its nodes. -/
theorem forall_visits_iff {p : Node → Prop} {st : Statement} :
    (∀ n, st.Visits n → p n) ↔ ∀ c ∈ st.children, ∀ n, c.Visits n → p n :=
  ⟨fun h c hc n hn => h n ⟨c, hc, hn⟩, fun h n ⟨c, hc, hn⟩ => h c hc n hn⟩

/-- A statement visits some node if one of its children does. -/
theorem exists_visits_iff {p : Node → Prop} {st : Statement} :
    (∃ n, st.Visits n ∧ p n) ↔ ∃ c ∈ st.children, ∃ n, c.Visits n ∧ p n :=
  ⟨fun ⟨n, ⟨c, hc, hn⟩, hp⟩ => ⟨c, hc, n, hn, hp⟩, fun ⟨c, hc, n, hn, hp⟩ => ⟨n, ⟨c, hc, hn⟩, hp⟩⟩

end Statement

/-! ## Induction -/

namespace Node

/-- What stands below a single source is smaller. -/
theorem sizeOf_factor {t : TableFactor} {c : Node} (h : c ∈ t.children) :
    sizeOf c < 1 + sizeOf t := by
  cases t with
  | table t => cases h
  | derived query name =>
    obtain rfl := List.mem_singleton.mp h
    simp
    omega

/-- What stands below a joined source is smaller. -/
theorem sizeOf_join {j : Join} {c : Node} (h : c ∈ j.children) : sizeOf c < 1 + sizeOf j := by
  obtain ⟨kind, factor, constraint⟩ := j
  simp only [Join.children, List.mem_append, List.mem_map, Option.mem_toList] at h
  obtain h | ⟨e, rfl, rfl⟩ := h
  · have := sizeOf_factor h
    simp
    omega
  · simp
    omega

/-- What stands below a row source is smaller. -/
theorem sizeOf_source {j : JoinSource} {c : Node} (h : c ∈ j.children) :
    sizeOf c < 1 + sizeOf j := by
  obtain ⟨base, joins⟩ := j
  simp only [JoinSource.children, List.mem_append, List.mem_flatMap] at h
  obtain h | ⟨join, hjoin, h⟩ := h
  · have := sizeOf_factor h
    simp
    omega
  · have := sizeOf_join h
    have := List.sizeOf_lt_of_mem hjoin
    simp
    omega

/-- Expressions are smaller than their list. -/
theorem sizeOf_exprs {es : List Expr} {c : Node} (h : c ∈ es.map Node.expr) :
    sizeOf c < 1 + sizeOf es := by
  obtain ⟨e, he, rfl⟩ := List.mem_map.mp h
  have := List.sizeOf_lt_of_mem he
  simp
  omega

/-- The expressions of ordering terms are smaller than the list of terms. -/
theorem sizeOf_orders {os : List OrderTerm} {c : Node}
    (h : c ∈ os.map fun o => Node.expr o.expr) : sizeOf c < 1 + sizeOf os := by
  obtain ⟨⟨e, d⟩, ho, rfl⟩ := List.mem_map.mp h
  have := List.sizeOf_lt_of_mem ho
  simp at this ⊢
  omega

/-- An expression is smaller than the option of it. -/
theorem sizeOf_option {e : Option Expr} {c : Node} (h : c ∈ e.toList.map Node.expr) :
    sizeOf c < 1 + sizeOf e := by
  obtain ⟨e', he, rfl⟩ := List.mem_map.mp h
  obtain rfl := Option.mem_toList.mp he
  simp

/-- What stands below a core is smaller. -/
theorem sizeOf_core {core : Core} {c : Node} (h : c ∈ core.children) :
    sizeOf c < 1 + sizeOf core := by
  obtain ⟨setOp, distinct, projections, source, wheres, groups, havings⟩ := core
  simp only [Core.children, List.mem_append] at h
  obtain (((h | h) | h) | h) | h := h
  case inl.inl.inl.inr =>
    obtain ⟨j, hj, hc⟩ := List.mem_flatMap.mp h
    obtain rfl := Option.mem_toList.mp hj
    have := sizeOf_source hc
    simp
    omega
  all_goals
    have := sizeOf_exprs h
    simp
    omega

/-- What stands below a query is smaller. -/
theorem sizeOf_query {q : Select} {c : Node} (h : c ∈ q.children) : sizeOf c < 1 + sizeOf q := by
  obtain ⟨cores, orders, limit, offset, lock⟩ := q
  simp only [Select.children, List.mem_append] at h
  -- A node below stands in a core, the ordering, the limit or the offset.
  obtain ((h | h) | h) | h := h
  · obtain ⟨core, hcore, h⟩ := List.mem_flatMap.mp h
    have := sizeOf_core h
    have := List.sizeOf_lt_of_mem hcore
    simp
    omega
  · have := sizeOf_orders h
    simp
    omega
  all_goals
    have := sizeOf_option h
    simp
    omega

/-- Conditions and values are smaller than the list of branches. -/
theorem sizeOf_branches {bs : List Branch} {c : Node}
    (h : c ∈ bs.flatMap fun b => [Node.expr b.condition, Node.expr b.value]) :
    sizeOf c < 1 + sizeOf bs := by
  obtain ⟨⟨condition, value⟩, hb, hc⟩ := List.mem_flatMap.mp h
  have := List.sizeOf_lt_of_mem hb
  simp only [List.mem_cons, List.not_mem_nil, or_false, Branch.mk.sizeOf_spec] at this hc
  obtain rfl | rfl := hc
  all_goals
    simp
    omega

/-- What stands below an expression is smaller. -/
theorem sizeOf_expr {e : Expr} {c : Node} (h : c ∈ e.children) : sizeOf c < 1 + sizeOf e := by
  cases e with
  | inList operand list negated | inValues operand list negated =>
    -- An empty list may leave no children at all.
    simp only [Expr.children] at h
    split at h
    · cases h
    · obtain rfl | h := List.mem_cons.mp h
      · simp
        omega
      · have := sizeOf_exprs h
        simp
        omega
  | function name args distinct =>
    have := sizeOf_exprs h
    simp
    omega
  | window f partitionBy orderBy =>
    simp only [Expr.children, List.mem_cons, List.mem_append] at h
    obtain rfl | h | h := h
    · simp
      omega
    · have := sizeOf_exprs h
      simp
      omega
    · have := sizeOf_orders h
      simp
      omega
  | case operand branches default =>
    simp only [Expr.children, List.mem_append] at h
    obtain (h | h) | h := h
    · have := sizeOf_option h
      simp
      omega
    · have := sizeOf_branches h
      simp
      omega
    · have := sizeOf_option h
      simp
      omega
  -- Leaves have no children, and all other nodes have their parts as children.
  | column | star | literal | param | raw => cases h
  | _ =>
    simp only [Expr.children, List.mem_cons, List.not_mem_nil, or_false] at h
    rcases h with rfl | rfl | rfl
    all_goals simp <;> omega

/-- A child is smaller than its node. -/
theorem sizeOf_children {m c : Node} (h : c ∈ m.children) : sizeOf c < sizeOf m := by
  cases m with
  | expr e => simpa using sizeOf_expr h
  | query q => simpa using sizeOf_query h

/-- What holds of a node if it holds of its children holds of every node. -/
theorem induction {P : Node → Prop} (step : ∀ m, (∀ c ∈ m.children, P c) → P m) (m : Node) :
    P m :=
  step m fun c _ => induction step c
termination_by sizeOf m
decreasing_by
  exact sizeOf_children ‹_›

/-- What comes down to a condition on the node and to the same for its children is the condition on
all visited nodes. -/
theorem iff_forall_visits {f p : Node → Prop} (step : ∀ m, f m ↔ p m ∧ ∀ c ∈ m.children, f c)
    (m : Node) : f m ↔ ∀ n, m.Visits n → p n := by
  induction m using Node.induction with
  | step m ih =>
    rw [step, forall_visits_iff]
    exact and_congr_right fun _ => forall₂_congr ih

/-- Every visited node passes a test, and none lies deeper than `depth`. -/
def allVisited (test : Node → Bool) : Nat → Node → Bool
  | 0, _ => false
  | depth + 1, m => test m && m.children.all (allVisited test depth)

/-- If the test of all nodes down to some depth passes, all visited nodes pass it. -/
theorem forall_visits_of_allVisited {test : Node → Bool} {depth : Nat} {m : Node}
    (h : m.allVisited test depth = true) : ∀ n, m.Visits n → test n = true := by
  -- On the depth, which must be enough for all nodes below.
  induction depth generalizing m with
  | zero => cases h
  | succ depth ih =>
    rw [allVisited, Bool.and_eq_true, List.all_eq_true] at h
    exact forall_visits_iff.mpr ⟨h.1, fun c hc => ih (h.2 c hc)⟩

end Node

/-- Every node that a statement visits passes a test, and none lies deeper than `depth`. -/
def Statement.allVisited (test : Node → Bool) (depth : Nat) (st : Statement) : Bool :=
  st.children.all (Node.allVisited test depth)

/-- If the test of a statement's nodes passes, all nodes that it visits pass it. -/
theorem Statement.forall_visits_of_allVisited {test : Node → Bool} {depth : Nat} {st : Statement}
    (h : st.allVisited test depth = true) : ∀ n, st.Visits n → test n = true :=
  forall_visits_iff.mpr fun c hc =>
    Node.forall_visits_of_allVisited (List.all_eq_true.mp h c hc)

end SqlCompiler
