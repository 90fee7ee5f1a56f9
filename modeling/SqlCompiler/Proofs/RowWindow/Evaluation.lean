import SqlCompiler.Proofs.RowWindow.Counting

/-!
# What a query without ordering and grouping returns

The rows that a core returns, as far as its conditions and projections decide it. Rows of the source
are counted as they pass the conditions, and the projections are then computed over the counted
rows. Most nodes of an expression look at one row only; an aggregate looks at all counted rows and
leaves one row for them, and a window function looks at all of them for every row. Which names are
aggregates, and what verbatim text looks at, is for the database to say (`Vocabulary`), as is what
values are and what the nodes compute (`Engine`).

An expression whose nodes look at one row only has the same value in whatever company its row comes
(`Engine.value_of_reaches_nil`).
-/

namespace SqlCompiler

/-- What a node of an expression looks at beyond the row that it is computed for. -/
inductive Reach where
  /-- All counted rows, and one row is left for them. -/
  | group
  /-- All counted rows, for each of them. -/
  | window
  deriving DecidableEq

/-- The names and texts that a database gives a meaning beyond one row. -/
structure Vocabulary where
  /-- The functions that are aggregates. -/
  isAggregate : String → Bool
  /-- What verbatim text looks at. -/
  rawReach : String → Option Reach
  /-- The row number belongs to its row. -/
  rawReach_rowNumber : rawReach "ROWNUM" = none

/-- The five aggregates of standard SQL, in any case, and no others. -/
def Vocabulary.standard : Vocabulary where
  isAggregate name := ["COUNT", "SUM", "MIN", "MAX", "AVG"].contains name.toUpper
  rawReach _ := none
  rawReach_rowNumber := rfl

namespace Expr

/-- What the topmost node of an expression looks at beyond its row. -/
def reach (v : Vocabulary) : Expr → Option Reach
  | .function name _ _ => if v.isAggregate name then some .group else none
  | .window _ _ _ => some .window
  | .raw text => v.rawReach text
  | _ => none

/-- The arguments of a windowed function; anything else stands for itself. -/
def windowed : Expr → List Expr
  | .function _ args _ => args
  | e => [e]

/-- The expressions that an expression is computed from, for the same row. Subqueries are none of
them. -/
def operands : Expr → List Expr
  | .binary left _ right => [left, right]
  | .unary _ operand => [operand]
  | .isNull operand _ => [operand]
  | .isDistinctFrom left right _ => [left, right]
  | .between operand low high _ => [operand, low, high]
  | .inList operand list _ => operand :: list
  | .inValues operand values _ => operand :: values
  | .inSubquery operand _ _ => [operand]
  | .function _ args _ => args
  | .window f partitionBy orderBy => f.windowed ++ partitionBy ++ orderBy.map (·.expr)
  | .case operand branches default =>
    operand.toList ++ branches.flatMap (fun b => [b.condition, b.value]) ++ default.toList
  | .cast operand _ => [operand]
  | .grouping inner => [inner]
  | .named inner _ => [inner]
  | _ => []

/-- What stands for a function under a window is no larger than the function. -/
theorem sizeOf_windowed {e c : Expr} (h : c ∈ e.windowed) : sizeOf c ≤ sizeOf e := by
  unfold windowed at h
  split at h
  · have hlt := List.sizeOf_lt_of_mem h
    rw [Expr.function.sizeOf_spec]
    omega
  · exact Nat.le_of_eq (congrArg sizeOf (List.mem_singleton.mp h))

/-- Condition and value are smaller than their branch. -/
theorem sizeOf_branch {b : Branch} {c : Expr} (h : c ∈ [b.condition, b.value]) :
    sizeOf c < sizeOf b := by
  obtain ⟨condition, value⟩ := b
  simp only [List.mem_cons, List.not_mem_nil, or_false] at h
  rw [Branch.mk.sizeOf_spec]
  obtain rfl | rfl := h
  · omega
  · omega

/-- The expression of an ordering term is smaller than the term. -/
theorem sizeOf_orderTerm (o : OrderTerm) : sizeOf o.expr < sizeOf o := by
  obtain ⟨expr, direction⟩ := o
  show sizeOf expr < _
  rw [OrderTerm.mk.sizeOf_spec]
  omega

/-- An operand is smaller than the expression. -/
theorem sizeOf_operands {e c : Expr} (h : c ∈ e.operands) : sizeOf c < sizeOf e := by
  cases e with
  | inList operand list negated | inValues operand list negated =>
    simp only [operands, List.mem_cons] at h
    obtain rfl | h := h
    · simp
      omega
    · have := List.sizeOf_lt_of_mem h
      simp
      omega
  | function name args distinct =>
    simp only [operands] at h
    have := List.sizeOf_lt_of_mem h
    simp
    omega
  | window f partitionBy orderBy =>
    simp only [operands, List.mem_append] at h
    obtain (h | h) | h := h
    · -- The arguments of the function stand for it, and are no larger than it is.
      have := sizeOf_windowed h
      simp
      omega
    · have := List.sizeOf_lt_of_mem h
      simp
      omega
    · obtain ⟨o, ho, rfl⟩ := List.mem_map.mp h
      have hlist := List.sizeOf_lt_of_mem ho
      have hterm := sizeOf_orderTerm o
      simp
      omega
  | case operand branches default =>
    -- The parts of branches are two levels below the list.
    simp only [operands, List.mem_append, Option.mem_toList] at h
    obtain (rfl | h) | rfl := h
    · simp
      omega
    · obtain ⟨b, hb, hc⟩ := List.mem_flatMap.mp h
      have hlist := List.sizeOf_lt_of_mem hb
      have hbranch := sizeOf_branch hc
      simp
      omega
    · simp
      omega
  | between operand low high negated =>
    simp only [operands, List.mem_cons, List.not_mem_nil, or_false] at h
    rw [between.sizeOf_spec]
    obtain rfl | rfl | rfl := h
    · omega
    · omega
    · omega
  | binary left op right | isDistinctFrom left right negated =>
    simp only [operands, List.mem_cons, List.not_mem_nil, or_false] at h
    simp only [binary.sizeOf_spec, isDistinctFrom.sizeOf_spec]
    obtain rfl | rfl := h
    · omega
    · omega
  | unary op operand | isNull operand negated | inSubquery operand query negated
  | cast operand dataType | named operand name =>
    simp only [operands, List.mem_singleton] at h
    subst h
    simp only [unary.sizeOf_spec, isNull.sizeOf_spec, inSubquery.sizeOf_spec, cast.sizeOf_spec,
      named.sizeOf_spec]
    omega
  | grouping inner =>
    simp only [operands, List.mem_singleton] at h
    subst h
    simp
  | _ => simp [operands] at h

/-- What the nodes of an expression look at beyond their row. -/
def reaches (v : Vocabulary) (e : Expr) : List Reach :=
  (e.reach v).toList ++ e.operands.attach.flatMap fun c => c.1.reaches v
termination_by sizeOf e
decreasing_by exact sizeOf_operands c.2

/-- The nodes of an expression are the topmost one and those of the operands. -/
theorem reaches_eq (v : Vocabulary) (e : Expr) :
    e.reaches v = (e.reach v).toList ++ e.operands.flatMap (reaches v) := by
  rw [reaches]
  simp

/-- What holds of an expression if it holds of its operands holds of every expression. -/
theorem operandsInduction {motive : Expr → Prop}
    (step : ∀ e, (∀ c ∈ e.operands, motive c) → motive e) (e : Expr) : motive e :=
  step e fun c _ => operandsInduction step c
termination_by sizeOf e
decreasing_by exact sizeOf_operands ‹_›

end Expr

/-- What values are in a database, and what the nodes of expressions compute. A row comes with its
row number. -/
structure Engine (v : Vocabulary) where
  /-- The rows of row sources. -/
  Row : Type
  /-- The values of expressions. -/
  Value : Type
  /-- Numbers are values. -/
  number : Nat → Value
  /-- A condition of this value lets its row pass. -/
  holds : Value → Bool
  /-- The value of a node that looks at its row only, from the values of its operands. -/
  node : Expr → Row × Nat → List Value → Value
  /-- The value of an aggregate, from the values of its operands in each row. -/
  aggregate : Expr → List (List Value) → Value
  /-- The value of a window function in the row at an index. -/
  window : Expr → List (List Value) → Nat → Value
  /-- A row in place of a group's first row, if the group has none. -/
  absent : Row × Nat
  node_rowNumber : ∀ at_, node (.raw "ROWNUM") at_ [] = number at_.2
  node_integer : ∀ (n : Int64) (at_ : Row × Nat), 0 ≤ n →
    node (.literal (.integer n)) at_ [] = number n.toInt.toNat
  holds_ltEq : ∀ left right at_ a b,
    holds (node (.binary left .ltEq right) at_ [number a, number b]) = decide (a ≤ b)

/-- What a core selects: all columns if it names nothing. -/
def Core.selected (c : Core) : List Expr :=
  if c.projections.isEmpty then [.star none] else c.projections

namespace Engine

variable {v : Vocabulary} (I : Engine v)

/-- The value of an expression for a row that is counted at an index among `rows`. -/
def value (rows : List (I.Row × Nat)) (row : I.Row × Nat) (index : Nat) (e : Expr) : I.Value :=
  match e.reach v with
  | none => I.node e row (e.operands.attach.map fun c => value rows row index c.1)
  | some .group =>
    I.aggregate e (rows.zipIdx.map fun r => e.operands.attach.map fun c => value rows r.1 r.2 c.1)
  | some .window =>
    I.window e (rows.zipIdx.map fun r => e.operands.attach.map fun c => value rows r.1 r.2 c.1)
      index
termination_by sizeOf e
decreasing_by all_goals exact Expr.sizeOf_operands c.2

/-- A node is computed from the values of its operands. -/
theorem value_eq (rows : List (I.Row × Nat)) (row : I.Row × Nat) (index : Nat) (e : Expr) :
    I.value rows row index e
      = match e.reach v with
        | none => I.node e row (e.operands.map (I.value rows row index))
        | some .group =>
          I.aggregate e (rows.zipIdx.map fun r => e.operands.map (I.value rows r.1 r.2))
        | some .window =>
          I.window e (rows.zipIdx.map fun r => e.operands.map (I.value rows r.1 r.2)) index := by
  rw [value]
  simp

/-- The value of an expression for a row by itself. -/
def rowValue (row : I.Row × Nat) (e : Expr) : I.Value :=
  I.value [row] row 0 e

/-- An expression that looks at its row only has the same value in any company. -/
theorem value_of_reaches_nil (e : Expr) :
    e.reaches v = [] → ∀ (rows : List (I.Row × Nat)) (row : I.Row × Nat) (index : Nat),
      I.value rows row index e = I.rowValue row e := by
  induction e using Expr.operandsInduction with
  | step e ih =>
    intro h rows row index
    rw [Expr.reaches_eq, List.append_eq_nil_iff, List.flatMap_eq_nil_iff,
      Option.toList_eq_nil_iff] at h
    -- The node looks at its row only, and so do its operands, by induction.
    have hoperands : e.operands.map (I.value rows row index)
        = e.operands.map (I.value [row] row 0) :=
      List.map_congr_left fun c hc => ih c hc (h.2 c hc) rows row index
    rw [rowValue, value_eq, value_eq, h.1]
    exact congrArg (I.node e row) hoperands

/-- The rows of a source that pass conditions, each with its number. -/
def counted (source : List I.Row) (wheres : List Expr) : List (I.Row × Nat) :=
  countRows (fun r n => wheres.all fun w => I.holds (I.rowValue (r, n) w)) 1 source

/-- What a core selects from its counted rows: one row for all of them if there is an aggregate,
else one for each of them. -/
def project (projections : List Expr) (rows : List (I.Row × Nat)) : List (List I.Value) :=
  if .group ∈ projections.flatMap (·.reaches v) then
    [projections.map (I.value rows (rows.headD I.absent) 0)]
  else rows.zipIdx.map fun r => projections.map (I.value rows r.1 r.2)

/-- The rows that a query of one core returns if it has no grouping and keeps duplicates. Its
ordering and its row bounds are left aside. -/
def returned (source : List I.Row) (s : Select) : List (List I.Value) :=
  s.cores.flatMap fun c => I.project c.selected (I.counted source c.wheres)

/-- Projections that look at their row only are computed row by row. -/
theorem project_of_reaches_nil {projections : List Expr}
    (h : ∀ e ∈ projections, e.reaches v = []) (rows : List (I.Row × Nat)) :
    I.project projections rows = rows.map fun r => projections.map (I.rowValue r) := by
  -- No projection groups the rows, so there is one result for each of them.
  have hnone : projections.flatMap (·.reaches v) = [] := List.flatMap_eq_nil_iff.mpr h
  have hrow : ∀ (r : I.Row × Nat) (i : Nat),
      projections.map (I.value rows r i) = projections.map (I.rowValue r) := by
    intro r i
    exact List.map_congr_left fun e he => I.value_of_reaches_nil e (h e he) rows r i
  rw [project, hnone, if_neg List.not_mem_nil]
  simp only [hrow]
  rw [← Function.comp_def (fun r => projections.map (I.rowValue r)) Prod.fst, ← List.map_map,
    List.zipIdx_map_fst]

end Engine

end SqlCompiler
