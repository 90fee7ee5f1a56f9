import Mathlib
import SqlCompiler.Proofs.Nodes.Visits

/-!
# What can be written

An emission succeeds if all its parts do (`succeeds_append`, `succeeds_join` and so on). So a node
is written if it is well formed by itself and its children are written
(`Node.succeeds_emit_iff`), and a statement is compiled for generic SQL exactly if it and every
node that it visits are well formed (`compile_succeeds_iff`).
-/

namespace SqlCompiler

/-- The computation yields something. -/
def Traced.Succeeds {α : Type} (x : Traced α) : Prop :=
  ∃ a, x.outcome = .ok a

/-! ## Emissions from their parts -/

section Parts

open Emission

/-- The empty emission succeeds. -/
@[simp]
theorem succeeds_empty : empty.Succeeds :=
  ⟨_, rfl⟩

/-- One piece succeeds. -/
@[simp]
theorem succeeds_piece (p : Piece) : (piece p).Succeeds :=
  ⟨_, rfl⟩

/-- A fixed text succeeds. -/
@[simp]
theorem succeeds_sql (text : String) : (sql text).Succeeds :=
  ⟨_, rfl⟩

/-- A text of the caller succeeds. -/
@[simp]
theorem succeeds_verbatim (text : String) : (verbatim text).Succeeds :=
  ⟨_, rfl⟩

/-- A name succeeds. -/
@[simp]
theorem succeeds_ident (name : String) : (ident name).Succeeds :=
  ⟨_, rfl⟩

/-- A note does not fail. -/
@[simp]
theorem succeeds_note (n : Note) : (note n).Succeeds :=
  ⟨_, rfl⟩

/-- A failed computation does not succeed. -/
@[simp]
theorem Traced.not_succeeds_fail {α : Type} (f : Fault) : ¬(Traced.fail f : Traced α).Succeeds := by
  rintro ⟨a, h⟩
  cases h

/-- A failed emission does not succeed. -/
@[simp]
theorem not_succeeds_fail (f : Fault) : ¬(fail f).Succeeds :=
  Traced.not_succeeds_fail f

/-- Both emissions must succeed. -/
@[simp]
theorem succeeds_append (a b : Emission) : (a ++ b).Succeeds ↔ a.Succeeds ∧ b.Succeeds := by
  constructor
  · rintro ⟨ps, h⟩
    obtain ⟨p, q, hp, hq, -⟩ := outcome_append_ok h
    exact ⟨⟨p, hp⟩, ⟨q, hq⟩⟩
  · rintro ⟨⟨p, hp⟩, ⟨q, hq⟩⟩
    exact ⟨_, outcome_append_of_ok hp hq⟩

/-- Parentheses fail only with what stands in them. -/
@[simp]
theorem succeeds_parens (e : Emission) : (parens e).Succeeds ↔ e.Succeeds := by
  simp [parens]

/-- All emissions of a list must succeed. -/
@[simp]
theorem succeeds_join (separator : String) (es : List Emission) :
    (join separator es).Succeeds ↔ ∀ e ∈ es, e.Succeeds := by
  fun_induction join separator es with
  | case1 => simp
  | case2 e => simp
  | case3 e es _ ih => simp [ih]

/-- A clause succeeds if all its items do. -/
@[simp]
theorem succeeds_clause (word separator : String) (es : List Emission) :
    (clause word separator es).Succeeds ↔ ∀ e ∈ es, e.Succeeds := by
  cases es <;> simp [clause]

/-- An operand succeeds if its expression does. -/
@[simp]
theorem succeeds_operand (r : Rendered) (side : Side) (strength : Nat) (a : Associativity) :
    (r.operand side strength a).Succeeds ↔ r.emission.Succeeds := by
  unfold Rendered.operand
  split <;> simp

/-- A conjunction succeeds if all its conditions do. -/
@[simp]
theorem succeeds_conjunction (rs : List Rendered) :
    (conjunction rs).Succeeds ↔ ∀ r ∈ rs, r.emission.Succeeds := by
  unfold conjunction
  split <;> simp

/-- A clause of conditions succeeds if all of them do. -/
@[simp]
theorem succeeds_conditions (word : String) (rs : List Rendered) :
    (conditions word rs).Succeeds ↔ ∀ r ∈ rs, r.emission.Succeeds := by
  cases rs <;> simp [conditions]

/-- A word with its negation succeeds. -/
@[simp]
theorem succeeds_negatable (negated : Bool) (positive negative : String) :
    (negatable negated positive negative).Succeeds :=
  succeeds_sql _

/-- The name of a relation and its dot succeed. -/
@[simp]
theorem succeeds_qualifier (relation : Option String) : (qualifier relation).Succeeds := by
  cases relation <;> simp [qualifier]

/-- A table and its alias succeed. -/
@[simp]
theorem succeeds_table (t : TableRef) : t.emit.Succeeds := by
  unfold TableRef.emit
  split <;> simp

/-- A direction succeeds. -/
@[simp]
theorem succeeds_direction (d : Option SortDirection) : (emitDirection d).Succeeds := by
  cases d <;> simp [emitDirection]

/-- What stands after a word succeeds with what there is. -/
@[simp]
theorem succeeds_after (word : String) (e : Option Emission) :
    (after word e).Succeeds ↔ ∀ x ∈ e, x.Succeeds := by
  cases e <;> simp [after]

/-- A window succeeds if its partition and its ordering do. -/
@[simp]
theorem succeeds_window (partitionBy orderBy : List Emission) :
    (emitWindow partitionBy orderBy).Succeeds
      ↔ (∀ e ∈ partitionBy, e.Succeeds) ∧ ∀ e ∈ orderBy, e.Succeeds := by
  unfold emitWindow
  split <;> simp

/-- A comparison that counts null as a value succeeds if both sides do. -/
@[simp]
theorem succeeds_distinctFrom (s : Settings) (left right : Rendered) (negated : Bool) :
    (emitDistinctFrom s left right negated).Succeeds
      ↔ left.emission.Succeeds ∧ right.emission.Succeeds := by
  unfold emitDistinctFrom
  split <;> simp

end Parts

/-! ## Well-formed nodes -/

/-- A literal that can be written: a float must be finite. -/
def Literal.IsFinite : Literal → Prop
  | .float x => x.isFinite = true
  | _ => True

/-- An expression is well formed, apart from the nodes that it is written from. -/
def Expr.WellFormed (s : Settings) : Expr → Prop
  | .literal l => l.IsFinite
  | .param _ value => s.paramStyle = .inline → ∃ l, value = some l ∧ l.IsFinite
  | .inValues _ values _ => ∀ v ∈ values, ∃ l, v = .literal l
  | .case _ branches _ => branches ≠ []
  | _ => True

/-- A row bound stands only where the target has a clause for it. -/
def BoundsAllowed (s : Settings) (limit offset : Option Expr) : Prop :=
  limit ≠ none ∨ offset ≠ none → s.capabilities.pagination ≠ .rowNumber

/-- There is a core without a set operator, and every core after it has one. -/
@[mk_iff]
structure Linked (cores : List Core) : Prop where
  ne_nil : cores ≠ []
  first : ∀ c ∈ cores.head?, c.setOp = none
  later : ∀ c ∈ cores.tail, c.setOp ≠ none

/-- A cross join has no condition. -/
def Core.JoinsAllowed (c : Core) : Prop :=
  ∀ source ∈ c.source, ∀ j ∈ source.joins, j.kind = .cross → j.constraint = none

/-- A query is well formed, apart from the nodes that it is written from. -/
@[mk_iff]
structure Select.WellFormed (s : Settings) (q : Select) : Prop where
  linked : Linked q.cores
  joins : ∀ c ∈ q.cores, c.JoinsAllowed
  bounds : BoundsAllowed s q.limit q.offset

/-- A node is well formed, apart from the nodes that it is written from. -/
def Node.WellFormed (s : Settings) : Node → Prop
  | .expr e => e.WellFormed s
  | .query q => q.WellFormed s

/-- A choice of rows is well formed: what is grouped is chosen by a key. -/
@[mk_iff]
structure RowChoice.WellFormed (s : Settings) (r : RowChoice) : Prop where
  key : r.groups ≠ [] ∨ r.havings ≠ [] → r.key ≠ none
  bounds : BoundsAllowed s r.limit r.offset

/-- A statement is well formed, apart from the nodes that it is written from. -/
def Statement.WellFormed (s : Settings) : Statement → Prop
  | .select _ => True
  | .update u => u.assignments ≠ [] ∧ u.rows.WellFormed s
  | .delete d => d.rows.WellFormed s

/-! ## Expressions -/

section Expressions

variable (s : Settings)

/-- A literal succeeds unless it is a float that is not finite. -/
@[simp]
theorem succeeds_literal (l : Literal) : (l.emit s).Succeeds ↔ l.IsFinite := by
  cases l with
  | float x =>
    rw [Literal.emit, Literal.IsFinite]
    split
    · next h => simp [h]
    · next h => simp [h]
  | _ => simp [Literal.emit, Literal.IsFinite]

/-- A parameter succeeds, but where it is written as a literal it needs one that can be written. -/
@[simp]
theorem succeeds_param (name : String) (value : Option Literal) :
    (emitParam s name value).Succeeds
      ↔ (s.paramStyle = .inline → ∃ l, value = some l ∧ l.IsFinite) := by
  unfold emitParam
  split
  · next h => cases value <;> simp [h]
  · next h => simp [h]

/-- A membership test in literals is written if they are. -/
theorem succeeds_single (operand : Emission) (negated : Bool) (values : List Literal) :
    (InValues.single s operand negated values).Succeeds
      ↔ operand.Succeeds ∧ ∀ l ∈ values, l.IsFinite := by
  simp [InValues.single]

/-- Splitting the literals of a membership test does not change whether it is written. -/
theorem succeeds_inLiterals (hmax : s.capabilities.maxInList ≠ some 0) (operand : Emission)
    (negated : Bool) {values : List Literal} (hne : values ≠ []) :
    (InValues.emit s operand negated values).Succeeds
      ↔ operand.Succeeds ∧ ∀ l ∈ values, l.IsFinite := by
  rw [InValues.emit, if_neg (by simpa using hne)]
  -- With a maximum the values may be split, and each part has the operand again.
  split
  · next max hmaxSome =>
    split
    · have hpos : 0 < max := by
        rw [hmaxSome] at hmax
        exact Nat.pos_of_ne_zero fun hzero => hmax (congrArg some hzero)
      -- The chunks hold the values together, and there is one that the operand is written in.
      have hflatten : (InValues.chunks max values).flatten = values :=
        (chunksUpTo_spec hpos values.length values (Nat.le_refl _)).1
      have hfinite : (∀ part ∈ InValues.chunks max values, ∀ l ∈ part, l.IsFinite)
          ↔ ∀ l ∈ values, l.IsFinite := by
        rw [← List.forall_mem_flatten, hflatten]
      obtain ⟨part, hpart⟩ := List.exists_mem_of_ne_nil _ (chunks_ne_nil max hne)
      simp only [succeeds_append, succeeds_note, succeeds_parens, succeeds_join,
        List.forall_mem_map, succeeds_single, true_and, ← hfinite]
      exact ⟨fun h => ⟨(h part hpart).1, fun part hpart => (h part hpart).2⟩,
        fun h part hpart => ⟨h.1, h.2 part hpart⟩⟩
    · simp [succeeds_single]
  · simp [succeeds_single]

/-- A list holds nothing but literals. -/
theorem forall_literal_iff {values : List Expr} :
    (∀ v ∈ values, ∃ l, v = .literal l) ↔ ∃ ls : List Literal, values = ls.map .literal := by
  have h := Set.ext_iff.mp (Set.range_list_map Expr.literal) values
  simpa [eq_comm] using h.symm

/-- A membership test in a list is written only if the list holds nothing but literals. -/
theorem succeeds_inValues_iff (left : Rendered) (values : List Expr) (negated : Bool) :
    (emitInValues s left values negated).Succeeds ↔ ∃ ls : List Literal, values = ls.map .literal ∧
      (InValues.emit s (left.operand .left membershipStrength .left) negated ls).Succeeds := by
  unfold emitInValues
  constructor
  · rintro ⟨ps, h⟩
    obtain ⟨ls, hls, hps⟩ := Traced.outcome_bind_ok h
    exact ⟨ls, literals_eq_ok_iff.mp hls, ps, hps⟩
  · rintro ⟨ls, rfl, ps, hps⟩
    exact ⟨ps, (Traced.outcome_bind_of_ok (literals_map ls) _).trans hps⟩

/-- Branches are written if their conditions and values are. -/
@[simp]
theorem succeeds_branches (bs : List Branch) :
    (emitBranches s bs).Succeeds
      ↔ ∀ b ∈ bs, (b.condition.emit s).Succeeds ∧ (b.value.emit s).Succeeds := by
  induction bs with
  | nil => simp [emitBranches]
  | cons b bs ih =>
    obtain ⟨condition, value⟩ := b
    simp [emitBranches, ih, and_assoc]

/-- An ordering term succeeds if its expression does. -/
@[simp]
theorem succeeds_order (o : OrderTerm) : (o.emit s).Succeeds ↔ (o.expr.emit s).Succeeds := by
  simp [OrderTerm.emit]

/-- An expression is written if it is well formed and what it is written from is written. -/
theorem Expr.succeeds_emit_iff (hmax : s.capabilities.maxInList ≠ some 0) (e : Expr) :
    (e.emit s).Succeeds ↔ e.WellFormed s ∧ ∀ c ∈ e.children, (c.emit s).Succeeds := by
  cases e with
  | inValues operand values negated =>
    rw [Expr.emit, succeeds_inValues_iff, WellFormed, forall_literal_iff, children,
      ← exists_and_right]
    refine exists_congr fun ls => and_congr_right ?_
    rintro rfl
    cases ls with
    | nil =>
      -- Only a negated test in no values leaves its operand out, and so do the children.
      cases negated <;> simp [InValues.emit]
    | cons l ls =>
      rw [succeeds_inLiterals s hmax _ _ (List.cons_ne_nil l ls)]
      simp [Expr.emit]
  | inList operand list negated =>
    -- A test in no items is a constant, and nothing below it is written.
    cases list <;> simp [Expr.emit, WellFormed, children, emitEach_eq_map]
  | case operand branches default =>
    -- No branches is the one thing that is refused here.
    cases branches with
    | nil => simp [Expr.emit, WellFormed]
    | cons b bs =>
      rw [children, List.forall_mem_append, List.forall_mem_append, List.forall_mem_flatMap]
      simp [Expr.emit, WellFormed, emitOption_eq_map]
  | _ =>
    simp [Expr.emit, WellFormed, children, emitEach_eq_map, emitOrders_eq_map, or_imp, forall_and,
      and_assoc]

end Expressions

/-! ## Queries -/

section Queries

variable (s : Settings)

/-- The nodes of a row source are what it is written from. -/
@[simp]
theorem succeeds_factor (t : TableFactor) :
    (t.emit s).Succeeds ↔ ∀ c ∈ t.children, (c.emit s).Succeeds := by
  cases t <;> simp [TableFactor.emit, TableFactor.children]

/-- The condition of a join succeeds if it does, and a cross join has none. -/
theorem succeeds_constraint (kind : JoinKind) (e : Option Expr) :
    (emitConstraint kind (emitOption s e)).Succeeds
      ↔ (kind = .cross → e = none) ∧ ∀ x ∈ e, (x.emit s).Succeeds := by
  cases e with
  | none => simp [emitOption, emitConstraint]
  | some e =>
    rw [emitOption, emitConstraint]
    split
    · next h => simp [h]
    · next h => simp [h]

/-- Joined sources succeed if no cross join has a condition and all nodes below succeed. -/
theorem succeeds_joins (js : List Join) :
    (emitJoins s js).Succeeds ↔ (∀ j ∈ js, j.kind = .cross → j.constraint = none) ∧
      ∀ c ∈ js.flatMap Join.children, (c.emit s).Succeeds := by
  induction js with
  | nil => simp [emitJoins]
  | cons j js ih =>
    obtain ⟨kind, factor, constraint⟩ := j
    rw [List.flatMap_cons, List.forall_mem_append, Join.children, List.forall_mem_append]
    simp only [emitJoins, succeeds_append, succeeds_sql, succeeds_factor, succeeds_constraint, ih,
      List.forall_mem_cons, List.forall_mem_map, Option.mem_toList, Node.emit_expr, true_and]
    tauto

/-- A row source is written if its cross joins have no conditions and its nodes are written. -/
theorem succeeds_source (j : JoinSource) :
    (j.emit s).Succeeds ↔ (∀ join ∈ j.joins, join.kind = .cross → join.constraint = none) ∧
      ∀ c ∈ j.children, (c.emit s).Succeeds := by
  rw [JoinSource.children, List.forall_mem_append, JoinSource.emit, succeeds_append,
    succeeds_factor, succeeds_joins, and_left_comm]

/-- A core is written if its parts are. -/
theorem CoreParts.succeeds_emit_iff (c : CoreParts) :
    c.emit.Succeeds ↔ (∀ e ∈ c.projections, e.Succeeds) ∧ (∀ e ∈ c.source, e.Succeeds) ∧
      (∀ r ∈ c.wheres, r.emission.Succeeds) ∧ (∀ e ∈ c.groups, e.Succeeds) ∧
      ∀ r ∈ c.havings, r.emission.Succeeds := by
  obtain ⟨setOp, distinct, projections, source, wheres, groups, havings⟩ := c
  cases projections <;> cases source <;> simp [emit, and_assoc]

/-- A core is written if its cross joins have no conditions and its nodes are written. -/
theorem Core.succeeds_emit_iff (c : Core) :
    (c.parts s).emit.Succeeds
      ↔ c.JoinsAllowed ∧ ∀ n ∈ c.children, (n.emit s).Succeeds := by
  have hsource : (∀ e ∈ c.source.map (·.emit s), e.Succeeds)
      ↔ c.JoinsAllowed ∧
        ∀ n ∈ c.source.toList.flatMap JoinSource.children, (n.emit s).Succeeds := by
    unfold JoinsAllowed
    cases c.source with
    | none => simp
    | some j => simpa using succeeds_source s j
  rw [CoreParts.succeeds_emit_iff]
  simp only [parts, Expr.emission_rendered, List.forall_mem_map, hsource, children,
    List.forall_mem_append, Node.emit_expr]
  tauto

/-- The cores after the first are written if each has a set operator and is written. -/
theorem succeeds_laterCores (hd : s.dialect = .generic) (index : Nat) (cs : List CoreParts) :
    (laterCores s index cs).Succeeds ↔ ∀ c ∈ cs, c.setOp ≠ none ∧ c.emit.Succeeds := by
  induction cs generalizing index with
  | nil => simp [laterCores]
  | cons c cs ih => cases h : c.setOp <;> simp [laterCores, ih, h, SetOperator.emit, hd]

/-- Cores are written if they are linked by set operators and each is written. -/
theorem succeeds_cores (hd : s.dialect = .generic) (cs : List Core) :
    (emitCoreParts s (cs.map (·.parts s))).Succeeds
      ↔ Linked cs ∧ ∀ c ∈ cs, (c.parts s).emit.Succeeds := by
  rw [linked_iff]
  cases cs with
  | nil => simp [emitCoreParts]
  | cons c cs =>
    have hlater : (∀ p ∈ cs.map (·.parts s), p.setOp ≠ none ∧ p.emit.Succeeds)
        ↔ (∀ c ∈ cs, c.setOp ≠ none) ∧ ∀ c ∈ cs, (c.parts s).emit.Succeeds := by
      rw [List.forall_mem_map, ← forall₂_and]
      rfl
    rw [List.map_cons]
    -- The first core must have no operator.
    cases h : c.setOp with
    | none =>
      have hparts : (c.parts s).setOp = none := h
      simp only [emitCoreParts, hparts, succeeds_append, succeeds_laterCores s hd, hlater, h,
        ne_eq, reduceCtorEq, not_false_eq_true, List.head?_cons, Option.mem_some_iff, forall_eq',
        List.tail_cons, List.forall_mem_cons, true_and]
      tauto
    | some op =>
      have hparts : (c.parts s).setOp = some op := h
      simp [emitCoreParts, hparts, h]

/-- Row bounds are written if the target has clauses for them and they are written. -/
theorem succeeds_bounds (limit offset : Option Expr) :
    (emitBounds s (limit.map (·.rendered s)) (offset.map (·.rendered s))).Succeeds
      ↔ BoundsAllowed s limit offset ∧ (∀ e ∈ limit, (e.emit s).Succeeds) ∧
        ∀ e ∈ offset, (e.emit s).Succeeds := by
  cases limit <;> cases offset <;> cases hp : s.capabilities.pagination <;>
    simp [emitBounds, BoundsAllowed, hp, emitBound?, emitBound, and_comm]

/-- A query in standard form is written if its cores, its ordering and its row bounds are. -/
theorem QueryParts.succeeds_standard (q : QueryParts) :
    (q.standard s).Succeeds ↔ (emitCoreParts s q.cores).Succeeds ∧
      (∀ e ∈ q.orders, e.Succeeds) ∧ (emitBounds s q.limit q.offset).Succeeds := by
  obtain ⟨cores, orders, limit, offset, lock⟩ := q
  cases lock <;> simp [standard, and_assoc]

/-- A query is written for generic SQL if it is well formed and what it is written from is
written. -/
theorem Select.succeeds_emit_iff (hd : s.dialect = .generic) (q : Select) :
    (q.emit s).Succeeds ↔ q.WellFormed s ∧ ∀ c ∈ q.children, (c.emit s).Succeeds := by
  rw [emit_generic hd, parts_eq, QueryParts.succeeds_standard, succeeds_cores s hd,
    succeeds_bounds, wellFormed_iff, children]
  simp only [Core.succeeds_emit_iff, forall_and, List.forall_mem_append, List.forall_mem_map,
    List.forall_mem_flatMap, succeeds_order, Option.mem_toList, Node.emit_expr]
  tauto

end Queries

/-- A node is written for generic SQL if it is well formed and its children are written. -/
theorem Node.succeeds_emit_iff {s : Settings} (hd : s.dialect = .generic)
    (hmax : s.capabilities.maxInList ≠ some 0) (m : Node) :
    (m.emit s).Succeeds ↔ m.WellFormed s ∧ ∀ c ∈ m.children, (c.emit s).Succeeds := by
  cases m with
  | expr e => exact e.succeeds_emit_iff s hmax
  | query q => exact q.succeeds_emit_iff s hd

/-! ## Statements -/

section Statements

variable {s : Settings}

/-- Rows that are chosen without a subquery are chosen if the choice is well formed and what it is
written from is written. -/
theorem RowChoice.succeeds_emitPlain {r : RowChoice}
    (h : r.key = none ∨ r.needsSubselect = false) :
    (r.emitPlain s).Succeeds ↔ r.WellFormed s ∧ ∀ c ∈ r.children, (c.emit s).Succeeds := by
  have hkey : (if r.needsSubselect then r.key.toList.map Node.expr else []) = [] := by
    obtain h | h := h <;> simp [h]
  rw [wellFormed_iff, children, hkey, List.append_nil, emitPlain]
  split
  · next hgrouped =>
    -- What is grouped needs a subquery, so there is no key.
    have hsub : r.needsSubselect = true := by
      simp only [needsSubselect, Bool.or_assoc, Bool.or_eq_true] at hgrouped ⊢
      tauto
    have hnone : r.key = none := h.resolve_right (by simp [hsub])
    have hlist : r.groups ≠ [] ∨ r.havings ≠ [] := by simpa using hgrouped
    exact iff_of_false (not_succeeds_fail _) fun hwell => hwell.1.1 hlist hnone
  · next hgrouped =>
    obtain ⟨hgroups, hhavings⟩ : r.groups = [] ∧ r.havings = [] := by simpa using hgrouped
    rw [renderedList_eq_map, emitOrders_eq_map, renderedOption_eq_map, renderedOption_eq_map]
    simp only [succeeds_append, succeeds_conditions, succeeds_clause, succeeds_bounds,
      List.forall_mem_append, List.forall_mem_map, Option.mem_toList, Expr.emission_rendered,
      succeeds_order, Node.emit_expr, hgroups, hhavings, ne_eq, not_true_eq_false, or_self,
      IsEmpty.forall_iff, true_and]
    tauto

/-- The query for the keys of chosen rows is well formed if row bounds are allowed. -/
theorem RowChoice.wellFormed_subselect (r : RowChoice) (relation : TableRef) (key : Expr) :
    (r.subselect relation key).WellFormed s ↔ BoundsAllowed s r.limit r.offset := by
  simp [Select.wellFormed_iff, linked_iff, subselect, Core.JoinsAllowed, Core.empty,
    JoinSource.ofTable]

/-- Rows are chosen if the choice is well formed and what it is written from is written. -/
theorem RowChoice.succeeds_emit_iff (hd : s.dialect = .generic) (relation : TableRef)
    (r : RowChoice) :
    (r.emit s relation).Succeeds
      ↔ r.WellFormed s ∧ ∀ c ∈ r.children, (c.emit s).Succeeds := by
  unfold RowChoice.emit
  -- Only a choice with a key can be put into a subquery.
  split
  · next key hkey =>
    split
    · next hsub =>
      -- The key stands before the subquery and in it.
      have hmem : Node.expr key ∈ r.children := by simp [children, hsub, hkey]
      simp only [succeeds_append, succeeds_sql, true_and, and_true,
        Select.succeeds_emit_iff s hd, wellFormed_subselect, mem_children_subselect hkey hsub,
        wellFormed_iff, hkey, ne_eq, reduceCtorEq, not_false_eq_true, imp_true_iff]
      exact and_iff_right_of_imp fun h => h.2 _ hmem
    · next hsub => exact succeeds_emitPlain (.inr (by simpa using hsub))
  · next hkey => exact succeeds_emitPlain (.inl hkey)

/-- A statement is written for generic SQL if it is well formed and what it is written from is
written. -/
theorem Statement.succeeds_emit_iff (hd : s.dialect = .generic) (st : Statement) :
    (st.emit s).Succeeds ↔ st.WellFormed s ∧ ∀ c ∈ st.children, (c.emit s).Succeeds := by
  cases st with
  | select q => simp [Statement.emit, WellFormed, children]
  | update u =>
    rw [Statement.emit, Update.emit, RowChoice.admitted_generic hd, Traced.ok_bind, WellFormed,
      children, List.forall_mem_append]
    -- An update without assignments is refused.
    split
    · next h =>
      have hnil : u.assignments = [] := by simpa using h
      exact iff_of_false (not_succeeds_fail _) fun hwell => hwell.1.1 hnil
    · next h =>
      have hne : u.assignments ≠ [] := by simpa using h
      simp only [succeeds_append, succeeds_sql, succeeds_table, succeeds_join, List.forall_mem_map,
        Assignment.emit, succeeds_ident, Node.emit_expr, RowChoice.succeeds_emit_iff hd, true_and]
      tauto
  | delete d =>
    rw [Statement.emit, Delete.emit, RowChoice.admitted_generic hd, Traced.ok_bind, WellFormed,
      children]
    simp [RowChoice.succeeds_emit_iff hd]

end Statements

/-- A statement is compiled for generic SQL exactly if lists may hold values, the statement is well
formed, and every node that it visits is. -/
theorem compile_succeeds_iff (o : Options) (st : Statement) (hd : o.target.dialect = .generic)
    (layout : String → String) :
    (∃ c, (compile o st layout).outcome = .ok c)
      ↔ o.choices.capabilities.maxInList ≠ some 0 ∧ st.WellFormed o.choices ∧
        ∀ n, st.Visits n → n.WellFormed o.choices := by
  rw [outcome_compile]
  -- The settings are checked before anything is written.
  split
  · next hmax => simp [hmax]
  · next hmax =>
    have hnodes : ∀ c : Node, (c.emit o.choices).Succeeds
        ↔ ∀ n, c.Visits n → n.WellFormed o.choices :=
      Node.iff_forall_visits (Node.succeeds_emit_iff hd hmax)
    simp only [Statement.forall_visits_iff, ← hnodes, ne_eq, hmax, not_false_eq_true, true_and,
      ← Statement.succeeds_emit_iff (s := o.choices) hd]
    cases h : (st.emit o.choices).outcome with
    | error e => simp [Except.bind, Traced.Succeeds, h]
    | ok ps => simp [Except.bind, Traced.Succeeds, h]

/-- What is not visited may be ill formed: the operand of a test in an empty list, and the key of a
deletion that has conditions only. -/
theorem compile_succeeds_of_unvisited :
    let o : Options := { format := false, signatureComment := false }
    let broken : Expr := .case none [] none
    let page : Select := (Select.fromTable "u" [.col "b"]).withLimit (.int 1)
    let st : Statement := .delete ⟨{ name := "t" },
      { wheres := [.inList broken [] false, .inSubquery (.col "a") page false], key := broken }⟩
    let c : Compiled := ⟨"DELETE FROM t WHERE 1=0 AND a IN (SELECT b FROM u LIMIT 1)", []⟩
    (compile o st).outcome = .ok c ∧ ¬broken.WellFormed o.choices ∧
      ∀ n, st.Visits n → n.WellFormed o.choices := by
  intro o broken page st c
  have hok : (compile o st).outcome = .ok c := by
    cbv
  refine ⟨hok, fun h => h rfl, ?_⟩
  exact ((compile_succeeds_iff o st rfl id).mp ⟨c, hok⟩).2.2

end SqlCompiler
