import Mathlib
import SqlCompiler.Proofs.Ordering.Phrases

/-!
# Expressions and queries are phrases

The pieces of a node are a phrase if those of its children are: an expression puts fixed texts with
guards between its parts, and so do the clauses of a query, also where its rows are counted or its
ordering is put in terms of aliases. So the pieces of every node are a phrase (`Node.phrased_emit`).
-/

namespace SqlCompiler

/-! ## Expressions -/

/-- A window goes on with its function. -/
theorem Trails.window {ps os : List Emission} (hps : ∀ e ∈ ps, Phrased e)
    (hos : ∀ e ∈ os, Phrased e) : Trails (emitWindow ps os) := by
  have hnil : ∀ word, Emission.clause word ", " [] = .empty := fun _ => rfl
  have hcons : ∀ word e es,
      Emission.clause word ", " (e :: es) = .sql word ++ .join ", " (e :: es) :=
    fun _ _ _ => rfl
  -- The closing parenthesis stands behind the last list or right behind the opening one.
  have horder : Phrased (.clause "ORDER BY " ", " os ++ .sql ")") := by
    cases os with
    | nil =>
      rw [hnil, Emission.empty_append]
      exact .sql (by decide)
    | cons o os =>
      rw [hcons, Emission.append_assoc]
      exact .front (by decide) (.closedList hos)
  unfold emitWindow
  simp only [Emission.append_assoc]
  refine .glue (by decide) ?_
  cases ps with
  | nil =>
    rw [hnil, Emission.empty_append, if_neg (by simp), Emission.empty_append]
    exact horder
  | cons p ps =>
    rw [hcons, Emission.append_assoc]
    refine .front (by decide) ((Phrased.join (by decide) (List.cons_ne_nil p ps) hps).append ?_)
    -- A blank stands between the two lists, if there is a second one.
    cases os with
    | nil =>
      rw [if_neg (by simp), Emission.empty_append, hnil, Emission.empty_append]
      exact .back (by decide)
    | cons o os =>
      rw [if_pos (by simp)]
      exact .glue (by decide) horder

/-- The branches of a case distinction go on with a phrase. -/
theorem Trails.branches {s : Settings} {bs : List Branch}
    (h : ∀ b ∈ bs, Phrased (b.condition.emit s) ∧ Phrased (b.value.emit s)) :
    Trails (emitBranches s bs) := by
  induction bs with
  | nil => exact .empty
  | cons b bs ih =>
    obtain ⟨condition, value⟩ := b
    obtain ⟨⟨hc, hv⟩, hbs⟩ := List.forall_mem_cons.mp h
    rw [emitBranches]
    simp only [Emission.append_assoc]
    exact .glue (by decide) (hc.append (.glue (by decide) (hv.append (ih hbs))))

/-- A comparison that counts null as a value is a phrase if its sides are. -/
theorem Phrased.distinctFrom {s : Settings} {left right : Rendered} (hl : Phrased left.emission)
    (hr : Phrased right.emission) (negated : Bool) :
    Phrased (emitDistinctFrom s left right negated) := by
  unfold emitDistinctFrom
  split
  · rw [Emission.append_assoc]
    exact hl.operand.append (.negatable_append negated (by decide) (by decide) hr.operand)
  · simp only [Emission.append_assoc]
    exact .front (by decide) (hl.append (.glue (by decide)
      (hr.append (.negatable negated (by decide) (by decide)))))

/-- The pieces of an expression are a phrase if those of its children are. -/
theorem Expr.phrased_emit {s : Settings} {e : Expr} (h : ∀ c ∈ e.children, Phrased (c.emit s)) :
    Phrased (e.emit s) := by
  have hchild : ∀ e' : Expr, .expr e' ∈ e.children → Phrased (e'.emit s) := fun e' he' => h _ he'
  have hquery : ∀ q : Select, .query q ∈ e.children → Phrased (q.emit s) := fun q hq => h _ hq
  cases e with
  | column relation name => exact .qualified relation (.ident name)
  | star relation => exact .qualified relation (.sql (by decide))
  | literal l => exact .literal l
  | param name value => exact .param name value
  | raw text => exact .verbatim text
  | binary left op right =>
    have hleft := hchild left (by simp [children])
    have hright := hchild right (by simp [children])
    rw [Expr.emit, Emission.append_assoc]
    exact (Phrased.operand hleft).append (.glue (by cases op <;> decide) (.operand hright))
  | unary op operand =>
    have hoperand := hchild operand (by simp [children])
    rw [Expr.emit]
    exact .front (by cases op <;> decide) (.operand hoperand)
  | isNull operand negated =>
    have hoperand := hchild operand (by simp [children])
    rw [Expr.emit]
    exact (Phrased.operand hoperand).append (.negatable negated (by decide) (by decide))
  | isDistinctFrom left right negated =>
    rw [Expr.emit]
    exact .distinctFrom (hchild left (by simp [children])) (hchild right (by simp [children]))
      negated
  | between operand low high negated =>
    have hoperand := hchild operand (by simp [children])
    have hlow := hchild low (by simp [children])
    have hhigh := hchild high (by simp [children])
    rw [Expr.emit]
    simp only [Emission.append_assoc]
    exact (Phrased.operand hoperand).append (.negatable_append negated (by decide) (by decide)
      ((Phrased.operand hlow).append (.glue (by decide) (.operand hhigh))))
  | inList operand list negated =>
    -- An empty list is a constant, so its operand is no child.
    rw [Expr.emit]
    split
    · cases negated <;> exact .sql (by decide)
    · next hlist =>
      have hoperand := hchild operand (by simp [children, hlist])
      have hitems : Phrased (.join ", " (emitEach s list) ++ .sql ")") := by
        rw [emitEach_eq_map]
        refine .closedList (List.forall_mem_map.mpr fun x hx => hchild x ?_)
        simp_all [children]
      rw [Emission.append_assoc, Emission.append_assoc]
      exact (Phrased.operand hoperand).append
        (.negatable_append negated (by decide) (by decide) hitems)
  | inValues operand values negated =>
    rw [Expr.emit, emitInValues]
    refine .bind fun literals hliterals => ?_
    obtain rfl := literals_eq_ok_iff.mp hliterals
    exact .inLiterals negated literals fun hempty =>
      .operand (hchild operand (by simp [children, hempty]))
  | inSubquery operand query negated =>
    have hoperand := hchild operand (by simp [children])
    have hinner := hquery query (by simp [children])
    rw [Expr.emit]
    simp only [Emission.append_assoc]
    exact (Phrased.operand hoperand).append (.negatable_append negated (by decide) (by decide)
      (hinner.append (.back (by decide))))
  | «exists» query negated =>
    have hinner := hquery query (by simp [children])
    rw [Expr.emit, Emission.append_assoc]
    cases negated <;> exact .front (by decide) (hinner.append (.back (by decide)))
  | function name args distinct =>
    -- The list of arguments may be empty, and ends in a guard all the same.
    have hargs : Phrased (.join ", " (emitEach s args) ++ .sql ")") := by
      rw [emitEach_eq_map]
      refine .closedList (List.forall_mem_map.mpr fun x hx => hchild x ?_)
      simpa [children] using hx
    rw [Expr.emit]
    simp only [Emission.append_assoc]
    exact (Phrased.verbatim name).append (.glue (by cases distinct <;> decide) hargs)
  | window f partitionBy orderBy =>
    rw [Expr.emit, emitEach_eq_map, emitOrders_eq_map]
    refine (hchild f (by simp [children])).append (.window
      (List.forall_mem_map.mpr fun x hx => hchild x (by simp [children, hx]))
      (List.forall_mem_map.mpr fun o ho => (hchild o.expr ?_).append (.direction o.direction)))
    simp only [children, List.mem_cons, List.mem_append, List.mem_map]
    exact .inr (.inr ⟨o, ho, rfl⟩)
  | case operand branches default =>
    rw [Expr.emit]
    split
    · exact .fail _
    · have hoption : ∀ {x : Option Expr}, (∀ e' ∈ x, .expr e' ∈ (Expr.case operand branches
          default).children) → ∀ a ∈ emitOption s x, Phrased a := by
        intro x hx a ha
        rw [emitOption_eq_map] at ha
        obtain ⟨e', he', rfl⟩ := Option.map_eq_some_iff.mp ha
        exact hchild e' (hx e' he')
      have hbranch : ∀ b ∈ branches, Phrased (b.condition.emit s) ∧ Phrased (b.value.emit s) := by
        intro b hb
        constructor
        · refine hchild b.condition ?_
          simp only [children, List.mem_append, List.mem_flatMap]
          exact .inl (.inr ⟨b, hb, by simp⟩)
        · refine hchild b.value ?_
          simp only [children, List.mem_append, List.mem_flatMap]
          exact .inl (.inr ⟨b, hb, by simp⟩)
      refine ((((Phrased.sql (by decide)).append (.after (by decide) (hoption ?_))).append
        (.branches hbranch)).append (.after (by decide) (hoption ?_))).append (.back (by decide))
      · exact fun e' he' => by simp [children, Option.mem_def.mp he']
      · exact fun e' he' => by simp [children, Option.mem_def.mp he']
  | cast operand dataType =>
    have hoperand := hchild operand (by simp [children])
    rw [Expr.emit]
    simp only [Emission.append_assoc]
    exact .front (by decide) (hoperand.append (.glue (by decide)
      ((Phrased.verbatim dataType).append (.back (by decide)))))
  | grouping inner => exact .parens (hchild inner (by simp [children]))
  | named inner name =>
    have hinner := hchild inner (by simp [children])
    rw [Expr.emit, Emission.append_assoc]
    exact hinner.append (.glue (by decide) (.ident name))
  | subquery query => exact .parens (hquery query (by simp [children]))

/-! ## Queries -/

section Queries

variable {s : Settings}

/-- A table and its alias are a phrase. -/
theorem TableRef.phrased_emit (t : TableRef) : Phrased t.emit := by
  unfold TableRef.emit
  rw [Emission.append_assoc]
  refine .qualified t.schema ((Phrased.ident t.name).append ?_)
  split
  · next name _ => exact .glue (by decide) (.ident name)
  · exact .empty

/-- A single source is a phrase if the query in it is. -/
theorem TableFactor.phrased_emit {t : TableFactor} (h : ∀ c ∈ t.children, Phrased (c.emit s)) :
    Phrased (t.emit s) := by
  cases t with
  | table t => exact t.phrased_emit
  | derived query name =>
    have hquery : Phrased (query.emit s) := h (.query query) (by simp [children])
    rw [TableFactor.emit, Emission.append_assoc]
    exact hquery.parens.append (.glue (by decide) (.ident name))

/-- Joined sources go on with a phrase. -/
theorem trails_joins {js : List Join} (h : ∀ c ∈ js.flatMap Join.children, Phrased (c.emit s)) :
    Trails (emitJoins s js) := by
  induction js with
  | nil => exact .empty
  | cons j js ih =>
    obtain ⟨kind, factor, constraint⟩ := j
    rw [List.flatMap_cons, List.forall_mem_append, Join.children, List.forall_mem_append] at h
    obtain ⟨⟨hfactor, hconstraint⟩, hjs⟩ := h
    -- A cross join has no condition.
    have hon : Trails (emitConstraint kind (emitOption s constraint)) := by
      cases constraint with
      | none => exact .empty
      | some e =>
        rw [emitOption, emitConstraint]
        split
        · exact .fail _
        · exact .glue (by decide) (hconstraint (.expr e) (by simp))
    rw [emitJoins, Emission.append_assoc, Emission.append_assoc]
    exact .glue (by cases kind <;> decide)
      ((TableFactor.phrased_emit hfactor).append (hon.append (ih hjs)))

/-- The pieces of a core are a phrase if those of its nodes are. -/
theorem Core.phrased_emit {c : Core} (h : ∀ n ∈ c.children, Phrased (n.emit s)) :
    Phrased (c.parts s).emit := by
  obtain ⟨setOp, distinct, projections, source, wheres, groups, havings⟩ := c
  simp only [children, List.forall_mem_append, List.forall_mem_map] at h
  obtain ⟨⟨⟨⟨hprojections, hsource⟩, hwheres⟩, hgroups⟩, hhavings⟩ := h
  have hlist : Phrased (if (projections.map (·.emit s)).isEmpty then .sql "*"
      else .join ", " (projections.map (·.emit s))) := by
    cases projections with
    | nil => exact .sql (by decide)
    | cons e es =>
      exact .join (by decide) (List.cons_ne_nil _ _) (List.forall_mem_map.mpr hprojections)
  have hfrom : Trails (after " FROM " (source.map (·.emit s))) := by
    refine .after (by decide) fun e he => ?_
    obtain ⟨j, rfl, rfl⟩ := Option.map_eq_some_iff.mp he
    have hj : ∀ c ∈ j.children, Phrased (c.emit s) := by simpa using hsource
    rw [JoinSource.children, List.forall_mem_append] at hj
    exact (TableFactor.phrased_emit hj.1).append (trails_joins hj.2)
  have hselect : IsFixed .plain .guarded (if distinct then "SELECT DISTINCT " else "SELECT ") := by
    cases distinct <;> decide
  exact ((((Phrased.front hselect hlist).append hfrom).append
    (.conditions (by decide) (List.forall_mem_map.mpr hwheres))).append
    (.clause (by decide) (List.forall_mem_map.mpr hgroups))).append
    (.conditions (by decide) (List.forall_mem_map.mpr hhavings))

/-- A set operator is a phrase. -/
theorem SetOperator.phrased_emit (op : SetOperator) : Phrased (op.emit s) := by
  obtain ⟨kind, all⟩ := op
  unfold SetOperator.emit
  split
  · exact .fail _
  · exact .fail _
  · exact .sql (by decide)
  · cases kind <;> cases all <;> exact .sql (by decide)

/-- The cores after the first go on with a phrase. -/
theorem trails_laterCores {cs : List Core}
    (h : ∀ n ∈ cs.flatMap Core.children, Phrased (n.emit s)) (index : Nat) :
    Trails (laterCores s index (cs.map (·.parts s))) := by
  induction cs generalizing index with
  | nil => exact .empty
  | cons c cs ih =>
    rw [List.flatMap_cons, List.forall_mem_append] at h
    rw [List.map_cons, laterCores]
    refine .append ?_ (ih h.2 (index + 1))
    split
    · next op _ =>
      rw [Emission.append_assoc, Emission.append_assoc]
      exact .glue (by decide) (op.phrased_emit.append (.glue (by decide) (Core.phrased_emit h.1)))
    · exact .fail _

/-- The cores of a query are a phrase. -/
theorem phrased_cores {cs : List Core}
    (h : ∀ n ∈ cs.flatMap Core.children, Phrased (n.emit s)) :
    Phrased (emitCoreParts s (cs.map (·.parts s))) := by
  cases cs with
  | nil => exact .fail _
  | cons c cs =>
    rw [List.flatMap_cons, List.forall_mem_append] at h
    rw [List.map_cons, emitCoreParts]
    refine .append ?_ (trails_laterCores h.2 1)
    split
    · exact .fail _
    · exact Core.phrased_emit h.1

/-- The row bounds go on with a phrase. -/
theorem trails_bounds {limit offset : Option Rendered} (hlimit : ∀ r ∈ limit, Phrased r.emission)
    (hoffset : ∀ r ∈ offset, Phrased r.emission) : Trails (emitBounds s limit offset) := by
  have hbound : ∀ (bound : RowBound) {x : Option Rendered}, (∀ r ∈ x, Phrased r.emission) →
      Trails (emitBound? s bound x) := by
    intro bound x hx
    cases x with
    | none => exact .empty
    | some r =>
      have hr := hx r rfl
      show Trails (emitBound s bound r.emission)
      unfold emitBound
      -- One text for each bound and clause, and none where rows are counted.
      split
      · exact .glue (by decide) hr
      · exact .glue (by decide) hr
      · exact (Trails.glue (by decide) hr).append (.back (by decide))
      · exact (Trails.glue (by decide) hr).append (.back (by decide))
      · exact .fail _
  unfold emitBounds
  -- The order of the bounds depends on the target.
  split
  · exact (hbound .offset hoffset).append (hbound .limit hlimit)
  · exact (hbound .limit hlimit).append (hbound .offset hoffset)

/-- A row bound that may be missing is a phrase if its expression is. -/
theorem phrased_bound {x : Option Expr} (h : ∀ e ∈ x, Phrased (e.emit s)) :
    ∀ r ∈ x.map (·.rendered s), Phrased r.emission := by
  intro r hr
  obtain ⟨e, he, rfl⟩ := Option.map_eq_some_iff.mp hr
  exact h e he

/-- The pieces of a query in standard form are a phrase if those of its nodes are. -/
theorem Select.phrased_standard {q : Select} (h : ∀ c ∈ q.children, Phrased (c.emit s)) :
    Phrased ((q.parts s).standard s) := by
  simp only [children, List.forall_mem_append, List.forall_mem_map, Option.mem_toList] at h
  obtain ⟨⟨⟨hcores, horders⟩, hlimit⟩, hoffset⟩ := h
  rw [parts_eq, QueryParts.standard]
  refine (((phrased_cores hcores).append (.clause (by decide) (List.forall_mem_map.mpr fun o ho =>
    (horders o ho).append (.direction o.direction)))).append
    (trails_bounds (phrased_bound hlimit) (phrased_bound hoffset))).append ?_
  obtain _ | lock := q.lock
  · exact .empty
  · exact .back (by cases lock <;> decide)

/-- The number of the last row is a phrase if both bounds are. -/
theorem Phrased.lastRow {offset limit : Rendered} (ho : Phrased offset.emission)
    (hl : Phrased limit.emission) : Phrased (emitLastRow offset limit) := by
  refine .bind fun o _ => .bind fun l _ => ?_
  split
  · split
    · exact .sql (isFixed_of_numeric (integer_text _).2.1 (numeric_toString _))
    · exact .fail _
  · rw [Emission.append_assoc]
    exact .parens (ho.append (.glue (by decide) hl))

/-- A wrapped query is a phrase if its parts are. -/
theorem QueryParts.phrased_wrapped {q : QueryParts} (hquery : Phrased (q.unbounded.standard s))
    (hlimit : ∀ r ∈ q.limit, Phrased r.emission) (hoffset : ∀ r ∈ q.offset, Phrased r.emission)
    (hplain : Phrased (q.standard s)) : Phrased (q.wrapped s) := by
  unfold wrapped
  -- Each form has a blank or a parenthesis on both sides of the query.
  split
  · next limit offset hl ho =>
    have hl := hlimit limit hl
    have ho := hoffset offset ho
    simp only [Emission.append_assoc]
    exact .note _ (.front (by decide) (hquery.append (.glue (by decide)
      ((Phrased.lastRow ho hl).append (.glue (by decide) ho)))))
  · next limit hl _ =>
    simp only [Emission.append_assoc]
    exact .note _ (.front (by decide) (hquery.append (.glue (by decide) (hlimit limit hl))))
  · next offset _ ho =>
    simp only [Emission.append_assoc]
    exact .note _ (.front (by decide) (hquery.append (.glue (by decide) (hoffset offset ho))))
  · exact hplain

/-- The pieces of a query for Oracle are a phrase if those of its nodes are. -/
theorem Select.phrased_oracle {q : Select} (h : ∀ c ∈ q.children, Phrased (c.emit s)) :
    Phrased ((q.parts s).oracle s) := by
  have hplain := phrased_standard h
  have hunbounded : Phrased ((q.parts s).unbounded.standard s) :=
    phrased_standard (q := q.unbounded) fun c hc => h c (by
      simp only [unbounded, children, List.mem_append] at hc ⊢
      tauto)
  have hlimit : ∀ r ∈ (q.parts s).limit, Phrased r.emission := by
    rw [parts_eq]
    exact phrased_bound fun e he => h (.expr e) (by simp [children, Option.mem_def.mp he])
  have hoffset : ∀ r ∈ (q.parts s).offset, Phrased r.emission := by
    rw [parts_eq]
    exact phrased_bound fun e he => h (.expr e) (by simp [children, Option.mem_def.mp he])
  have hwrapped := QueryParts.phrased_wrapped hunbounded hlimit hoffset hplain
  unfold QueryParts.oracle
  -- The clause for row bounds decides on the form.
  split
  · refine .bind fun _ _ => .bind fun _ _ => ?_
    split
    · exact hplain
    · next limit hl _ =>
      split
      · obtain ⟨e, he, rfl⟩ : ∃ e, q.limit = some e ∧ e.rendered s = limit := by
          rwa [parts_eq, Option.map_eq_some_iff] at hl
        refine .note _ ?_
        rw [Expr.rendered, ← parts_pushLimit]
        -- Besides the nodes of the query itself the comparison with the limit is written.
        refine phrased_standard (q := q.pushLimit e) fun c hc => ?_
        obtain hc | rfl := mem_children_pushLimit hc
        · exact h c hc
        · have hlimit : Phrased (e.emit s) := h (.expr e) (by simp [children, he])
          rw [Node.emit_expr, Expr.emit, Expr.emit, Emission.append_assoc]
          exact (Phrased.operand (.verbatim _)).append (.glue (by decide) (.operand hlimit))
      · split
        · exact .fail _
        · exact hwrapped
    · split
      · exact .fail _
      · exact hwrapped
  · split
    · exact .fail _
    · exact hplain
  · exact hplain

/-- The pieces of a query are a phrase if those of its nodes are. -/
theorem Select.phrased_emit {q : Select} (h : ∀ c ∈ q.children, Phrased (c.emit s)) :
    Phrased (q.emit s) := by
  cases hd : s.dialect with
  | generic =>
    rw [emit_generic hd]
    exact phrased_standard h
  | oracle =>
    rw [emit_oracle hd]
    refine .bind fun parts hparts => ?_
    obtain ⟨orders, rfl, horders⟩ := orderedParts_cases hparts
    refine phrased_oracle fun c hc => ?_
    -- Nothing but the ordering is replaced, and an alias is one piece.
    obtain rfl | ⟨terms, rfl⟩ := horders
    · exact h c hc
    · simp only [children, List.mem_append] at hc
      obtain ((hc | hc) | hc) | hc := hc
      case inl.inl.inr =>
        obtain ⟨o, ho, rfl⟩ := List.mem_map.mp hc
        obtain ⟨i, hi, rfl⟩ := List.mem_mapIdx.mp ho
        exact .verbatim _
      all_goals exact h c (by simp only [children, List.mem_append]; tauto)

end Queries

/-- The pieces of an expression or a query are a phrase. -/
theorem Node.phrased_emit (s : Settings) (m : Node) : Phrased (m.emit s) := by
  induction m using Node.induction with
  | step m ih =>
    cases m with
    | expr e => exact Expr.phrased_emit ih
    | query q => exact Select.phrased_emit ih

end SqlCompiler
