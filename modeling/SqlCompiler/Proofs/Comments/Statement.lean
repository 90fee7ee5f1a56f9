import Mathlib
import SqlCompiler.Proofs.Comments.Expression

/-!
# Comments in statements

A statement that brings no raw text opens a comment only at a doubled minus
(`compile_opensComment`). For generic SQL it does open one there, so the doubled minus is all that
there is to it. For Oracle an ordering may be dropped or put in terms of aliases, and with it what
it was written from.
-/

namespace SqlCompiler

/-! ## Queries -/

section Queries

variable {s : Settings} {P : Node → Prop}

/-- A comment opens in a single source if it opens in a query below it. -/
theorem TableFactor.scans_emit {t : TableFactor} (h : ∀ c ∈ t.children, Scans s (c.emit s) (P c)) :
    Scans s (t.emit s) (∃ c ∈ t.children, P c) := by
  cases t with
  | table t => exact (Scans.table t).congr (by simp [children])
  | derived query name =>
    have hquery := h (.query query) (by simp [children])
    rw [TableFactor.emit]
    exact .congr (.behind (.behind (.parens hquery) (.sql (by decide))) (.ident name))
      (by simp [children])

/-- A comment opens in joined sources if it opens in a node below them. -/
theorem scans_joins {js : List Join}
    (h : ∀ c ∈ js.flatMap Join.children, Scans s (c.emit s) (P c)) :
    Scans s (emitJoins s js) (∃ c ∈ js.flatMap Join.children, P c) := by
  induction js with
  | nil => exact Scans.empty.congr (by simp)
  | cons j js ih =>
    obtain ⟨kind, factor, constraint⟩ := j
    rw [List.flatMap_cons, List.forall_mem_append, Join.children, List.forall_mem_append] at h
    obtain ⟨⟨hfactor, hconstraint⟩, hjs⟩ := h
    have hkind : Tidy (" " ++ kind.text ++ " ").toList := by cases kind <;> decide
    -- A join has a condition after ON, unless it is a cross join.
    have hon : Scans s (emitConstraint kind (emitOption s constraint))
        (∃ e ∈ constraint, P (.expr e)) := by
      cases constraint with
      | none => exact Scans.empty.congr (by simp)
      | some e =>
        rw [emitOption, emitConstraint]
        split
        · exact .fail _
        · exact (Scans.before (.sql (by decide)) (hconstraint (.expr e) (by simp))).congr (by simp)
    rw [emitJoins]
    refine .congr (.append (.append (.before (.sql hkind) (TableFactor.scans_emit hfactor)) hon)
      (ih hjs)) ?_
    simp [Join.children, or_and_right, exists_or, or_assoc]

/-- A comment opens in a row source if it opens in a node below it. -/
theorem JoinSource.scans_emit {j : JoinSource} (h : ∀ c ∈ j.children, Scans s (c.emit s) (P c)) :
    Scans s (j.emit s) (∃ c ∈ j.children, P c) := by
  rw [children, List.forall_mem_append] at h
  refine .congr (.append (TableFactor.scans_emit h.1) (scans_joins h.2)) ?_
  simp [children, or_and_right, exists_or]

/-- The text of a core is scanned from its nodes. -/
theorem Core.scans_emit {c : Core} (h : ∀ n ∈ c.children, Scans s (n.emit s) (P n)) :
    Scans s (c.parts s).emit (∃ n ∈ c.children, P n) := by
  obtain ⟨setOp, distinct, projections, source, wheres, groups, havings⟩ := c
  simp only [children, List.forall_mem_append, List.forall_mem_map] at h
  obtain ⟨⟨⟨⟨hprojections, hsource⟩, hwheres⟩, hgroups⟩, hhavings⟩ := h
  have hselect : Scans s (.sql (if distinct then "SELECT DISTINCT " else "SELECT ")) False :=
    .sql (by cases distinct <;> decide)
  -- Without projections a star is written.
  have hlist : Scans s (if (projections.map (·.emit s)).isEmpty then .sql "*"
      else .join ", " (projections.map (·.emit s))) (∃ e ∈ projections, P (.expr e)) := by
    cases projections with
    | nil => exact (Scans.sql (by decide)).congr (by simp)
    | cons e es => exact .join (by decide) hprojections
  refine .congr (.append (.append (.append (.append (.before hselect hlist)
    (?_ : Scans s _ (∃ n ∈ source.toList.flatMap JoinSource.children, P n)))
    (.conditions (by decide) hwheres)) (.clause (by decide) (by decide) hgroups))
    (.conditions (by decide) hhavings)) ?_
  · cases source with
    | none => exact Scans.empty.congr (by simp)
    | some j =>
      have hj : ∀ c ∈ j.children, Scans s (c.emit s) (P c) := by simpa using hsource
      exact (Scans.before (.sql (by decide)) (JoinSource.scans_emit hj)).congr (by simp)
  · simp [children, or_and_right, exists_or, or_assoc]

/-- No comment opens in a set operator, for whatever target. -/
theorem Scans.setOperator (op : SetOperator) : Scans s (op.emit s) False := by
  obtain ⟨kind, all⟩ := op
  unfold SetOperator.emit
  split
  · exact .fail _
  · exact .fail _
  · exact .sql (by decide)
  · cases kind <;> cases all <;> exact .sql (by decide)

/-- A comment opens in the cores after the first if it opens in a node below them. -/
theorem scans_laterCores {cs : List Core}
    (h : ∀ n ∈ cs.flatMap Core.children, Scans s (n.emit s) (P n)) (index : Nat) :
    Scans s (laterCores s index (cs.map (·.parts s))) (∃ n ∈ cs.flatMap Core.children, P n) := by
  induction cs generalizing index with
  | nil => exact Scans.empty.congr (by simp)
  | cons c cs ih =>
    rw [List.flatMap_cons, List.forall_mem_append] at h
    rw [List.map_cons, laterCores]
    refine .congr (.append ?_ (ih h.2 (index + 1))) (by
      simp only [List.flatMap_cons, List.mem_append, or_and_right, exists_or]; rfl)
    -- A core without an operator is refused.
    split
    · next op _ =>
      exact .before (.around (.sql (by decide)) (.setOperator op) (.sql (by decide)))
        (Core.scans_emit h.1)
    · exact .fail _

/-- The text of cores is scanned from their nodes. -/
theorem scans_cores {cs : List Core}
    (h : ∀ n ∈ cs.flatMap Core.children, Scans s (n.emit s) (P n)) :
    Scans s (emitCoreParts s (cs.map (·.parts s))) (∃ n ∈ cs.flatMap Core.children, P n) := by
  cases cs with
  | nil => exact .fail _
  | cons c cs =>
    rw [List.flatMap_cons, List.forall_mem_append] at h
    rw [List.map_cons, emitCoreParts]
    refine .congr (.append ?_ (scans_laterCores h.2 1)) (by
      simp only [List.flatMap_cons, List.mem_append, or_and_right, exists_or]; rfl)
    split
    · exact .fail _
    · exact Core.scans_emit h.1

/-- A clause for a row bound opens the comments of its number. -/
theorem Scans.bound {e : Emission} {Q : Prop} (h : Scans s e Q) (bound : RowBound) :
    Scans s (emitBound s bound e) Q := by
  unfold emitBound
  split
  · exact .before (.sql (by decide)) h
  · exact .before (.sql (by decide)) h
  · exact .around (.sql (by decide)) h (.sql (by decide))
  · exact .around (.sql (by decide)) h (.sql (by decide))
  · exact .fail _

/-- A comment opens in the row bounds if it opens in either, in whatever order they stand. -/
theorem scans_bounds {limit offset : Option Expr} {p : Expr → Prop}
    (hlimit : ∀ e ∈ limit, Scans s (e.emit s) (p e))
    (hoffset : ∀ e ∈ offset, Scans s (e.emit s) (p e)) :
    Scans s (emitBounds s (limit.map (·.rendered s)) (offset.map (·.rendered s)))
      ((∃ e ∈ limit, p e) ∨ ∃ e ∈ offset, p e) := by
  have hbound : ∀ (bound : RowBound) {x : Option Expr}, (∀ e ∈ x, Scans s (e.emit s) (p e)) →
      Scans s (emitBound? s bound (x.map (·.rendered s))) (∃ e ∈ x, p e) := by
    intro bound x hx
    cases x with
    | none => exact Scans.empty.congr (by simp)
    | some e => exact (Scans.bound (hx e rfl) bound).congr (by simp)
  unfold emitBounds
  -- For some targets the offset stands first.
  split
  · exact ((hbound .offset hoffset).append (hbound .limit hlimit)).congr or_comm
  · exact (hbound .limit hlimit).append (hbound .offset hoffset)

/-- The text of a query in standard form is scanned from its nodes. -/
theorem Select.scans_standard {q : Select} (h : ∀ c ∈ q.children, Scans s (c.emit s) (P c)) :
    Scans s ((q.parts s).standard s) (∃ c ∈ q.children, P c) := by
  simp only [children, List.forall_mem_append, List.forall_mem_map, Option.mem_toList] at h
  obtain ⟨⟨⟨hcores, horders⟩, hlimit⟩, hoffset⟩ := h
  rw [parts_eq, QueryParts.standard]
  refine .congr (.behind (.append (.append (scans_cores hcores)
    (.clause (by decide) (by decide) fun o ho => .order (horders o ho)))
    (scans_bounds hlimit hoffset)) ?_) ?_
  · obtain _ | lock := q.lock
    · exact .empty
    · exact .sql (by cases lock <;> decide)
  · simp [children, or_and_right, exists_or, or_assoc]

/-! For Oracle some nodes are left out or written in another place, so it is only said here what a
comment comes from. -/

variable {R : Prop}

/-- The number of the last row opens the comments of its bounds. -/
theorem Scans.lastRow {offset limit : Rendered} (ho : Scans s offset.emission R)
    (hl : Scans s limit.emission R) (hd : s.dialect = .oracle) :
    Scans s (emitLastRow offset limit) R := by
  refine .bind fun o _ => .bind fun l _ => ?_
  split
  · split
    · exact (Scans.sql (integer_text _).1).weaken hd False.elim
    · exact .fail _
  · exact .parens (.congr (.append (.behind ho (.sql (by decide))) hl) or_self_iff)

/-- The text of a wrapped query is scanned from the query and its row bounds. -/
theorem QueryParts.scans_wrapped (hd : s.dialect = .oracle) {q : QueryParts}
    (hquery : Scans s (q.unbounded.standard s) R) (hlimit : ∀ r ∈ q.limit, Scans s r.emission R)
    (hoffset : ∀ r ∈ q.offset, Scans s r.emission R) (hplain : Scans s (q.standard s) R) :
    Scans s (q.wrapped s) R := by
  unfold wrapped
  -- Each form puts fixed texts and the bounds around the query without them.
  split
  · next limit offset hl ho =>
    have hl := hlimit limit hl
    have ho := hoffset offset ho
    exact .congr (.append (.behind (.append (.behind (.before (.behind (.note _) (.sql (by decide)))
      hquery) (.sql (by decide))) (.lastRow ho hl hd)) (.sql (by decide))) ho) (by simp)
  · next limit hl _ =>
    exact .congr (.append (.behind (.before (.behind (.note _) (.sql (by decide))) hquery)
      (.sql (by decide))) (hlimit limit hl)) or_self_iff
  · next offset _ ho =>
    exact .congr (.append (.behind (.before (.behind (.note _) (.sql (by decide))) hquery)
      (.sql (by decide))) (hoffset offset ho)) or_self_iff
  · exact hplain

/-- The text of a query for Oracle is scanned from its nodes. -/
theorem Select.scans_oracle (hd : s.dialect = .oracle) {q : Select}
    (h : ∀ c ∈ q.children, Scans s (c.emit s) R) : Scans s ((q.parts s).oracle s) R := by
  -- Every form is made from the standard form of a query with nodes of this one.
  have hstandard : ∀ q : Select, (∀ c ∈ q.children, Scans s (c.emit s) R) →
      Scans s ((q.parts s).standard s) R :=
    fun q hq => (scans_standard (P := fun _ => R) hq).weaken hd fun ⟨_, _, h⟩ => h
  have hplain := hstandard q h
  -- Without its bounds the query has fewer nodes.
  have hunbounded : Scans s ((q.parts s).unbounded.standard s) R :=
    hstandard q.unbounded fun c hc => h c (by
      simp only [unbounded, children, List.mem_append] at hc ⊢
      tauto)
  have hbound : ∀ {x : Option Expr}, (∀ e ∈ x, .expr e ∈ q.children) →
      ∀ r ∈ x.map (·.rendered s), Scans s r.emission R := by
    rintro x hx r hr
    obtain ⟨e, he, rfl⟩ := Option.map_eq_some_iff.mp hr
    exact h _ (hx e he)
  have hlimit : ∀ r ∈ (q.parts s).limit, Scans s r.emission R := by
    rw [parts_eq]
    exact hbound fun e he => by simp [children, Option.mem_def.mp he]
  have hoffset : ∀ r ∈ (q.parts s).offset, Scans s r.emission R := by
    rw [parts_eq]
    exact hbound fun e he => by simp [children, Option.mem_def.mp he]
  have hwrapped := QueryParts.scans_wrapped hd hunbounded hlimit hoffset hplain
  unfold QueryParts.oracle
  split
  · refine .bind fun _ _ => .bind fun _ _ => ?_
    split
    · exact hplain
    · next limit hl _ =>
      split
      · obtain ⟨e, he, rfl⟩ : ∃ e, q.limit = some e ∧ e.rendered s = limit := by
          rwa [parts_eq, Option.map_eq_some_iff] at hl
        refine .before (.note _) ?_
        rw [Expr.rendered, ← parts_pushLimit]
        -- Besides the nodes of the query itself the comparison with the limit is written.
        refine hstandard (q.pushLimit e) fun c hc => ?_
        obtain hc | rfl := mem_children_pushLimit hc
        · exact h c hc
        · have hlimit : Scans s (e.emit s) R := h (.expr e) (by simp [children, he])
          rw [Node.emit_expr, Expr.emit, Expr.emit]
          exact .before (.behind (.operand (.verbatim (by decide))) (.sql (by decide)))
            (.operand hlimit)
      · split
        · exact .fail _
        · exact hwrapped
    · split
      · exact .fail _
      · exact hwrapped
  · split
    · exact .fail _
    · exact hplain
  · exact hplain

/-- The ordering by an alias is tidy. -/
theorem Scans.aliasTerm (index : Nat) (term : List Char) :
    Scans s ((SqlCompiler.aliasTerm index term).expr.emit s) False := by
  refine .verbatim (tidy_of_inert ?_)
  simp only [orderAlias, String.toList_append, List.forall_mem_append]
  refine ⟨⟨⟨List.all_eq_true.mp (by decide), inert_toString index⟩,
    List.all_eq_true.mp (by decide)⟩, ?_⟩
  cases OrderText.isDescending term <;> exact List.all_eq_true.mp (by decide)

/-- The text of a query is scanned from its nodes. -/
theorem Select.scans_emit {q : Select} (h : ∀ c ∈ q.children, Scans s (c.emit s) (P c)) :
    Scans s (q.emit s) (∃ c ∈ q.children, P c) := by
  cases hd : s.dialect with
  | generic =>
    rw [emit_generic hd]
    exact scans_standard h
  | oracle =>
    rw [emit_oracle hd]
    refine .bind fun parts hparts => ?_
    obtain ⟨orders, rfl, horders⟩ := orderedParts_cases hparts
    refine scans_oracle hd fun c hc => ?_
    have hold : ∀ c ∈ q.children, Scans s (c.emit s) (∃ c ∈ q.children, P c) :=
      fun c hc => (h c hc).weaken hd fun hp => ⟨c, hc, hp⟩
    -- Nothing but the ordering is replaced, and no alias opens a comment.
    obtain rfl | ⟨terms, rfl⟩ := horders
    · exact hold c hc
    · simp only [children, List.mem_append] at hc
      obtain ((hc | hc) | hc) | hc := hc
      case inl.inl.inr =>
        obtain ⟨o, ho, rfl⟩ := List.mem_map.mp hc
        obtain ⟨i, hi, rfl⟩ := List.mem_mapIdx.mp ho
        exact (Scans.aliasTerm i terms[i]).weaken hd False.elim
      all_goals exact hold c (by simp only [children, List.mem_append]; tauto)

end Queries

/-- The text of a node without raw text opens a comment only where a minus is doubled, and for
generic SQL it does open one there. -/
theorem Node.scans_emit {s : Settings} (m : Node) (hplain : ∀ n, m.Visits n → n.isPlain = true) :
    Scans s (m.emit s) (∃ n, m.Visits n ∧ n.doublesMinus s = true) := by
  -- From the nodes below a node to the node itself.
  induction m using Node.induction with
  | step m ih =>
    have hchildren : ∀ c ∈ m.children,
        Scans s (c.emit s) (∃ n, c.Visits n ∧ n.doublesMinus s = true) :=
      fun c hc => ih c hc fun n hn => hplain n (.head hc hn)
    -- What a node visits is itself and what its children visit.
    refine Scans.congr ?_ (exists_visits_iff (p := fun n => n.doublesMinus s = true)).symm
    cases m with
    | expr e =>
      refine Expr.scans_emit (fun l => ?_) hplain hchildren
      rw [exists_visits_iff]
      simp [children, Expr.children, doublesMinus, Expr.doublesMinus]
    | query q => exact (Select.scans_emit hchildren).congr (by simp [doublesMinus, children])

/-! ## Statements -/

section Statements

variable {s : Settings} {P : Node → Prop}

/-- A comment opens in conditions and bounds if it opens in a node of the choice of rows. -/
theorem RowChoice.scans_emitPlain {r : RowChoice} (hkey : r.key = none ∨ r.needsSubselect = false)
    (h : ∀ c ∈ r.children, Scans s (c.emit s) (P c)) :
    Scans s (r.emitPlain s) (∃ c ∈ r.children, P c) := by
  have hnone : (if r.needsSubselect then r.key.toList.map Node.expr else []) = [] := by
    obtain h | h := hkey <;> simp [h]
  rw [children, hnone, List.append_nil] at h ⊢
  simp only [List.forall_mem_append, List.forall_mem_map, Option.mem_toList] at h
  obtain ⟨⟨⟨⟨⟨hwheres, horders⟩, hlimit⟩, hoffset⟩, -⟩, -⟩ := h
  unfold emitPlain
  -- Groups are refused here.
  split
  · exact .fail _
  · next hgrouped =>
    obtain ⟨hgroups, hhavings⟩ : r.groups = [] ∧ r.havings = [] := by simpa using hgrouped
    rw [renderedList_eq_map, emitOrders_eq_map, renderedOption_eq_map, renderedOption_eq_map]
    refine .congr (.append (.append (.conditions (by decide) hwheres)
      (.clause (by decide) (by decide) fun o ho => .order (horders o ho)))
      (scans_bounds hlimit hoffset)) ?_
    simp [hgroups, hhavings, or_and_right, exists_or, or_assoc]

/-- The text of a choice of rows is scanned from its nodes. -/
theorem RowChoice.scans_emit {r : RowChoice} (relation : TableRef)
    (h : ∀ c ∈ r.children, Scans s (c.emit s) (P c)) :
    Scans s (r.emit s relation) (∃ c ∈ r.children, P c) := by
  unfold RowChoice.emit
  -- With a key the rows may be chosen by a query of their own.
  split
  · next key hkey =>
    split
    · next hsub =>
      have hmem := mem_children_subselect hkey hsub relation
      have hkeyMem : Node.expr key ∈ r.children := by simp [children, hsub, hkey]
      refine .congr (.behind (.append (.behind (.before (.sql (by decide)) (h _ hkeyMem))
        (.sql (by decide))) (Select.scans_emit fun c hc => h c ((hmem c).mp hc)))
        (.sql (by decide))) ?_
      simp only [hmem, or_iff_right_iff_imp]
      exact fun hp => ⟨_, hkeyMem, hp⟩
    · next hsub => exact scans_emitPlain (.inr (by simpa using hsub)) h
  · next hkey => exact scans_emitPlain (.inl hkey) h

/-- The text of the rows that a statement changes is scanned from the nodes of their choice. -/
theorem RowChoice.scans_admitted {r r' : RowChoice} {change : ChangeKind}
    (hr : (r.admitted s change).outcome = .ok r') (relation : TableRef)
    (h : ∀ c ∈ r.children, Scans s (c.emit s) (P c)) :
    Scans s (r'.emit s relation) (∃ c ∈ r.children, P c) := by
  -- For Oracle the ordering of a change is left out.
  cases hd : s.dialect with
  | generic =>
    rw [admitted_generic hd] at hr
    obtain rfl := Except.ok.inj hr
    exact scans_emit relation h
  | oracle =>
    obtain ⟨rfl, -⟩ := admitted_ok hd hr
    have hsubset : ∀ c ∈ r.unordered.children, c ∈ r.children := by
      intro c hc
      simp only [unordered, children, needsSubselect, List.mem_append] at hc ⊢
      grind
    refine (scans_emit relation fun c hc => h c (hsubset c hc)).weaken hd ?_
    rintro ⟨c, hc, hp⟩
    exact ⟨c, hsubset c hc, hp⟩

/-- The text of a statement is scanned from its nodes. -/
theorem Statement.scans_emit {st : Statement}
    (h : ∀ c ∈ st.children, Scans s (c.emit s) (P c)) :
    Scans s (st.emit s) (∃ c ∈ st.children, P c) := by
  cases st with
  | select q => exact (h (.query q) (by simp [children])).congr (by simp [children])
  | update u =>
    simp only [children, List.forall_mem_append, List.forall_mem_map] at h
    refine .bind fun rows hrows => ?_
    have hrows := RowChoice.scans_admitted hrows u.relation h.2
    split
    · exact .fail _
    · have hset : ∀ a ∈ u.assignments, Scans s (a.emit s) (P (.expr a.value)) := fun a ha =>
        .before (.behind (.ident a.column) (.sql (by decide))) (h.1 a ha)
      refine .congr (.append (.append (.behind (.before (.sql (by decide)) (.table u.relation))
        (.sql (by decide))) (.join (by decide) hset)) hrows) ?_
      simp [children, or_and_right, exists_or]
  | delete d =>
    refine .bind fun rows hrows => ?_
    exact .before (.before (.sql (by decide)) (.table d.relation))
      (RowChoice.scans_admitted hrows d.relation h)

end Statements

/-- In the text of a statement without raw text a comment opens only where a minus stands before an
operand that begins with one; for generic SQL it does open there. -/
theorem compile_opensComment {o : Options} (hsigned : o.signatureComment = false)
    {layout : String → String} (hlayout : o.Keeps layout) {st : Statement}
    (hplain : ∀ n, st.Visits n → n.isPlain = true) {c : Compiled}
    (hc : (compile o st layout).outcome = .ok c) :
    (opensComment .code c.sql.toList = true →
      ∃ n, st.Visits n ∧ n.doublesMinus o.choices = true) ∧
    (o.target.dialect = .generic → (∃ n, st.Visits n ∧ n.doublesMinus o.choices = true) →
      opensComment .code c.sql.toList = true) := by
  obtain ⟨-, ps, hps, rfl⟩ := (outcome_compile_unsigned_iff hsigned hlayout).mp hc
  have hscan : Scans o.choices (st.emit o.choices)
      (∃ c ∈ st.children, ∃ n, c.Visits n ∧ n.doublesMinus o.choices = true) :=
    Statement.scans_emit fun c hc => c.scans_emit fun n hn => hplain n ⟨c, hc, hn⟩
  have htext := hscan.congr Statement.exists_visits_iff.symm ps hps 1
  exact ⟨htext.only, htext.opens⟩

/-- No comment opens where a negated negative number stands in parentheses, and signs in strings and
quoted names. -/
theorem not_opensComment_of_parens :
    let o : Options := { format := false, signatureComment := false, paramStyle := some .inline }
    let st : Statement := .select (Select.fromTable "a--b"
      [.unary .neg (.int (-5)), .string "--", .bound "p" (.integer (-5))])
    let c : Compiled := ⟨"SELECT -(-5), '--', -5 FROM \"a--b\"", []⟩
    (compile o st).outcome = .ok c ∧ opensComment .code c.sql.toList = false := by
  intro o st c
  have hc : (compile o st).outcome = .ok c := by
    cbv
  have hplain : st.allVisited Node.isPlain 3 = true := by
    decide
  have hsingle : st.allVisited (fun n => !n.doublesMinus o.choices) 3 = true := by
    decide
  refine ⟨hc, Bool.eq_false_iff.mpr fun hopens => ?_⟩
  obtain ⟨n, hn, hdoubles⟩ :=
    (compile_opensComment rfl (Options.keeps_of_unformatted rfl _)
      (Statement.forall_visits_of_allVisited hplain) hc).1 hopens
  have := Statement.forall_visits_of_allVisited hsingle n hn
  simp [hdoubles] at this

/-- An inlined parameter has no parentheses, whatever its value: a negated one turns the rest of the
statement into a comment. -/
theorem opensComment_of_negated_parameter :
    let o : Options := { format := false, signatureComment := false, paramStyle := some .inline }
    let st : Statement := .select ((Select.fromTable "t"
      [.unary .neg (.bound "p" (.integer (-5)))]).withWhere ((Expr.col "tenant").eq (.int 7)))
    let c : Compiled := ⟨"SELECT --5 FROM t WHERE tenant = 7", []⟩
    (∀ n, st.Visits n → n.isPlain = true) ∧ (compile o st).outcome = .ok c ∧
      opensComment .code c.sql.toList = true := by
  intro o st c
  have hplain : st.allVisited Node.isPlain 3 = true := by
    decide
  refine ⟨Statement.forall_visits_of_allVisited hplain, ?_, ?_⟩
  · cbv
  · decide

end SqlCompiler
