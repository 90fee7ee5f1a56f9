import SqlCompiler.Proofs.Agreement.Placeholders
import SqlCompiler.Proofs.Nodes.Visits

/-!
# Nodes under two settings

Here one tree is written under two settings that agree in all but the dialect and the style of
parameters. A relation that the grammar keeps holds between both emissions of a node if it holds
between those of its children, unless the node itself is written by what the settings differ in
(`Expr.emit_related`, `Select.parts_related`). So the style does not matter to a node that visits no
parameter (`Node.emit_inline`).
-/

namespace SqlCompiler

/-- Both settings write literals and lists of values alike. -/
structure Settings.Akin (s s' : Settings) : Prop where
  capabilities : s'.capabilities = s.capabilities
  emulateBooleans : s'.emulateBooleans = s.emulateBooleans

/-- An expression is not written by what the settings differ in, apart from the nodes that it is
written from. -/
def Expr.SameForm (s s' : Settings) : Expr → Prop
  | .param _ _ => s'.paramStyle = .inline ↔ s.paramStyle = .inline
  | .isDistinctFrom _ _ _ => s'.dialect = s.dialect
  | _ => True

namespace Settings.Akin

variable {s s' : Settings} (akin : s.Akin s')

include akin

/-- A literal is written alike. -/
theorem literal (l : Literal) : l.emit s' = l.emit s := by
  cases l with
  | boolean b => simp only [Literal.emit, akin.emulateBooleans]
  | _ => rfl

/-- A parameter is written alike if both styles are inline or both are not. -/
theorem param (h : s'.paramStyle = .inline ↔ s.paramStyle = .inline) (name : String)
    (value : Option Literal) : emitParam s' name value = emitParam s name value := by
  simp only [emitParam, h, akin.literal]

/-- A test for literals is written alike. -/
theorem inValues (operand : Emission) (negated : Bool) (values : List Literal) :
    InValues.emit s' operand negated values = InValues.emit s operand negated values := by
  have hsingle : InValues.single s' operand negated = InValues.single s operand negated := by
    funext part
    simp only [InValues.single, akin.literal]
  unfold InValues.emit
  rw [hsingle, akin.capabilities]

end Settings.Akin

section Related

variable {s s' : Settings} {r : Emission → Emission → Prop}

/-- Related emissions are related one after the other. -/
theorem GrammarLaw.appended (law : GrammarLaw Eq s s fun _ _ => r) {a a' b b' : Emission}
    (ha : r a a') (hb : r b b') : r (a ++ b) (a' ++ b') :=
  law.append (i := 0) (j := 0) (k := 0) ha hb

/-! ## Lists of parts -/

/-- Expressions with related emissions, one by one. -/
theorem each_related {es : List Expr} (h : ∀ e ∈ es, r (e.emit s) (e.emit s')) :
    List.Forall₂ r (es.map (·.emit s)) (es.map (·.emit s')) := by
  rw [List.forall₂_map_left_iff, List.forall₂_map_right_iff]
  exact List.forall₂_same.mpr h

/-- Conditions with related emissions agree. -/
theorem conditions_related {es : List Expr} (h : ∀ e ∈ es, r (e.emit s) (e.emit s')) :
    List.Forall₂ (Rendered.Agree Eq fun _ _ => r) (es.map (·.rendered s))
      (es.map (·.rendered s')) := by
  rw [List.forall₂_map_left_iff, List.forall₂_map_right_iff]
  exact List.forall₂_same.mpr fun e he => ⟨e.agree_self fun _ => rfl, h e he⟩

/-- An expression that may be missing has related emissions. -/
theorem option_related {e : Option Expr} (h : ∀ x ∈ e, r (x.emit s) (x.emit s')) :
    Option.Rel r (emitOption s e) (emitOption s' e) := by
  cases e with
  | none => exact .none
  | some x => exact .some (h x rfl)

/-- Row bounds with related emissions agree. -/
theorem bound_related {e : Option Expr} (h : ∀ x ∈ e, r (x.emit s) (x.emit s')) :
    Option.Rel (Rendered.Agree Eq fun _ _ => r) (e.map (·.rendered s)) (e.map (·.rendered s')) := by
  cases e with
  | none => exact .none
  | some x => exact .some ⟨x.agree_self fun _ => rfl, h x rfl⟩

variable (hrefl : ∀ a, r a a) (law : GrammarLaw Eq s s fun _ _ => r)

include hrefl law

/-- Ordering terms have related emissions if their expressions do. -/
theorem orders_related {os : List OrderTerm}
    (h : ∀ o ∈ os, r (o.expr.emit s) (o.expr.emit s')) :
    List.Forall₂ r (os.map (·.emit s)) (os.map (·.emit s')) := by
  rw [List.forall₂_map_left_iff, List.forall₂_map_right_iff]
  exact List.forall₂_same.mpr fun o ho => law.appended (h o ho) (hrefl _)

/-- Branches have related emissions if their conditions and values do. -/
theorem branches_related {bs : List Branch}
    (h : ∀ b ∈ bs, r (b.condition.emit s) (b.condition.emit s') ∧
      r (b.value.emit s) (b.value.emit s')) :
    r (emitBranches s bs) (emitBranches s' bs) := by
  induction bs with
  | nil => exact hrefl _
  | cons b bs ih =>
    obtain ⟨condition, value⟩ := b
    obtain ⟨⟨hcondition, hvalue⟩, hbs⟩ := List.forall_mem_cons.mp h
    exact law.appended (law.appended (law.appended (law.appended (hrefl _) hcondition) (hrefl _))
      hvalue) (ih hbs)

/-! ## Expressions -/

/-- Both emissions of an expression are related if those of its children are. -/
theorem Expr.emit_related (akin : s.Akin s') {e : Expr} (he : e.SameForm s s')
    (h : ∀ c ∈ e.children, r (c.emit s) (c.emit s')) : r (e.emit s) (e.emit s') := by
  have hrendered : ∀ x : Expr, .expr x ∈ e.children →
      Rendered.Agree Eq (fun _ _ => r) ⟨x, x.emit s⟩ ⟨x, x.emit s'⟩ :=
    fun x hx => ⟨x.agree_self fun _ => rfl, h _ hx⟩
  have heach : ∀ es : List Expr, (∀ x ∈ es, .expr x ∈ e.children) →
      List.Forall₂ r (emitEach s es) (emitEach s' es) := by
    intro es hes
    rw [emitEach_eq_map, emitEach_eq_map]
    exact each_related fun x hx => h _ (hes x hx)
  cases e with
  | column relation name => exact hrefl _
  | star relation => exact hrefl _
  | literal l =>
    rw [Expr.emit, Expr.emit, akin.literal]
    exact hrefl _
  | param name value =>
    rw [Expr.emit, Expr.emit, akin.param he]
    exact hrefl _
  | raw text => exact hrefl _
  | binary left op right =>
    refine law.appended (law.appended (law.operand (hrendered left ?_) _ _ _) (hrefl _))
      (law.operand (hrendered right ?_) _ _ _)
    all_goals simp [children]
  | unary op operand =>
    exact law.appended (hrefl _) (law.operand (hrendered operand (by simp [children])) _ _ _)
  | isNull operand negated =>
    exact law.appended (law.operand (hrendered operand (by simp [children])) _ _ _) (hrefl _)
  | isDistinctFrom left right negated =>
    -- The one expression whose form depends on the dialect.
    have hdialect : ∀ a b : Rendered,
        emitDistinctFrom s' a b negated = emitDistinctFrom s a b negated := by
      intro a b
      simp only [emitDistinctFrom, show s'.dialect = s.dialect from he]
    rw [Expr.emit, Expr.emit, hdialect]
    refine law.distinctFrom (hrendered left ?_) (hrendered right ?_) negated
    all_goals simp [children]
  | between operand low high negated =>
    refine law.appended (law.appended (law.appended (law.appended
      (law.operand (hrendered operand ?_) _ _ _) (hrefl _))
      (law.operand (hrendered low ?_) _ _ _)) (hrefl _)) (law.operand (hrendered high ?_) _ _ _)
    all_goals simp [children]
  | inList operand list negated =>
    -- An empty list is the same constant in both.
    rw [Expr.emit, Expr.emit]
    split
    · exact hrefl _
    · next hlist =>
      refine law.appended (law.appended (law.appended (law.operand (hrendered operand ?_) _ _ _)
        (hrefl _)) (law.join (by decide) (heach list ?_))) (hrefl _)
      · simp [children, hlist]
      · intro x hx
        simp [children, hlist, hx]
  | inValues operand values negated =>
    rw [Expr.emit, Expr.emit, emitInValues, emitInValues]
    cases hliterals : InValues.literals values with
    | error f => exact hrefl _
    | ok literals =>
      obtain rfl := literals_eq_ok_iff.mp hliterals
      show r (InValues.emit s _ _ _) (InValues.emit s' _ _ _)
      rw [akin.inValues]
      cases hempty : literals.isEmpty && negated with
      | true =>
        -- The operand is not written, so nothing is known about it.
        obtain ⟨hnil, rfl⟩ : literals = [] ∧ negated = true := by simpa using hempty
        rw [hnil]
        exact hrefl _
      | false =>
        exact law.inValues (law.operand (hrendered operand (by simp [children, hempty])) _ _ _)
          negated (List.forall₂_same.mpr fun _ _ => rfl)
  | inSubquery operand query negated =>
    refine law.appended (law.appended (law.appended (law.operand (hrendered operand ?_) _ _ _)
      (hrefl _)) (h (.query query) ?_)) (hrefl _)
    all_goals simp [children]
  | «exists» query negated =>
    exact law.appended (law.appended (hrefl _) (h (.query query) (by simp [children]))) (hrefl _)
  | function name args distinct =>
    refine law.appended (law.appended (hrefl _) (law.join (by decide) (heach args ?_))) (hrefl _)
    intro x hx
    simp [children, hx]
  | window f partitionBy orderBy =>
    refine law.appended (h (.expr f) ?_) (law.windowClauses (heach partitionBy ?_) ?_)
    · simp [children]
    · intro x hx
      simp [children, hx]
    · rw [emitOrders_eq_map, emitOrders_eq_map]
      refine orders_related hrefl law fun o ho => h (.expr o.expr) ?_
      simp only [children, List.mem_cons, List.mem_append, List.mem_map]
      exact .inr (.inr ⟨o, ho, rfl⟩)
  | case operand branches default =>
    -- Without branches both are refused.
    simp only [children, List.forall_mem_append, List.forall_mem_map, List.forall_mem_flatMap,
      Option.mem_toList] at h
    obtain ⟨⟨hoperand, hbranches⟩, hdefault⟩ := h
    rw [Expr.emit, Expr.emit]
    split
    · exact hrefl _
    · refine law.appended (law.appended (law.appended (law.appended (hrefl _)
        (law.after (by decide) (option_related hoperand)))
        (branches_related hrefl law fun b hb => ?_))
        (law.after (by decide) (option_related hdefault))) (hrefl _)
      simpa using hbranches b hb
  | cast operand dataType =>
    exact law.appended (law.appended (law.appended (law.appended (hrefl _)
      (h (.expr operand) (by simp [children]))) (hrefl _)) (hrefl _)) (hrefl _)
  | grouping inner => exact law.inParens (h (.expr inner) (by simp [children]))
  | named inner name =>
    exact law.appended (law.appended (h (.expr inner) (by simp [children])) (hrefl _)) (hrefl _)
  | subquery query => exact law.inParens (h (.query query) (by simp [children]))

/-! ## The parts of queries -/

/-- A single source has related emissions if its children do. -/
theorem TableFactor.emit_related {t : TableFactor}
    (h : ∀ c ∈ t.children, r (c.emit s) (c.emit s')) : r (t.emit s) (t.emit s') := by
  cases t with
  | table t => exact hrefl _
  | derived query name =>
    exact law.appended (law.appended (law.inParens (h (.query query) (by simp [children])))
      (hrefl _)) (hrefl _)

/-- Joined sources have related emissions if their children do. -/
theorem joins_related {js : List Join}
    (h : ∀ c ∈ js.flatMap Join.children, r (c.emit s) (c.emit s')) :
    r (emitJoins s js) (emitJoins s' js) := by
  induction js with
  | nil => exact hrefl _
  | cons j js ih =>
    obtain ⟨kind, factor, constraint⟩ := j
    simp only [List.flatMap_cons, List.forall_mem_append, Join.children, List.forall_mem_map,
      Option.mem_toList] at h
    obtain ⟨⟨hfactor, hconstraint⟩, hjs⟩ := h
    exact law.appended (law.appended (law.appended (hrefl _)
      (TableFactor.emit_related hrefl law hfactor))
      (law.joinCondition kind (option_related hconstraint))) (ih hjs)

/-- A row source that may be missing has related emissions if its children do. -/
theorem source_related {j : Option JoinSource}
    (h : ∀ c ∈ j.toList.flatMap JoinSource.children, r (c.emit s) (c.emit s')) :
    Option.Rel r (j.map (·.emit s)) (j.map (·.emit s')) := by
  cases j with
  | none => exact .none
  | some j =>
    simp only [Option.toList, List.flatMap_cons, List.flatMap_nil, List.append_nil,
      JoinSource.children, List.forall_mem_append] at h
    exact .some (law.appended (TableFactor.emit_related hrefl law h.1)
      (joins_related hrefl law h.2))

/-- The parts of a core agree if its children have related emissions. -/
theorem Core.parts_related {c : Core} (h : ∀ n ∈ c.children, r (n.emit s) (n.emit s')) :
    (c.parts s).Agree Eq (fun _ _ => r) (c.parts s') := by
  simp only [children, List.forall_mem_append, List.forall_mem_map] at h
  obtain ⟨⟨⟨⟨hprojections, hsource⟩, hwheres⟩, hgroups⟩, hhavings⟩ := h
  exact
    { setOp := rfl
      distinct := rfl
      projections := each_related hprojections
      source := source_related hrefl law hsource
      wheres := conditions_related hwheres
      groups := each_related hgroups
      havings := conditions_related hhavings }

/-- The parts of a query under both settings are related one by one if those of its children are. -/
theorem Select.parts_related {q : Select} (h : ∀ n ∈ q.children, r (n.emit s) (n.emit s')) :
    (q.parts s).Agree Eq (fun _ _ => r) (q.parts s') := by
  simp only [children, List.forall_mem_append, List.forall_mem_map, List.forall_mem_flatMap,
    Option.mem_toList] at h
  obtain ⟨⟨⟨hcores, horders⟩, hlimit⟩, hoffset⟩ := h
  rw [parts_eq, parts_eq]
  refine
    { cores := ?_
      orders := orders_related hrefl law horders
      limit := bound_related hlimit
      offset := bound_related hoffset
      lock := rfl }
  rw [List.forall₂_map_left_iff, List.forall₂_map_right_iff]
  exact List.forall₂_same.mpr fun c hc => Core.parts_related hrefl law (hcores c hc)

end Related

/-! ## The style without parameters -/

/-- A node that is written by the style of parameters. -/
def Node.isParam : Node → Bool
  | .expr (.param _ _) => true
  | _ => false

section Style

variable (s : Settings) (style : ParamStyle)

/-- The style does not matter to what is made from emitted cores. -/
theorem laterCores_withStyle (index : Nat) (cs : List CoreParts) :
    laterCores (s.withStyle style) index cs = laterCores s index cs := by
  induction cs generalizing index with
  | nil => rfl
  | cons c cs ih =>
    rw [laterCores, laterCores, ih]
    rfl

/-- The style is not looked at to put the parts of a query together. -/
theorem QueryParts.standard_withStyle (q : QueryParts) :
    q.standard (s.withStyle style) = q.standard s := by
  have hcores : emitCoreParts (s.withStyle style) q.cores = emitCoreParts s q.cores := by
    cases q.cores with
    | nil => rfl
    | cons c cs => rw [emitCoreParts, emitCoreParts, laterCores_withStyle]
  rw [standard, standard, hcores]
  rfl

/-- The style does not matter to what is made for Oracle from emitted parts. -/
theorem QueryParts.oracle_withStyle (q : QueryParts) :
    q.oracle (s.withStyle style) = q.oracle s := by
  unfold oracle byRowNumber wrapped
  simp only [standard_withStyle]
  rfl

end Style

/-- A query has the same pieces, notes and faults in both styles if its parts have. -/
theorem Select.emit_inline_of_parts {s : Settings} {q : Select}
    (h : q.parts (s.withStyle .inline) = q.parts (s.withStyle .questionMark)) :
    q.emit (s.withStyle .inline) = q.emit (s.withStyle .questionMark) := by
  have hdialect : ∀ style, (s.withStyle style).dialect = s.dialect := fun _ => rfl
  cases hd : s.dialect with
  | generic =>
    rw [emit_generic ((hdialect _).trans hd), emit_generic ((hdialect _).trans hd), h,
      QueryParts.standard_withStyle, QueryParts.standard_withStyle]
  | oracle =>
    have hordered : q.orderedParts (s.withStyle .inline)
        = q.orderedParts (s.withStyle .questionMark) := by
      -- An ordering is probed with `?` under both styles.
      by_cases horders : q.orders = []
      · rw [orderedParts_of_orders_nil horders, orderedParts_of_orders_nil horders, h]
      · rw [orderedParts, orderedParts, probe_eq _ horders, probe_eq _ horders, h]
        rfl
    rw [emit_oracle ((hdialect _).trans hd), emit_oracle ((hdialect _).trans hd), hordered]
    simp only [QueryParts.oracle_withStyle]

/-- A node that visits no parameter has the same pieces, notes and faults where parameters are
written as literals. -/
theorem Node.emit_inline (s : Settings) (m : Node) (h : ∀ n, m.Visits n → n.isParam = false) :
    m.emit (s.withStyle .inline) = m.emit (s.withStyle .questionMark) := by
  have hstyle : (s.withStyle .questionMark).paramStyle ≠ .inline := ParamStyle.noConfusion
  have law : GrammarLaw Eq (s.withStyle .questionMark) (s.withStyle .questionMark)
      fun _ _ a b => a = b :=
    grammarLaw_withStyle hstyle hstyle
  -- From the nodes below a node to the node; a parameter is never met.
  induction m using Node.induction with
  | step m ih =>
    have hchildren : ∀ c ∈ m.children,
        c.emit (s.withStyle .questionMark) = c.emit (s.withStyle .inline) :=
      fun c hc => (ih c hc fun n hn => h n (.head hc hn)).symm
    have hself := h m .refl
    cases m with
    | expr e =>
      have akin : (s.withStyle .questionMark).Akin (s.withStyle .inline) := ⟨rfl, rfl⟩
      refine (Expr.emit_related (fun _ => rfl) law akin ?_ hchildren).symm
      cases e with
      | param name value => cases hself
      | isDistinctFrom left right negated => exact rfl
      | _ => trivial
    | query q =>
      have hparts := QueryParts.eq_of_agree (Select.parts_related (fun _ => rfl) law hchildren)
      exact Select.emit_inline_of_parts hparts.symm

end SqlCompiler
