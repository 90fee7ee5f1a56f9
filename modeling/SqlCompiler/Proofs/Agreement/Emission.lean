import SqlCompiler.Proofs.Agreement.Law

/-!
# The emissions of trees that agree

A law of the grammar holds between the emissions of any two trees that agree
(`Expr.emit_agree`, `Statement.emit_agree`). The recursion over the tree is made here once, for all
laws.
-/

namespace SqlCompiler

variable {Z : Literal → Literal → Prop} {s s' : Settings}
  {R : Nat → Nat → Emission → Emission → Prop}

namespace GrammarLaw

/-- The same qualifier is related to itself. -/
theorem qualifier (law : GrammarLaw Z s s' R) (relation : Option String) :
    R 0 0 (SqlCompiler.qualifier relation) (SqlCompiler.qualifier relation) := by
  cases relation with
  | none => exact law.empty
  | some name => exact law.append (law.ident name) (law.sql "." 0 0 (by decide))

/-- The same table is related to itself. -/
theorem table (law : GrammarLaw Z s s' R) (t : TableRef) : R 0 0 t.emit t.emit := by
  refine law.append (law.append (law.qualifier t.schema) (law.ident t.name)) ?_
  cases t.rename with
  | none => exact law.empty
  | some name => exact law.append (law.sql " " 0 0 (by decide)) (law.ident name)

/-- A test and its opposite are words of the grammar. -/
theorem negatable (law : GrammarLaw Z s s' R) (negated : Bool) {positive negative : String}
    {i j : Nat} (hpositive : Fits positive i j) (hnegative : Fits negative i j) :
    R i j (SqlCompiler.negatable negated positive negative)
      (SqlCompiler.negatable negated positive negative) := by
  cases negated with
  | false => exact law.sql positive i j hpositive
  | true => exact law.sql negative i j hnegative

/-- Comparisons under which null equals null are related if their sides are, in either dialect. -/
theorem distinctFrom (law : GrammarLaw Z s s' R) {a a' b b' : Rendered} (ha : a.Agree Z R a')
    (hb : b.Agree Z R b') (negated : Bool) :
    R 0 0 (emitDistinctFrom s a b negated) (emitDistinctFrom s' a' b' negated) := by
  unfold emitDistinctFrom
  rw [law.dialect]
  cases s.dialect with
  | generic =>
    exact law.append (law.append (law.operand ha _ _ _)
      (law.negatable negated (by decide) (by decide))) (law.operand hb _ _ _)
  | oracle =>
    -- Oracle has no such comparison, and both sides stand inside the call of `DECODE`.
    exact law.append (law.append (law.append (law.append (law.sql "DECODE(" 0 1 (by decide))
      (law.inside ha.emission)) (law.sql ", " 1 1 (by decide))) (law.inside hb.emission))
      (law.negatable negated (by decide) (by decide))

/-- Tests in one list are related if their operands are and their literals correspond. -/
theorem single (law : GrammarLaw Z s s' R) {a a' : Emission} (ha : R 0 0 a a') (negated : Bool)
    {ls ls' : List Literal} (hls : List.Forall₂ Z ls ls') :
    R 0 0 (InValues.single s a negated ls) (InValues.single s' a' negated ls') := by
  have hlist : R 1 1 (.join ", " (ls.map (·.emit s))) (.join ", " (ls'.map (·.emit s'))) := by
    refine law.join (by decide) ?_
    rw [List.forall₂_map_left_iff, List.forall₂_map_right_iff]
    exact hls.imp fun l l' hl => law.inside (law.literal l l' hl)
  exact law.append (law.append (law.append ha (law.negatable negated (by decide) (by decide)))
    hlist) (law.sql ")" 1 0 (by decide))

/-- Tests in literals are related if their operands are and their literals correspond. Lists of one
length are split alike. -/
theorem inValues (law : GrammarLaw Z s s' R) {a a' : Emission} (ha : R 0 0 a a') (negated : Bool)
    {ls ls' : List Literal} (hls : List.Forall₂ Z ls ls') :
    R 0 0 (InValues.emit s a negated ls) (InValues.emit s' a' negated ls') := by
  unfold InValues.emit
  rw [isEmpty_eq_of_forall₂ hls, law.capabilities, ← hls.length_eq]
  split
  · cases negated with
    | false => exact law.append ha (law.sql " IN (NULL)" 0 0 (by decide))
    | true => exact law.sql "1=1" 0 0 (by decide)
  · cases s.capabilities.maxInList with
    | none => exact law.single ha negated hls
    | some max =>
      -- Both lists have the same length, so both are split or neither is.
      show R 0 0 (ite _ _ _) (ite _ _ _)
      split
      · -- The parts correspond, and so do the notes about their number.
        have hparts := chunks_related max hls
        show R 0 0 (Emission.note (.splitInList _ _) ++ _) (Emission.note (.splitInList _ _) ++ _)
        rw [← hparts.length_eq]
        refine law.append (law.note _) (law.inParens ?_)
        refine law.join (by cases negated <;> decide) ?_
        rw [List.forall₂_map_left_iff, List.forall₂_map_right_iff]
        exact hparts.imp fun _ _ hpart => law.inside (law.single ha negated hpart)
      · exact law.single ha negated hls

/-- Tests in lists of expressions are related: both hold literals, or both are refused for one that
is none. -/
theorem valueList (law : GrammarLaw Z s s' R) {r r' : Rendered} (hr : r.Agree Z R r')
    (negated : Bool) {es es' : List Expr} (hes : List.Forall₂ (Expr.Agree Z) es es') :
    R 0 0 (emitInValues s r es negated) (emitInValues s' r' es' negated) := by
  unfold emitInValues
  obtain ⟨ls, ls', hls, hls', hz⟩ | ⟨e, e', he, hls, hls'⟩ := InValues.literals_agree hes
  · rw [hls, hls']
    exact law.inValues (law.operand hr _ _ _) negated hz
  · rw [hls, hls']
    exact law.failNotLiteral 0 0 e e' he

/-- Window clauses are related if their partitions and orderings are. -/
theorem windowClauses (law : GrammarLaw Z s s' R) {ps ps' os os' : List Emission}
    (hps : List.Forall₂ (R 0 0) ps ps') (hos : List.Forall₂ (R 0 0) os os') :
    R 0 0 (emitWindow ps os) (emitWindow ps' os') := by
  -- A blank stands between the clauses if both are there.
  have hblank : R 1 1 (if !ps.isEmpty && !os.isEmpty then .sql " " else .empty)
      (if !ps'.isEmpty && !os'.isEmpty then .sql " " else .empty) := by
    rw [isEmpty_eq_of_forall₂ hps, isEmpty_eq_of_forall₂ hos]
    split
    · exact law.sql " " 1 1 (by decide)
    · exact law.inside law.empty
  exact law.append (law.append (law.append (law.append (law.sql " OVER (" 0 1 (by decide))
    (law.clause (by decide) (by decide) hps)) hblank) (law.clause (by decide) (by decide) hos))
    (law.sql ")" 1 0 (by decide))

/-- An optional part after a word is there on both sides or on neither. -/
theorem after (law : GrammarLaw Z s s' R) {word : String} (hword : Fits word 0 0)
    {x x' : Option Emission} (h : Option.Rel (R 0 0) x x') :
    R 0 0 (SqlCompiler.after word x) (SqlCompiler.after word x') := by
  cases h with
  | none => exact law.empty
  | some h => exact law.append (law.sql word 0 0 hword) h

/-- The same direction is related to itself. -/
theorem direction (law : GrammarLaw Z s s' R) (d : Option SortDirection) :
    R 0 0 (emitDirection d) (emitDirection d) := by
  cases d with
  | none => exact law.empty
  | some d => exact law.sql _ 0 0 (by cases d <;> decide)

/-- Join conditions are related, or refused on both sides for a join that takes none. -/
theorem joinCondition (law : GrammarLaw Z s s' R) (kind : JoinKind) {x x' : Option Emission}
    (h : Option.Rel (R 0 0) x x') : R 0 0 (emitConstraint kind x) (emitConstraint kind x') := by
  cases h with
  | none => exact law.empty
  | some h =>
    show R 0 0 (ite _ _ _) (ite _ _ _)
    split
    · exact law.fail _ _ _
    · exact law.append (law.sql " ON " 0 0 (by decide)) h

end GrammarLaw

/-- Related emissions of agreeing expressions are related together with them. -/
theorem renderedList_agree {es es' : List Expr} {xs xs' : List Emission}
    (hes : List.Forall₂ (Expr.Agree Z) es es') (hxs : List.Forall₂ (R 0 0) xs xs') :
    List.Forall₂ (Rendered.Agree Z R) (renderedList es xs) (renderedList es' xs') := by
  unfold renderedList
  induction hes generalizing xs xs' with
  | nil => exact .nil
  | cons he hes ih =>
    cases hxs with
    | nil => exact .nil
    | cons hx hxs => exact .cons ⟨he, hx⟩ (ih hxs)

/-- A related emission of an agreeing option is related together with it. -/
theorem renderedOption_agree {e e' : Option Expr} {x x' : Option Emission}
    (he : Option.Rel (Expr.Agree Z) e e') (hx : Option.Rel (R 0 0) x x') :
    Option.Rel (Rendered.Agree Z R) (renderedOption e x) (renderedOption e' x') := by
  cases he with
  | none => exact .none
  | some he =>
    cases hx with
    | none => exact .none
    | some hx => exact .some ⟨he, hx⟩

/-- The projections of related cores are related one by one. -/
theorem flatMap_projections_agree {cs cs' : List CoreParts}
    (h : List.Forall₂ (CoreParts.Agree Z R) cs cs') :
    List.Forall₂ (R 0 0) (cs.flatMap (·.projections)) (cs'.flatMap (·.projections)) := by
  induction h with
  | nil => exact .nil
  | cons hc _ ih => exact List.rel_append hc.projections ih

/-- A query is emitted from related parts to related emissions. -/
theorem GrammarLaw.query (law : GrammarLaw Z s s' R) {q q' : Select}
    (hcores : List.Forall₂ (CoreParts.Agree Z R) (emitCores s q.cores) (emitCores s' q'.cores))
    (horders : List.Forall₂ (R 0 0) (emitOrders s q.orders) (emitOrders s' q'.orders))
    (hparts : (q.parts s).Agree Z R (q'.parts s')) (hempty : q'.orders.isEmpty = q.orders.isEmpty) :
    R 1 1 (q.emit s) (q'.emit s') := by
  cases hd : s.dialect with
  | generic =>
    rw [Select.emit_generic hd, Select.emit_generic (law.dialect.trans hd)]
    exact law.standard hparts
  | oracle =>
    rw [Select.emit_oracle hd, Select.emit_oracle (law.dialect.trans hd)]
    refine law.aliased hd hparts ?_ fun t t' ht => law.oracle hd ht
    -- With placeholders the probe is made of the parts themselves.
    intro hstyle
    have hstyle' : s'.paramStyle ≠ .inline := fun h => hstyle (law.inline_iff.mp h)
    unfold Select.probe
    rw [hempty, if_neg hstyle, if_neg hstyle']
    split
    · exact ⟨.nil, .nil⟩
    · exact ⟨flatMap_projections_agree hcores, horders⟩

mutual

/-- A law of the grammar holds between the emissions of agreeing expressions. -/
theorem Expr.emit_agree (law : GrammarLaw Z s s' R) :
    (e e' : Expr) → e.Agree Z e' → R 0 0 (e.emit s) (e'.emit s')
  | .column relation name, _, .column _ _ => law.append (law.qualifier relation) (law.ident name)
  | .star relation, _, .star _ => law.append (law.qualifier relation) (law.sql "*" 0 0 (by decide))
  | .literal _, _, .literal h => law.literal _ _ h
  | .param name _, _, .param _ h => law.param name _ _ h
  | .raw text, _, .raw _ => law.verbatim text
  | .binary a op b, _, .binary _ ha hb => by
    have hop : Fits (" " ++ op.text ++ " ") 0 0 := by cases op <;> decide
    exact law.append (law.append (law.operand ⟨ha, a.emit_agree law _ ha⟩ _ _ _)
      (law.sql _ 0 0 hop)) (law.operand ⟨hb, b.emit_agree law _ hb⟩ _ _ _)
  | .unary op a, _, .unary _ ha => by
    have hop : Fits op.text 0 0 := by cases op <;> decide
    exact law.append (law.sql _ 0 0 hop) (law.operand ⟨ha, a.emit_agree law _ ha⟩ _ _ _)
  | .isNull a negated, _, .isNull _ ha =>
    law.append (law.operand ⟨ha, a.emit_agree law _ ha⟩ _ _ _)
      (law.negatable negated (by decide) (by decide))
  | .isDistinctFrom a b negated, _, .isDistinctFrom _ ha hb =>
    law.distinctFrom ⟨ha, a.emit_agree law _ ha⟩ ⟨hb, b.emit_agree law _ hb⟩ negated
  | .between a b c negated, _, .between _ ha hb hc =>
    law.append (law.append (law.append (law.append
      (law.operand ⟨ha, a.emit_agree law _ ha⟩ _ _ _)
      (law.negatable negated (by decide) (by decide)))
      (law.operand ⟨hb, b.emit_agree law _ hb⟩ _ _ _)) (law.sql " AND " 0 0 (by decide)))
      (law.operand ⟨hc, c.emit_agree law _ hc⟩ _ _ _)
  | .inList a es negated, _, .inList _ ha hes => by
    simp only [Expr.emit, isEmpty_eq_of_forall₂ hes]
    split
    · exact law.negatable negated (by decide) (by decide)
    · exact law.append (law.append (law.append (law.operand ⟨ha, a.emit_agree law _ ha⟩ _ _ _)
        (law.negatable negated (by decide) (by decide)))
        (law.join (by decide) (law.liftEach (emitEach_agree law es _ hes))))
        (law.sql ")" 1 0 (by decide))
  -- Lists of literals go through the check that they hold literals.
  | .inValues a es negated, _, .inValues _ ha hes =>
    law.valueList ⟨ha, a.emit_agree law _ ha⟩ negated hes
  | .inSubquery a q negated, _, .inSubquery _ ha hq =>
    law.append (law.append (law.append (law.operand ⟨ha, a.emit_agree law _ ha⟩ _ _ _)
      (law.negatable negated (by decide) (by decide))) (q.emit_agree law _ hq))
      (law.sql ")" 1 0 (by decide))
  | .exists q negated, _, .existsIn _ hq =>
    law.append (law.append (law.negatable negated (by decide) (by decide)) (q.emit_agree law _ hq))
      (law.sql ")" 1 0 (by decide))
  | .function name es distinct, _, .function _ _ hes => by
    have hopen : Fits (if distinct then "(DISTINCT " else "(") 0 1 := by cases distinct <;> decide
    exact law.append (law.append (law.append (law.verbatim name) (law.sql _ 0 1 hopen))
      (law.join (by decide) (law.liftEach (emitEach_agree law es _ hes))))
      (law.sql ")" 1 0 (by decide))
  | .window a es os, _, .window ha hes hos =>
    law.append (a.emit_agree law _ ha)
      (law.windowClauses (emitEach_agree law es _ hes) (emitOrders_agree law os _ hos))
  | .case a bs b, _, .case ha hbs hb => by
    simp only [Expr.emit, isEmpty_eq_of_forall₂ hbs]
    split
    · exact law.fail _ _ _
    · exact law.append (law.append (law.append (law.append (law.sql "CASE" 0 0 (by decide))
        (law.after (by decide) (emitOption_agree law a _ ha))) (emitBranches_agree law bs _ hbs))
        (law.after (by decide) (emitOption_agree law b _ hb))) (law.sql " END" 0 0 (by decide))
  | .cast a dataType, _, .cast _ ha =>
    law.append (law.append (law.append (law.append (law.sql "CAST(" 0 1 (by decide))
      (law.inside (a.emit_agree law _ ha))) (law.sql " AS " 1 1 (by decide)))
      (law.inside (law.verbatim dataType))) (law.sql ")" 1 0 (by decide))
  | .grouping a, _, .grouping ha => law.inParens (law.inside (a.emit_agree law _ ha))
  | .named a name, _, .named _ ha =>
    law.append (law.append (a.emit_agree law _ ha) (law.sql " AS " 0 0 (by decide)))
      (law.ident name)
  | .subquery q, _, .subquery hq => law.inParens (q.emit_agree law _ hq)
termination_by structural e => e

/-- A law of the grammar holds between the emissions of agreeing expressions, one by one. -/
theorem emitEach_agree (law : GrammarLaw Z s s' R) : (es es' : List Expr) →
    List.Forall₂ (Expr.Agree Z) es es' → List.Forall₂ (R 0 0) (emitEach s es) (emitEach s' es')
  | [], _, .nil => .nil
  | e :: es, _, .cons he hes => .cons (e.emit_agree law _ he) (emitEach_agree law es _ hes)
termination_by structural es => es

/-- A law of the grammar holds between the emissions of agreeing options. -/
theorem emitOption_agree (law : GrammarLaw Z s s' R) : (e e' : Option Expr) →
    Option.Rel (Expr.Agree Z) e e' → Option.Rel (R 0 0) (emitOption s e) (emitOption s' e')
  | none, _, .none => .none
  | some e, _, .some he => .some (e.emit_agree law _ he)
termination_by structural e => e

/-- A law of the grammar holds between the emissions of agreeing branches. -/
theorem emitBranches_agree (law : GrammarLaw Z s s' R) : (bs bs' : List Branch) →
    List.Forall₂ (Branch.Agree Z) bs bs' → R 0 0 (emitBranches s bs) (emitBranches s' bs')
  | [], _, .nil => law.empty
  | ⟨a, b⟩ :: bs, _, .cons (.mk ha hb) hbs =>
    law.append (law.append (law.append (law.append (law.sql " WHEN " 0 0 (by decide))
      (a.emit_agree law _ ha)) (law.sql " THEN " 0 0 (by decide))) (b.emit_agree law _ hb))
      (emitBranches_agree law bs _ hbs)
termination_by structural bs => bs

/-- A law of the grammar holds between the emissions of agreeing ordering terms, one by one. -/
theorem emitOrders_agree (law : GrammarLaw Z s s' R) : (os os' : List OrderTerm) →
    List.Forall₂ (OrderTerm.Agree Z) os os' →
    List.Forall₂ (R 0 0) (emitOrders s os) (emitOrders s' os')
  | [], _, .nil => .nil
  | ⟨a, d⟩ :: os, _, .cons (.mk _ ha) hos =>
    .cons (law.append (a.emit_agree law _ ha) (law.direction d)) (emitOrders_agree law os _ hos)
termination_by structural os => os

/-- A law of the grammar holds between the emissions of agreeing queries. -/
theorem Select.emit_agree (law : GrammarLaw Z s s' R) :
    (q q' : Select) → q.Agree Z q' → R 1 1 (q.emit s) (q'.emit s')
  | ⟨cs, os, l, o, lock⟩, _, .mk _ hcs hos hl ho => by
    have hcores := emitCores_agree law cs _ hcs
    have horders := emitOrders_agree law os _ hos
    exact law.query hcores horders
      { cores := hcores, orders := horders
        limit := renderedOption_agree hl (emitOption_agree law l _ hl)
        offset := renderedOption_agree ho (emitOption_agree law o _ ho), lock := rfl }
      (isEmpty_eq_of_forall₂ hos)
termination_by structural q => q

/-- Agreeing cores have related parts. -/
theorem emitCores_agree (law : GrammarLaw Z s s' R) : (cs cs' : List Core) →
    List.Forall₂ (Core.Agree Z) cs cs' →
    List.Forall₂ (CoreParts.Agree Z R) (emitCores s cs) (emitCores s' cs')
  | [], _, .nil => .nil
  | ⟨setOp, distinct, ps, j, ws, gs, hs⟩ :: cs, _, .cons (.mk _ _ hps hj hws hgs hhs) hcs =>
    .cons
      { setOp := rfl, distinct := rfl
        projections := emitEach_agree law ps _ hps
        source := emitSource_agree law j _ hj
        wheres := renderedList_agree hws (emitEach_agree law ws _ hws)
        groups := emitEach_agree law gs _ hgs
        havings := renderedList_agree hhs (emitEach_agree law hs _ hhs) }
      (emitCores_agree law cs _ hcs)
termination_by structural cs => cs

/-- A law of the grammar holds between the emissions of agreeing row sources. -/
theorem emitSource_agree (law : GrammarLaw Z s s' R) : (j j' : Option JoinSource) →
    Option.Rel (JoinSource.Agree Z) j j' → Option.Rel (R 0 0) (emitSource s j) (emitSource s' j')
  | none, _, .none => .none
  | some ⟨t, js⟩, _, .some (.mk ht hjs) =>
    .some (law.append (t.emit_agree law _ ht) (emitJoins_agree law js _ hjs))
termination_by structural j => j

/-- A law of the grammar holds between the emissions of agreeing joins. -/
theorem emitJoins_agree (law : GrammarLaw Z s s' R) : (js js' : List Join) →
    List.Forall₂ (Join.Agree Z) js js' → R 0 0 (emitJoins s js) (emitJoins s' js')
  | [], _, .nil => law.empty
  | ⟨kind, t, c⟩ :: js, _, .cons (.mk _ ht hc) hjs => by
    have hkind : Fits (" " ++ kind.text ++ " ") 0 0 := by cases kind <;> decide
    exact law.append (law.append (law.append (law.sql _ 0 0 hkind) (t.emit_agree law _ ht))
      (law.joinCondition kind (emitOption_agree law c _ hc))) (emitJoins_agree law js _ hjs)
termination_by structural js => js

/-- A law of the grammar holds between the emissions of agreeing tables and subqueries. -/
theorem TableFactor.emit_agree (law : GrammarLaw Z s s' R) :
    (t t' : TableFactor) → t.Agree Z t' → R 0 0 (t.emit s) (t'.emit s')
  | .table t, _, .table _ => law.table t
  | .derived q name, _, .derived _ hq =>
    law.append (law.append (law.inParens (q.emit_agree law _ hq)) (law.sql " " 0 0 (by decide)))
      (law.ident name)
termination_by structural t => t

end

/-! ## Statements that change rows -/

/-- Agreeing choices of rows both need a subquery, or neither does. -/
theorem RowChoice.needsSubselect_eq {r r' : RowChoice} (h : r.Agree Z r') :
    r'.needsSubselect = r.needsSubselect := by
  unfold needsSubselect
  rw [isSome_eq_of_rel h.limit, isSome_eq_of_rel h.offset, isEmpty_eq_of_forall₂ h.orders,
    isEmpty_eq_of_forall₂ h.groups, isEmpty_eq_of_forall₂ h.havings]

/-- The queries for the keys agree. -/
theorem RowChoice.subselect_agree {r r' : RowChoice} (h : r.Agree Z r') (relation : TableRef)
    {key key' : Expr} (hkey : key.Agree Z key') :
    (r.subselect relation key).Agree Z (r'.subselect relation key') :=
  .mk _ (.cons (.mk _ _ (.cons hkey .nil) (.some (.mk (.table relation) .nil)) h.wheres h.groups
    h.havings) .nil) h.orders h.limit h.offset

/-- Without its ordering a choice of rows agrees as before. -/
theorem RowChoice.Agree.unordered {r r' : RowChoice} (h : r.Agree Z r') :
    RowChoice.Agree Z { r with orders := [] } { r' with orders := [] } :=
  { h with orders := .nil }

namespace GrammarLaw

/-- Choices of rows without a key are related, or both are refused for their grouping. -/
theorem plainRows (law : GrammarLaw Z s s' R) {r r' : RowChoice} (h : r.Agree Z r') :
    R 1 1 (r.emitPlain s) (r'.emitPlain s') := by
  unfold RowChoice.emitPlain
  rw [isEmpty_eq_of_forall₂ h.groups, isEmpty_eq_of_forall₂ h.havings]
  split
  · exact law.fail _ _ _
  · have hwheres := renderedList_agree h.wheres (emitEach_agree law _ _ h.wheres)
    have hlimit := renderedOption_agree h.limit (emitOption_agree law _ _ h.limit)
    have hoffset := renderedOption_agree h.offset (emitOption_agree law _ _ h.offset)
    exact law.append (law.append (law.conditions (by decide) hwheres)
      (law.clause (by decide) (by decide) (emitOrders_agree law _ _ h.orders)))
      (law.bounds hlimit hoffset)

/-- Agreeing choices of rows are related. -/
theorem rows (law : GrammarLaw Z s s' R) {r r' : RowChoice} (h : r.Agree Z r')
    (relation : TableRef) : R 1 1 (r.emit s relation) (r'.emit s' relation) := by
  have hplain := law.plainRows h
  have hkey := h.key
  unfold RowChoice.emit
  rw [RowChoice.needsSubselect_eq h]
  cases hk : r.key with
  | none =>
    -- The keys agree, so there are two of them or none.
    rw [hk] at hkey
    cases hk' : r'.key with
    | none => exact hplain
    | some key' =>
      rw [hk'] at hkey
      cases hkey
  | some key =>
    rw [hk] at hkey
    cases hk' : r'.key with
    | none =>
      rw [hk'] at hkey
      cases hkey
    | some key' =>
      rw [hk'] at hkey
      cases hkey with
      | some hkey =>
        show R 1 1 (ite _ _ _) (ite _ _ _)
        split
        · -- The query stands one parenthesis deeper than the statement.
          have hquery := Select.emit_agree law _ _ (RowChoice.subselect_agree h relation hkey)
          exact law.append (law.append (law.append (law.append (law.sql " WHERE " 1 1 (by decide))
            (law.inside (key.emit_agree law _ hkey))) (law.sql " IN (" 1 2 (by decide)))
            (law.lift hquery)) (law.sql ")" 2 1 (by decide))
        · exact hplain

/-- What is made of the admitted choice of rows is related, if it is for agreeing choices. -/
theorem admitted (law : GrammarLaw Z s s' R) {r r' : RowChoice} (h : r.Agree Z r')
    (change : ChangeKind) {f f' : RowChoice → Emission}
    (hf : ∀ t t', t.Agree Z t' → R 1 1 (f t) (f' t')) :
    R 1 1 ((r.admitted s change).bind f) ((r'.admitted s' change).bind f') := by
  unfold RowChoice.admitted
  rw [law.dialect, isEmpty_eq_of_forall₂ h.orders, isSome_eq_of_rel h.limit,
    isSome_eq_of_rel h.offset, ← Option.not_isSome, ← Option.not_isSome, isSome_eq_of_rel h.key]
  cases s.dialect with
  | generic => exact hf r r' h
  | oracle =>
    -- What is refused, dropped and kept is decided by what is present, which is the same for both.
    show R 1 1 ((ite _ _ _ : Traced RowChoice).bind f) ((ite _ _ _ : Traced RowChoice).bind f')
    split
    · exact law.fail 1 1 _
    · split
      · exact law.fail 1 1 _
      · split
        · rw [Traced.ok_bind, Traced.ok_bind]
          exact hf r r' h
        · rw [Traced.bind_assoc, Traced.bind_assoc]
          simp only [Traced.ok_bind, Traced.note_bind]
          exact law.append (law.inside (law.note _)) (hf _ _ h.unordered)

/-- Agreeing assignments are related. -/
theorem assignments (law : GrammarLaw Z s s' R) {as as' : List Assignment}
    (h : List.Forall₂ (Assignment.Agree Z) as as') :
    R 1 1 (.join ", " (as.map (·.emit s))) (.join ", " (as'.map (·.emit s'))) := by
  refine law.join (by decide) ?_
  rw [List.forall₂_map_left_iff, List.forall₂_map_right_iff]
  refine h.imp fun a a' ha => law.inside ?_
  unfold Assignment.emit
  rw [ha.column]
  exact law.append (law.append (law.ident a.column) (law.sql " = " 0 0 (by decide)))
    (Expr.emit_agree law _ _ ha.value)

end GrammarLaw

/-- A law of the grammar holds between the emissions of agreeing statements. -/
theorem Statement.emit_agree (law : GrammarLaw Z s s' R) {st st' : Statement}
    (h : st.Agree Z st') : R 1 1 (st.emit s) (st'.emit s') := by
  cases h with
  | select hq => exact Select.emit_agree law _ _ hq
  | update relation has hr =>
    refine law.admitted hr .update fun t t' ht => ?_
    simp only [isEmpty_eq_of_forall₂ has]
    split
    · exact law.fail _ _ _
    · exact law.append (law.append (law.append (law.append (law.sql "UPDATE " 1 1 (by decide))
        (law.inside (law.table relation))) (law.sql " SET " 1 1 (by decide)))
        (law.assignments has)) (law.rows ht relation)
  | delete relation hr =>
    refine law.admitted hr .delete fun t t' ht => ?_
    exact law.append (law.append (law.sql "DELETE FROM " 1 1 (by decide))
      (law.inside (law.table relation))) (law.rows ht relation)

end SqlCompiler
