import SqlCompiler.Proofs.Agreement.Placeholders
import SqlCompiler.Proofs.Nodes.Settings
import SqlCompiler.Proofs.Nodes.Success

/-!
# What the dialects share

A statement that needs nothing of what Oracle writes in its own way is compiled for Oracle exactly
as for generic SQL with the same settings (`compile_forOracle`). The two go different ways to it:
for Oracle the projections of an ordered query are written once more, to find out whether it is
ordered by aliases, so both may fail with different faults. What they have in common is what they
yield (`SameYield`).
-/

namespace SqlCompiler

/-- The same settings for Oracle. -/
def Settings.forOracle (s : Settings) : Settings :=
  { s with dialect := .oracle }

/-! ## Emissions that yield the same -/

/-- Both emissions yield the same pieces, or both fail. -/
def SameYield (a b : Emission) : Prop :=
  ∀ ps, a.outcome = .ok ps ↔ b.outcome = .ok ps

namespace SameYield

/-- An emission yields the same as itself. -/
theorem refl (a : Emission) : SameYield a a :=
  fun _ => Iff.rfl

/-- Emissions one after the other yield the same if each of them does. -/
theorem append {a a' b b' : Emission} (ha : SameYield a a') (hb : SameYield b b') :
    SameYield (a ++ b) (a' ++ b') := by
  intro ps
  constructor
  · intro h
    obtain ⟨p, q, hp, hq, rfl⟩ := Emission.outcome_append_ok h
    exact Emission.outcome_append_of_ok ((ha p).mp hp) ((hb q).mp hq)
  · intro h
    obtain ⟨p, q, hp, hq, rfl⟩ := Emission.outcome_append_ok h
    exact Emission.outcome_append_of_ok ((ha p).mpr hp) ((hb q).mpr hq)

/-- Failed emissions yield the same, which is nothing, whatever their faults. -/
theorem fail (f f' : Fault) : SameYield (.fail f) (.fail f') := by
  intro ps
  constructor <;> (intro h; cases h)

/-- Yielding the same is a law of the grammar. -/
theorem grammarLaw {s : Settings} (hd : s.dialect = .generic) :
    GrammarLaw Eq s s fun _ _ => SameYield where
  dialect := rfl
  capabilities := rfl
  inline_iff := Iff.rfl
  strength := by
    rintro l _ rfl
    rfl
  eq_of_oracle _ _ _ h := h
  empty := refl _
  note _ := refl _
  sql _ _ _ _ := refl _
  verbatim _ := refl _
  ident _ := refl _
  literal := by
    rintro l _ rfl
    exact refl _
  param := by
    intro name v v' h
    rw [eq_of_optionRel (fun _ _ => id) h]
    exact refl _
  fail _ _ f := refl _
  failNotLiteral _ _ _ _ _ := fail _ _
  append := append
  lift h := h
  aliased horacle := by
    rw [hd] at horacle
    cases horacle

end SameYield

/-! ## Expressions -/

/-- An expression that both dialects write alike. -/
def Expr.isShared : Expr → Bool
  | .isDistinctFrom _ _ _ => false
  | _ => true

/-- Such an expression yields the same for both dialects if what it is written from does. -/
theorem Expr.sameYield_emit {s : Settings} (hd : s.dialect = .generic) {e : Expr}
    (he : e.isShared = true) (h : ∀ c ∈ e.children, SameYield (c.emit s) (c.emit s.forOracle)) :
    SameYield (e.emit s) (e.emit s.forOracle) := by
  have akin : s.Akin s.forOracle := ⟨rfl, rfl⟩
  refine Expr.emit_related SameYield.refl (SameYield.grammarLaw hd) akin ?_ h
  cases e with
  | isDistinctFrom left right negated => cases he
  | param name value => exact Iff.rfl
  | _ => trivial

/-! ## Queries -/

/-- A set operator that both dialects write alike. -/
def SetOperator.isShared (op : SetOperator) : Bool :=
  op.kind != .except && !(op.kind == .intersect && op.all)

/-- An expression is written with placeholders to a text that holds the mark of an ordering term. -/
def Expr.isMarked (s : Settings) (e : Expr) : Bool :=
  match (e.emit (s.withStyle .questionMark)).outcome with
  | .ok ps => Piece.isMarked ps
  | .error _ => false

/-- An expression is marked if its pieces with placeholders are. -/
theorem Expr.isMarked_of_ok {s : Settings} {e : Expr} {ps : List Piece}
    (h : (e.emit (s.withStyle .questionMark)).outcome = .ok ps) :
    e.isMarked s = Piece.isMarked ps := by
  simp only [isMarked, h]

/-- A query that both dialects write alike: it is combined by operators that both have, bounded by
clauses that both have, and not ordered by aliases. -/
def Select.isShared (s : Settings) (q : Select) : Bool :=
  q.cores.all (fun c => c.setOp.all SetOperator.isShared)
    && (s.capabilities.pagination = .limitOffset || (q.limit.isNone && q.offset.isNone))
    && (q.orders.isEmpty || q.cores.all fun c => c.projections.all fun e => !e.isMarked s)

/-- A node that both dialects write alike. -/
def Node.isShared (s : Settings) : Node → Bool
  | .expr e => e.isShared
  | .query q => q.isShared s

section Queries

variable {s : Settings}

/-- A shared set operator is written alike for both dialects. -/
theorem SetOperator.emit_forOracle (hd : s.dialect = .generic) {op : SetOperator}
    (h : op.isShared = true) : op.emit s.forOracle = op.emit s := by
  obtain ⟨kind, all⟩ := op
  cases kind <;> cases all <;> simp_all [isShared, emit, Settings.forOracle]

/-- The cores after the first are written alike if their operators are shared. -/
theorem laterCores_forOracle (hd : s.dialect = .generic) (index : Nat) {cs : List CoreParts}
    (h : ∀ c ∈ cs, c.setOp.all SetOperator.isShared = true) :
    laterCores s.forOracle index cs = laterCores s index cs := by
  induction cs generalizing index with
  | nil => rfl
  | cons c cs ih =>
    obtain ⟨hc, hcs⟩ := List.forall_mem_cons.mp h
    rw [laterCores, laterCores, ih (index + 1) hcs]
    cases hop : c.setOp with
    | none => rfl
    | some op =>
      rw [hop, Option.all_some] at hc
      simp only [SetOperator.emit_forOracle hd hc]

/-- The standard form is the same for both dialects, with shared operators and bounds. -/
theorem QueryParts.standard_forOracle (hd : s.dialect = .generic) {q : QueryParts}
    (hops : ∀ c ∈ q.cores, c.setOp.all SetOperator.isShared = true)
    (hbounds : s.capabilities.pagination = .limitOffset ∨ q.limit = none ∧ q.offset = none) :
    q.standard s.forOracle = q.standard s := by
  have hcores : emitCoreParts s.forOracle q.cores = emitCoreParts s q.cores := by
    cases hcs : q.cores with
    | nil => rfl
    | cons c cs =>
      rw [hcs] at hops
      rw [emitCoreParts, emitCoreParts,
        laterCores_forOracle hd 1 fun c hc => hops c (List.mem_cons_of_mem _ hc)]
  have hbound : emitBounds s.forOracle q.limit q.offset = emitBounds s q.limit q.offset := by
    have hcapabilities : s.forOracle.capabilities = s.capabilities := rfl
    -- Either the bounds are written as in generic SQL, or there are none.
    obtain hp | ⟨hl, ho⟩ := hbounds
    · cases q.limit <;> cases q.offset <;>
        simp [emitBounds, emitBound?, emitBound, hcapabilities, hp]
    · rw [hl, ho]
      rfl
  rw [standard, standard, hcores, hbound]

end Queries

/-- What is written with literals for parameters is written with placeholders, too. -/
theorem Node.succeeds_withStyle {s : Settings} {style : ParamStyle} (hd : s.dialect = .generic)
    (hmax : s.capabilities.maxInList ≠ some 0) (hstyle : style ≠ .inline) {m : Node}
    (h : (m.emit s).Succeeds) : (m.emit (s.withStyle style)).Succeeds := by
  have hd' : (s.withStyle style).dialect = .generic := hd
  have hmax' : (s.withStyle style).capabilities.maxInList ≠ some 0 := hmax
  rw [Node.iff_forall_visits (Node.succeeds_emit_iff hd hmax)] at h
  rw [Node.iff_forall_visits (Node.succeeds_emit_iff hd' hmax')]
  intro n hn
  have hwell := h n hn
  cases n with
  | query q => exact { hwell with }
  | expr e =>
    -- Only a parameter can be refused for its style, and only inline.
    cases e with
    | param name value => exact fun hinline => absurd hinline hstyle
    | _ => exact hwell

section Selects

variable {s : Settings} {q : Select}

/-- A query is shared by its operators, its bounds, and its projections if it is ordered. -/
theorem Select.isShared_iff : q.isShared s = true ↔
    (∀ c ∈ q.cores, c.setOp.all SetOperator.isShared = true) ∧
      (s.capabilities.pagination = .limitOffset ∨ q.limit = none ∧ q.offset = none) ∧
      (q.orders = [] ∨ ∀ e ∈ q.cores.flatMap (·.projections), e.isMarked s = false) := by
  simp only [isShared, Bool.and_eq_true, Bool.or_eq_true, List.all_eq_true, decide_eq_true_eq,
    Option.isNone_iff_eq_none, List.isEmpty_iff, Bool.not_eq_true', and_assoc,
    List.forall_mem_flatMap]

/-- The parts of a query are put together alike. -/
theorem Select.sameYield_standard (hd : s.dialect = .generic) (hq : q.isShared s = true)
    (h : ∀ c ∈ q.children, SameYield (c.emit s) (c.emit s.forOracle)) :
    SameYield ((q.parts s).standard s) ((q.parts s.forOracle).oracle s.forOracle) := by
  obtain ⟨hops, hpages, -⟩ := isShared_iff.mp hq
  have hops' : ∀ c ∈ (q.parts s.forOracle).cores, c.setOp.all SetOperator.isShared = true := by
    rw [parts_eq]
    exact List.forall_mem_map.mpr hops
  have hpages' : s.capabilities.pagination = .limitOffset ∨
      (q.parts s.forOracle).limit = none ∧ (q.parts s.forOracle).offset = none := by
    rw [parts_eq]
    exact hpages.imp_right fun hnone => by simp [hnone]
  have horacle : (q.parts s.forOracle).oracle s.forOracle
      = (q.parts s.forOracle).standard s.forOracle :=
    QueryParts.oracle_eq_standard hpages'
  rw [horacle, QueryParts.standard_forOracle hd hops' hpages']
  have law := SameYield.grammarLaw hd
  exact law.standard (parts_related SameYield.refl law h)

/-- The projections of a query are among its nodes. -/
theorem Select.mem_children_of_projection {e : Expr} (he : e ∈ q.cores.flatMap (·.projections)) :
    .expr e ∈ q.children := by
  obtain ⟨c, hc, he⟩ := List.mem_flatMap.mp he
  simp only [children, List.mem_append, List.mem_flatMap]
  refine .inl (.inl (.inl ⟨c, hc, ?_⟩))
  simp [Core.children, he]

section Marks

variable (hq : q.isShared s = true)
  (hmarks : ∀ c ∈ q.children, SameYield (c.emit (s.withStyle .questionMark))
    (c.emit (s.withStyle .questionMark).forOracle))

include hq hmarks

/-- Oracle keeps the ordering of a query that both dialects write alike. -/
theorem Select.orderedParts_eq {t : QueryParts}
    (h : (q.orderedParts s.forOracle).outcome = .ok t) : t = q.parts s.forOracle := by
  obtain ⟨-, -, hunmarked⟩ := isShared_iff.mp hq
  by_cases hempty : q.orders = []
  · rw [orderedParts_of_orders_nil hempty] at h
    exact (Except.ok.inj h).symm
  · rw [orderedParts, probe_eq _ hempty] at h
    obtain ⟨rfl, -⟩ | ⟨terms, hmarked, -, -⟩ := QueryParts.orderedByAlias_inversion h
    · rfl
    · -- A marked projection would be marked for generic SQL, too.
      obtain ⟨_, hmem, ps, hps, hmark⟩ := exists_marked hmarked
      obtain ⟨e, he, rfl⟩ := List.mem_map.mp hmem
      have hps : (e.emit (s.withStyle .questionMark)).outcome = .ok ps :=
        (hmarks _ (mem_children_of_projection he) ps).mpr hps
      have hnot := hunmarked.resolve_left hempty e he
      rw [Expr.isMarked_of_ok hps, hmark] at hnot
      cases hnot

/-- If a query is written for generic SQL, Oracle finds none of its projections marked. -/
theorem Select.orderedParts_of_succeeds (hd : s.dialect = .generic)
    (hmax : s.capabilities.maxInList ≠ some 0) (h : (q.emit s).Succeeds) :
    (q.orderedParts s.forOracle).outcome = .ok (q.parts s.forOracle) := by
  obtain ⟨-, -, hunmarked⟩ := isShared_iff.mp hq
  -- Without an ordering there is nothing to replace.
  by_cases hempty : q.orders = []
  · rw [orderedParts_of_orders_nil hempty]
    rfl
  · apply QueryParts.orderedByAlias_of_unmarked
    rw [probe_eq _ hempty]
    refine anyMarked_eq_false (List.forall_mem_map.mpr fun e he => ?_)
    have hchild := mem_children_of_projection he
    have hsucceeds : ((Node.expr e).emit (s.withStyle .questionMark)).Succeeds :=
      Node.succeeds_withStyle hd hmax (by decide)
        (((q.succeeds_emit_iff s hd).mp h).2 _ hchild)
    obtain ⟨ps, hps⟩ := hsucceeds
    rw [Node.emit_expr] at hps
    refine ⟨ps, (hmarks _ hchild ps).mp hps, ?_⟩
    rw [← Expr.isMarked_of_ok hps]
    exact hunmarked.resolve_left hempty e he

end Marks

/-- A query yields the same for both dialects if what it is written from does, with placeholders and
without. -/
theorem Select.sameYield_emit (hd : s.dialect = .generic)
    (hmax : s.capabilities.maxInList ≠ some 0) (hq : q.isShared s = true)
    (h : ∀ c ∈ q.children, SameYield (c.emit s) (c.emit s.forOracle))
    (hmarks : ∀ c ∈ q.children, SameYield (c.emit (s.withStyle .questionMark))
      (c.emit (s.withStyle .questionMark).forOracle)) :
    SameYield (q.emit s) (q.emit s.forOracle) := by
  have hstandard := sameYield_standard hd hq h
  have hordered := orderedParts_of_succeeds hq hmarks hd hmax
  have horacle : s.forOracle.dialect = .oracle := rfl
  rw [emit_oracle horacle]
  rw [emit_generic hd] at hordered ⊢
  intro ps
  constructor
  · -- A query that succeeds is not ordered by aliases, so both are in standard form.
    intro hps
    rw [Traced.outcome_bind_of_ok (hordered ⟨ps, hps⟩)]
    exact (hstandard ps).mp hps
  · intro hps
    obtain ⟨t, ht, hps⟩ := Traced.outcome_bind_ok hps
    obtain rfl := orderedParts_eq hq hmarks ht
    exact (hstandard ps).mpr hps

end Selects

/-- A node yields the same for both dialects, in every style, if all that it visits is written
alike. -/
theorem Node.sameYield_emit {s : Settings} (hd : s.dialect = .generic)
    (hmax : s.capabilities.maxInList ≠ some 0) (m : Node)
    (hshared : ∀ n, m.Visits n → n.isShared s = true) (style : ParamStyle) :
    SameYield (m.emit (s.withStyle style)) (m.emit (s.withStyle style).forOracle) := by
  -- For all styles at once: a query writes its projections with placeholders, too.
  induction m using Node.induction generalizing style with
  | step m ih =>
    have hchildren : ∀ c ∈ m.children, ∀ style,
        SameYield (c.emit (s.withStyle style)) (c.emit (s.withStyle style).forOracle) :=
      fun c hc => ih c hc fun n hn => hshared n (.head hc hn)
    have hself := hshared m .refl
    cases m with
    | expr e =>
      exact Expr.sameYield_emit (s := s.withStyle style) hd hself
        fun c hc => hchildren c hc style
    | query q =>
      exact Select.sameYield_emit (s := s.withStyle style) hd hmax hself
        (fun c hc => hchildren c hc style) fun c hc => hchildren c hc .questionMark

/-! ## Statements -/

/-- A choice of rows that has neither an ordering nor row bounds. -/
def RowChoice.isUnbounded (r : RowChoice) : Bool :=
  r.orders.isEmpty && r.limit.isNone && r.offset.isNone

/-- A statement that both dialects write alike, if they do so with its nodes. -/
def Statement.isShared : Statement → Bool
  | .select _ => true
  | .update u => u.rows.isUnbounded
  | .delete d => d.rows.isUnbounded

section Statements

variable {s : Settings}

/-- A choice of rows is unbounded without ordering, limit and offset. -/
theorem RowChoice.isUnbounded_iff {r : RowChoice} :
    r.isUnbounded = true ↔ r.orders = [] ∧ r.limit = none ∧ r.offset = none := by
  simp [isUnbounded, and_assoc]

/-- Oracle admits a choice of rows without an ordering and row bounds as it is. -/
theorem RowChoice.admitted_forOracle {r : RowChoice} (h : r.isUnbounded = true)
    (change : ChangeKind) : r.admitted s.forOracle change = .ok r := by
  obtain ⟨horders, hlimit, hoffset⟩ := isUnbounded_iff.mp h
  simp [admitted, Settings.forOracle, horders, hlimit, hoffset]

/-- Rows are chosen alike if what the choice is written from is. -/
theorem RowChoice.sameYield_emit (hd : s.dialect = .generic)
    (hmax : s.capabilities.maxInList ≠ some 0) {r : RowChoice} (hr : r.isUnbounded = true)
    (h : ∀ c ∈ r.children, ∀ style,
      SameYield (c.emit (s.withStyle style)) (c.emit (s.withStyle style).forOracle))
    (relation : TableRef) :
    SameYield (r.emit s relation) (r.emit s.forOracle relation) := by
  obtain ⟨horders, hlimit, hoffset⟩ := isUnbounded_iff.mp hr
  -- The settings are those with their own style.
  have hown : ∀ c ∈ r.children, SameYield (c.emit s) (c.emit s.forOracle) :=
    fun c hc => h c hc s.paramStyle
  have hplain : SameYield (r.emitPlain s) (r.emitPlain s.forOracle) := by
    unfold emitPlain
    -- Groups are refused for both dialects.
    split
    · exact .refl _
    · rw [renderedList_eq_map, renderedList_eq_map, horders, hlimit, hoffset]
      refine .append (.append ((SameYield.grammarLaw hd).conditions (by decide)
        (conditions_related fun e he => hown (.expr e) ?_)) (.refl _)) (.refl _)
      simp [children, he]
  unfold emit
  split
  · next key hkey =>
    split
    · next hsub =>
      have hquery : SameYield ((r.subselect relation key).emit s)
          ((r.subselect relation key).emit s.forOracle) := by
        have hmem := mem_children_subselect hkey hsub relation
        refine Select.sameYield_emit hd hmax ?_ (fun c hc => hown c ((hmem c).mp hc))
          fun c hc => h c ((hmem c).mp hc) .questionMark
        simp [Select.isShared_iff, subselect, Core.empty, horders, hlimit, hoffset]
      have hkeyed := hown (.expr key) (by simp [children, hsub, hkey])
      exact .append (.append (.append (.append (.refl _) hkeyed) (.refl _)) hquery) (.refl _)
    · exact hplain
  · exact hplain

/-- A statement yields the same for both dialects if it is written alike and all its nodes are. -/
theorem Statement.sameYield_emit (hd : s.dialect = .generic)
    (hmax : s.capabilities.maxInList ≠ some 0) {st : Statement} (hst : st.isShared = true)
    (hshared : ∀ n, st.Visits n → n.isShared s = true) :
    SameYield (st.emit s) (st.emit s.forOracle) := by
  have h : ∀ c ∈ st.children, ∀ style,
      SameYield (c.emit (s.withStyle style)) (c.emit (s.withStyle style).forOracle) :=
    fun c hc => Node.sameYield_emit hd hmax c fun n hn => hshared n ⟨c, hc, hn⟩
  cases st with
  | select q => exact h (.query q) (by simp [children]) s.paramStyle
  | update u =>
    simp only [children, List.forall_mem_append, List.forall_mem_map] at h
    obtain ⟨hvalues, hrows⟩ := h
    simp only [Statement.emit, Update.emit, RowChoice.admitted_generic hd,
      RowChoice.admitted_forOracle hst, Traced.ok_bind]
    -- Without assignments both are refused.
    split
    · exact .refl _
    · refine .append (.append (.append (.append (.refl _) (.refl _)) (.refl _))
        ((SameYield.grammarLaw hd).join (by decide) ?_))
        (RowChoice.sameYield_emit hd hmax hst hrows _)
      rw [List.forall₂_map_left_iff, List.forall₂_map_right_iff]
      exact List.forall₂_same.mpr fun a ha =>
        .append (.append (.refl _) (.refl _)) (hvalues a ha s.paramStyle)
  | delete d =>
    simp only [Statement.emit, Delete.emit, RowChoice.admitted_generic hd,
      RowChoice.admitted_forOracle hst, Traced.ok_bind]
    exact .append (.append (.refl _) (.refl _)) (RowChoice.sameYield_emit hd hmax hst h _)

end Statements

/-- A statement without a signature that both dialects write alike, with all that it visits, is
compiled to the same text and parameters for both, or for neither, if the settings are the same
otherwise. -/
theorem compile_forOracle {o o' : Options} (hd : o.target.dialect = .generic)
    (ho' : o'.choices = o.choices.forOracle) (hs : o.signatureComment = false)
    (hs' : o'.signatureComment = false) {layout : String → String} (hlayout : o.Keeps layout)
    (hlayout' : o'.Keeps layout) {st : Statement} (hst : st.isShared = true)
    (hshared : ∀ n, st.Visits n → n.isShared o.choices = true) (c : Compiled) :
    (compile o st layout).outcome = .ok c ↔ (compile o' st layout).outcome = .ok c := by
  rw [outcome_compile_unsigned_iff hs hlayout, outcome_compile_unsigned_iff hs' hlayout', ho']
  refine and_congr_right fun hmax => exists_congr fun ps => and_congr_left fun _ => ?_
  exact Statement.sameYield_emit hd hmax hst hshared ps

set_option maxRecDepth 2000 in
/-- Oracle deletes by a key, and pages a union that is ordered without a mark, as generic SQL
does. -/
theorem compile_forOracle_of_deletion :
    let o : Options :=
      { format := false, signatureComment := false, capabilities := some {}
        paramStyle := some .inline, emulateBooleans := some false }
    let o' : Options := { o with target := ⟨some .oracle⟩ }
    let page : Select := (((Select.fromTable "u" [.col "b"]).combine .union true
      (Select.fromTable "w" [.bound "p" (.integer 3)])).withOrder (.col "b") .desc).withLimit
      (.int 2)
    let st : Statement := .delete ⟨{ name := "t" },
      { wheres := [.inSubquery (.col "a") page false], groups := [.col "a"]
        key := some (.col "k") }⟩
    let c : Compiled := ⟨"DELETE FROM t WHERE k IN (SELECT k FROM t WHERE a IN (SELECT b FROM u "
      ++ "UNION ALL SELECT 3 FROM w ORDER BY b DESC LIMIT 2) GROUP BY a)", []⟩
    (compile o st).outcome = .ok c ∧ (compile o' st).outcome = .ok c := by
  intro o o' page st c
  have hok : (compile o st).outcome = .ok c := by
    cbv
  have hshared : st.allVisited (Node.isShared o.choices) 6 = true := by
    decide +kernel
  exact ⟨hok, (compile_forOracle rfl rfl rfl rfl (Options.keeps_of_unformatted rfl _)
    (Options.keeps_of_unformatted rfl _) rfl (Statement.forall_visits_of_allVisited hshared) c).mp
    hok⟩

end SqlCompiler
