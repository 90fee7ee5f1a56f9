import SqlCompiler.Proofs.Outcome

/-!
# The parts of a query

A query is emitted from its parts. Here the parts have a name of their own (`Select.parts`), with
what is looked at to order the query by aliases (`Select.probe`), and the emission of a query for
Oracle is said in terms of them. Ordering by aliases changes the ordering only. What a dialect is
given of a choice of rows is said here, too.
-/

namespace SqlCompiler

/-- The settings that options lead to, if they are not refused. -/
def Options.choices (o : Options) : Settings :=
  { dialect := o.target.dialect
    capabilities := o.capabilities.getD o.target.dialect.capabilities
    paramStyle := o.paramStyle.getD o.target.dialect.paramStyle
    emulateBooleans := o.emulateBooleans.getD o.target.dialect.emulatesBooleans }

/-- Options are refused for the length of lists only. -/
theorem Options.settings_eq (o : Options) :
    o.settings = if o.choices.capabilities.maxInList = some 0 then .error .zeroMaxInList
      else .ok o.choices :=
  rfl

/-- The text comes as it is written: no layout is asked for, or the layout changes nothing. -/
def Options.Keeps (o : Options) (layout : String → String) : Prop :=
  o.format = true → ∀ text, layout text = text

/-- Where no layout is asked for, the text comes as it is written. -/
theorem Options.keeps_of_unformatted {o : Options} (h : o.format = false)
    (layout : String → String) : o.Keeps layout := by
  intro hformat
  rw [h] at hformat
  cases hformat

/-- A text that comes as it is written is not laid out. -/
theorem Compiled.laidOut_eq {o : Options} {layout : String → String} (h : o.Keeps layout)
    (c : Compiled) : c.laidOut o layout = c := by
  unfold laidOut
  split
  · next hformat => rw [h hformat]
  · rfl

/-- What a statement is compiled to, unless its options are refused. -/
theorem outcome_compile (o : Options) (st : Statement) (layout : String → String) :
    (compile o st layout).outcome
      = if o.choices.capabilities.maxInList = some 0 then .error .zeroMaxInList
        else (st.emit o.choices).outcome.bind fun ps =>
          .ok (((Piece.compiled o.choices.paramStyle ps).laidOut o layout).signed o
            o.target.dialect) := by
  rw [compile, Traced.outcome_noteFault, Traced.outcome_bind, Traced.outcome_ofExcept,
    o.settings_eq]
  -- The check of the settings comes first, then the emission decides.
  split
  · rfl
  · show (Traced.bind (compileWith o.choices st) _).outcome = _
    cases he : (st.emit o.choices).outcome with
    | error e =>
      have hfail : (compileWith o.choices st).outcome = .error e := by
        rw [compileWith, Traced.outcome_bind_of_ok (Traced.outcome_note _),
          Traced.outcome_bind_of_error he]
      rw [Traced.outcome_bind_of_error hfail]
      rfl
    | ok ps =>
      have hok : (compileWith o.choices st).outcome
          = .ok (Piece.compiled o.choices.paramStyle ps) := by
        rw [compileWith, Traced.outcome_bind_of_ok (Traced.outcome_note _),
          Traced.outcome_bind_of_ok he, Traced.outcome_ok]
      rw [Traced.outcome_bind_of_ok hok, Traced.outcome_ok]
      rfl

/-- What a statement without a signature is compiled to, unless its options are refused. -/
theorem outcome_compile_unsigned (o : Options) (st : Statement) (h : o.signatureComment = false)
    {layout : String → String} (hlayout : o.Keeps layout) :
    (compile o st layout).outcome
      = if o.choices.capabilities.maxInList = some 0 then .error .zeroMaxInList
        else (st.emit o.choices).outcome.bind fun ps =>
          .ok (Piece.compiled o.choices.paramStyle ps) := by
  have hsigned : ∀ c : Compiled, c.signed o o.target.dialect = c := by
    intro c
    rw [Compiled.signed, h]
    rfl
  simp only [outcome_compile, hsigned, Compiled.laidOut_eq hlayout]

/-- What a query without a signature is compiled to, unless its options are refused. -/
theorem outcome_compile_select (o : Options) (s : Select) (h : o.signatureComment = false)
    {layout : String → String} (hlayout : o.Keeps layout) :
    (compile o (.select s) layout).outcome
      = if o.choices.capabilities.maxInList = some 0 then .error .zeroMaxInList
        else (s.emit o.choices).outcome.bind fun ps =>
          .ok (Piece.compiled o.choices.paramStyle ps) :=
  outcome_compile_unsigned o (.select s) h hlayout

/-- A statement without a signature is compiled to the pieces that it emits. -/
theorem outcome_compile_unsigned_iff {o : Options} {st : Statement}
    (h : o.signatureComment = false) {layout : String → String} (hlayout : o.Keeps layout)
    {c : Compiled} :
    (compile o st layout).outcome = .ok c ↔ o.choices.capabilities.maxInList ≠ some 0 ∧
      ∃ ps, (st.emit o.choices).outcome = .ok ps ∧
        c = Piece.compiled o.choices.paramStyle ps := by
  rw [outcome_compile_unsigned o st h hlayout]
  split
  · next hmax => simp [hmax]
  · next hmax =>
    cases (st.emit o.choices).outcome with
    | error e => simp [Except.bind]
    | ok ps => simp [Except.bind, hmax, eq_comm]

namespace Select

/-- The parts that a query is emitted from. -/
def parts (st : Settings) (s : Select) : QueryParts :=
  { cores := emitCores st s.cores
    orders := emitOrders st s.orders
    limit := renderedOption s.limit (emitOption st s.limit)
    offset := renderedOption s.offset (emitOption st s.offset)
    lock := s.lock }

/-- What is looked at to order a query by aliases, written with placeholders. -/
def probe (st : Settings) (s : Select) : Probe :=
  if s.orders.isEmpty then ⟨[], []⟩
  else if st.paramStyle = .inline then
    ⟨emitProjections (st.withStyle .questionMark) s.cores,
      emitOrders (st.withStyle .questionMark) s.orders⟩
  else ⟨(emitCores st s.cores).flatMap (·.projections), emitOrders st s.orders⟩

/-- The parts of a query after its ordering has been put in terms of aliases. -/
def orderedParts (st : Settings) (s : Select) : Traced QueryParts :=
  (s.parts st).orderedByAlias (s.probe st)

/-- A query for generic SQL is emitted from its parts in standard form. -/
theorem emit_generic {st : Settings} (h : st.dialect = .generic) (q : Select) :
    q.emit st = (q.parts st).standard st := by
  obtain ⟨cores, orders, limit, offset, lock⟩ := q
  simp only [Select.emit, h]
  rfl

/-- For Oracle a query is emitted from its parts with the ordering in terms of aliases. -/
theorem emit_oracle {st : Settings} (h : st.dialect = .oracle) (s : Select) :
    s.emit st = (s.orderedParts st).bind fun q => q.oracle st := by
  obtain ⟨cores, orders, limit, offset, lock⟩ := s
  simp only [Select.emit, h]
  rfl

/-- The query without its row bounds. -/
def unbounded (s : Select) : Select :=
  { s with limit := none, offset := none }

/-- The row bounds are a part of their own. -/
theorem parts_unbounded (st : Settings) (s : Select) :
    s.unbounded.parts st = (s.parts st).unbounded :=
  rfl

/-- The row bounds are not looked at to order a query by aliases. -/
theorem probe_unbounded (st : Settings) (s : Select) : s.unbounded.probe st = s.probe st :=
  rfl

end Select

/-! ## Parts one by one -/

/-- An expression with its emission. -/
def Expr.rendered (st : Settings) (e : Expr) : Rendered :=
  ⟨e, e.emit st⟩

/-- An emitted expression has the emission of the expression. -/
@[simp]
theorem Expr.emission_rendered (st : Settings) (e : Expr) : (e.rendered st).emission = e.emit st :=
  rfl

/-- The emission of an ordering term. -/
def OrderTerm.emit (st : Settings) (o : OrderTerm) : Emission :=
  o.expr.emit st ++ emitDirection o.direction

/-- The emission of a row source. -/
def JoinSource.emit (st : Settings) (j : JoinSource) : Emission :=
  j.base.emit st ++ emitJoins st j.joins

/-- The parts that a core is emitted from. -/
def Core.parts (st : Settings) (c : Core) : CoreParts :=
  { setOp := c.setOp
    distinct := c.distinct
    projections := c.projections.map (·.emit st)
    source := c.source.map (·.emit st)
    wheres := c.wheres.map (·.rendered st)
    groups := c.groups.map (·.emit st)
    havings := c.havings.map (·.rendered st) }

/-- An expression that may be missing is emitted if it is there. -/
theorem emitOption_eq_map (st : Settings) (e : Option Expr) :
    emitOption st e = e.map (·.emit st) := by
  cases e <;> rfl

/-- Ordering terms are emitted one by one. -/
theorem emitOrders_eq_map (st : Settings) (os : List OrderTerm) :
    emitOrders st os = os.map (·.emit st) := by
  induction os with
  | nil => rfl
  | cons o os ih =>
    obtain ⟨expr, direction⟩ := o
    rw [emitOrders, ih, List.map_cons]
    rfl

/-- A row bound stands beside its emission. -/
theorem renderedOption_eq_map (st : Settings) (e : Option Expr) :
    renderedOption e (emitOption st e) = e.map (·.rendered st) := by
  cases e <;> rfl

/-- Conditions stand beside their emissions. -/
theorem renderedList_eq_map (st : Settings) (es : List Expr) :
    renderedList es (emitEach st es) = es.map (·.rendered st) := by
  rw [emitEach_eq_map, renderedList, List.zipWith_map_right, List.zipWith_self]
  rfl

/-- A row source is emitted if it is there. -/
theorem emitSource_eq_map (st : Settings) (j : Option JoinSource) :
    emitSource st j = j.map (·.emit st) := by
  obtain _ | ⟨base, joins⟩ := j <;> rfl

/-- Cores are emitted one by one. -/
theorem emitCores_eq_map (st : Settings) (cs : List Core) :
    emitCores st cs = cs.map (·.parts st) := by
  induction cs with
  | nil => rfl
  | cons c cs ih =>
    obtain ⟨setOp, distinct, projections, source, wheres, groups, havings⟩ := c
    rw [emitCores, ih, List.map_cons, Core.parts, renderedList_eq_map, renderedList_eq_map,
      emitEach_eq_map, emitEach_eq_map, emitSource_eq_map]

/-- The parts of a query, one by one. -/
theorem Select.parts_eq (st : Settings) (q : Select) :
    q.parts st =
      { cores := q.cores.map (·.parts st)
        orders := q.orders.map (·.emit st)
        limit := q.limit.map (·.rendered st)
        offset := q.offset.map (·.rendered st)
        lock := q.lock } := by
  rw [Select.parts, emitCores_eq_map, emitOrders_eq_map, renderedOption_eq_map,
    renderedOption_eq_map]

/-- A condition is rendered after those before it. -/
theorem renderedList_append (st : Settings) (ws : List Expr) (w : Expr) :
    renderedList (ws ++ [w]) (emitEach st (ws ++ [w]))
      = renderedList ws (emitEach st ws) ++ [⟨w, w.emit st⟩] := by
  simp only [renderedList_eq_map, List.map_append, List.map_cons, List.map_nil]
  rfl

/-- The condition on the row number is emitted as the comparison that it is. -/
theorem rowNumberAtMost_eq (st : Settings) (limit : Expr) :
    rowNumberAtMost ⟨limit, limit.emit st⟩
      = ⟨.binary (.raw "ROWNUM") .ltEq limit,
          (Expr.binary (.raw "ROWNUM") .ltEq limit).emit st⟩ :=
  rfl

/-- The query with a bound on the row number as its last condition instead of a limit. -/
def Select.pushLimit (s : Select) (limit : Expr) : Select :=
  { s with
    cores := s.cores.map fun c =>
      { c with wheres := c.wheres ++ [.binary (.raw "ROWNUM") .ltEq limit] }
    limit := none }

/-- The parts of the query with its limit as a condition. -/
theorem Select.parts_pushLimit (st : Settings) (s : Select) (limit : Expr) :
    (s.pushLimit limit).parts st = (s.parts st).pushLimit ⟨limit, limit.emit st⟩ := by
  simp only [parts_eq, pushLimit, QueryParts.pushLimit, List.map_map, rowNumberAtMost_eq]
  congr 1
  refine List.map_congr_left fun c _ => ?_
  simp only [Function.comp_apply, Core.parts, List.map_append, List.map_cons, List.map_nil]
  rfl

/-! ## Ordering by aliases -/

/-- The text of pieces holds the mark of an ordering term. -/
def Piece.isMarked (ps : List Piece) : Bool :=
  occursIn windowMarker.toList (Piece.render .questionMark ps).toList

/-- The first emission decides if it is marked, and otherwise the others do. -/
theorem anyMarked_cons_of_ok {e : Emission} {ps : List Piece} (h : e.outcome = .ok ps)
    (es : List Emission) :
    (anyMarked (e :: es)).outcome
      = if Piece.isMarked ps then .ok true else (anyMarked es).outcome := by
  have htext : (e.asText .questionMark).outcome = .ok (Piece.render .questionMark ps) :=
    Traced.outcome_bind_of_ok h _
  rw [anyMarked, Traced.outcome_bind_of_ok htext, Piece.isMarked]
  split <;> rfl

/-- Nothing is found if all emissions succeed without a mark. -/
theorem anyMarked_eq_false {es : List Emission}
    (h : ∀ e ∈ es, ∃ ps, e.outcome = .ok ps ∧ Piece.isMarked ps = false) :
    (anyMarked es).outcome = .ok false := by
  induction es with
  | nil => rfl
  | cons e es ih =>
    obtain ⟨⟨ps, hps, hunmarked⟩, hes⟩ := List.forall_mem_cons.mp h
    rw [anyMarked_cons_of_ok hps, hunmarked]
    exact ih hes

/-- Where a mark is found, one of the emissions has it. -/
theorem exists_marked {es : List Emission} (h : (anyMarked es).outcome = .ok true) :
    ∃ e ∈ es, ∃ ps, e.outcome = .ok ps ∧ Piece.isMarked ps = true := by
  induction es with
  | nil => cases h
  | cons e es ih =>
    obtain ⟨text, htext, -⟩ := Traced.outcome_bind_ok h
    obtain ⟨ps, hps, -⟩ := Traced.outcome_bind_ok htext
    rw [anyMarked_cons_of_ok hps] at h
    -- The first one has the mark, or it is found further on.
    cases hmarked : Piece.isMarked ps with
    | true => exact ⟨e, List.mem_cons_self, ps, hps, hmarked⟩
    | false =>
      rw [hmarked] at h
      obtain ⟨e', he', hpieces⟩ := ih h
      exact ⟨e', List.mem_cons_of_mem e he', hpieces⟩

namespace QueryParts

/-- Where rows are counted, they are counted for every query. -/
theorem oracle_of_rowNumber {st : Settings} (h : st.capabilities.pagination = .rowNumber)
    (q : QueryParts) : q.oracle st = q.byRowNumber st := by
  simp only [oracle, h]

/-- Oracle writes a query in standard form if it has a clause for row bounds or needs none. -/
theorem oracle_eq_standard {st : Settings} {q : QueryParts}
    (h : st.capabilities.pagination = .limitOffset ∨ q.limit = none ∧ q.offset = none) :
    q.oracle st = q.standard st := by
  unfold oracle
  obtain hp | ⟨hlimit, hoffset⟩ := h
  · simp only [hp]
  · -- Without bounds there is nothing to count and no clause to refuse.
    cases st.capabilities.pagination with
    | rowNumber =>
      simp only [byRowNumber, hlimit, hoffset]
      rfl
    | fetchFirst =>
      simp only [hlimit, hoffset]
      rfl
    | limitOffset => rfl

/-- Without a mark a query keeps its ordering, and with one it is ordered by the aliases of the
terms that its ordering is split into. -/
theorem orderedByAlias_inversion {q q' : QueryParts} {probe : Probe}
    (h : (q.orderedByAlias probe).outcome = .ok q') :
    (q' = q ∧ (q.orders = [] ∨ (anyMarked probe.projections).outcome = .ok false)) ∨
    ∃ terms, (anyMarked probe.projections).outcome = .ok true ∧
      (orderTexts .questionMark probe.orders).outcome = .ok terms ∧
      q' = { q with orders := terms.mapIdx aliasOrder } := by
  unfold orderedByAlias at h
  -- The ordering stays if there is none or nothing is marked.
  split at h
  · next hempty => exact .inl ⟨(Except.ok.inj h).symm, .inl (List.isEmpty_iff.mp hempty)⟩
  · obtain ⟨marked, hmarked, h⟩ := Traced.outcome_bind_ok h
    cases marked with
    | false => exact .inl ⟨(Except.ok.inj h).symm, .inr hmarked⟩
    | true =>
      obtain ⟨terms, hterms, h⟩ := Traced.outcome_bind_ok h
      exact .inr ⟨terms, hmarked, hterms, (Except.ok.inj h).symm⟩

/-- A query keeps its ordering, or is ordered by the aliases of terms. -/
theorem orderedByAlias_cases {q q' : QueryParts} {probe : Probe}
    (h : (q.orderedByAlias probe).outcome = .ok q') :
    q' = q ∨ ∃ terms : List (List Char), q' = { q with orders := terms.mapIdx aliasOrder } := by
  obtain ⟨rfl, -⟩ | ⟨terms, -, -, rfl⟩ := orderedByAlias_inversion h
  · exact .inl rfl
  · exact .inr ⟨terms, rfl⟩

/-- A query is ordered by its own terms if none of its projections is marked. -/
theorem orderedByAlias_of_unmarked {t : QueryParts} {p : Probe}
    (h : (anyMarked p.projections).outcome = .ok false) : (t.orderedByAlias p).outcome = .ok t := by
  unfold orderedByAlias
  split
  · rfl
  · rw [Traced.outcome_bind_of_ok h]
    rfl

/-- Ordering by aliases changes the ordering only. -/
theorem orderedByAlias_ok {q q' : QueryParts} {probe : Probe}
    (h : (q.orderedByAlias probe).outcome = .ok q') : ∃ orders, q' = { q with orders } := by
  obtain rfl | ⟨terms, rfl⟩ := orderedByAlias_cases h
  · exact ⟨q'.orders, rfl⟩
  · exact ⟨terms.mapIdx aliasOrder, rfl⟩

/-- A query is ordered by aliases whether or not it has row bounds. -/
theorem outcome_orderedByAlias_unbounded (q : QueryParts) (probe : Probe) :
    (q.unbounded.orderedByAlias probe).outcome
      = (q.orderedByAlias probe).outcome.map QueryParts.unbounded := by
  unfold orderedByAlias
  show (if q.orders.isEmpty then _ else _ : Traced QueryParts).outcome = _
  -- The decision is made from the probe alone, which has no bounds.
  split
  · rfl
  · rw [Traced.outcome_bind, Traced.outcome_bind]
    cases (anyMarked probe.projections).outcome with
    | error e => rfl
    | ok marked =>
      cases marked with
      | false => rfl
      | true =>
        show ((orderTexts .questionMark probe.orders).bind _).outcome
          = ((orderTexts .questionMark probe.orders).bind _).outcome.map _
        rw [Traced.outcome_bind, Traced.outcome_bind]
        cases (orderTexts .questionMark probe.orders).outcome with
        | error e => rfl
        | ok terms => rfl

end QueryParts

/-- The ordering term for the alias at an index. -/
def aliasTerm (index : Nat) (term : List Char) : OrderTerm :=
  ⟨.raw (orderAlias index ++ if OrderText.isDescending term then " DESC" else ""), none⟩

/-- An alias as an ordering term is emitted as the alias. -/
theorem emit_aliasTerm (st : Settings) (index : Nat) (term : List Char) :
    (aliasTerm index term).emit st = aliasOrder index term :=
  Emission.append_empty _

/-- Aliases as ordering terms are emitted as the aliases. -/
theorem emit_aliasTerms (st : Settings) (terms : List (List Char)) :
    (terms.mapIdx aliasTerm).map (·.emit st) = terms.mapIdx aliasOrder := by
  apply List.ext_getElem
  · simp
  · simp [emit_aliasTerm]

/-- A query without ordering has nothing to put in terms of aliases. -/
theorem Select.orderedParts_of_orders_nil {st : Settings} {s : Select} (h : s.orders = []) :
    s.orderedParts st = .ok (s.parts st) := by
  obtain ⟨cores, orders, limit, offset, lock⟩ := s
  obtain rfl : orders = [] := h
  rfl

/-- A query is emitted with its own ordering terms, or with those for aliases. -/
theorem Select.orderedParts_cases {st : Settings} {s : Select} {q : QueryParts}
    (h : (s.orderedParts st).outcome = .ok q) :
    ∃ orders, q = ({ s with orders } : Select).parts st ∧
      (orders = s.orders ∨ ∃ terms : List (List Char), orders = terms.mapIdx aliasTerm) := by
  obtain rfl | ⟨terms, rfl⟩ := QueryParts.orderedByAlias_cases h
  · exact ⟨s.orders, rfl, .inl rfl⟩
  · refine ⟨terms.mapIdx aliasTerm, ?_, .inr ⟨terms, rfl⟩⟩
    simp only [parts_eq, emit_aliasTerms]

/-! ## Choices of rows -/

/-- Nothing keeps generic SQL from a choice of rows. -/
theorem RowChoice.admitted_generic {s : Settings} (hd : s.dialect = .generic) (change : ChangeKind)
    (r : RowChoice) : r.admitted s change = .ok r := by
  simp only [admitted, hd]

/-- The choice of rows without its ordering. -/
def RowChoice.unordered (r : RowChoice) : RowChoice :=
  { r with orders := [] }

/-- What Oracle is given of a choice of rows has no ordering, and all else. There was no ordering
with a limit, and row bounds come with a key. -/
theorem RowChoice.admitted_ok {s : Settings} (hd : s.dialect = .oracle) {change : ChangeKind}
    {r r' : RowChoice} (h : (r.admitted s change).outcome = .ok r') :
    r' = r.unordered ∧ (r.orders = [] ∨ r.limit = none) ∧
      (r.limit.isSome ∨ r.offset.isSome → r.key.isSome) := by
  unfold admitted at h
  simp only [hd] at h
  -- Two checks, and then the ordering is left out with a note if there is one.
  split at h
  · cases h
  · next horders =>
    split at h
    · cases h
    · next hkey =>
      refine ⟨?_, Classical.or_iff_not_imp_left.mpr (by simpa using horders),
        by simpa [Option.isSome_iff_ne_none] using hkey⟩
      split at h
      · next hempty =>
        obtain rfl := Except.ok.inj h
        have hnil : r.orders = [] := List.isEmpty_iff.mp hempty
        rw [unordered, ← hnil]
      · exact (Except.ok.inj h).symm

end SqlCompiler
