import SqlCompiler.Proofs.QueryParts
import SqlCompiler.Proofs.RowWindow.Counting

/-!
# Wrapped queries

Where rows are counted, a query with row bounds is compiled to a query around the compiled query
without them (`compile_rowBounds`). The parameters of the inner query keep their numbers, those of
the bounds are numbered on from them, and the rows of the whole are the window of the inner rows
that the bounds ask for. A fault of the inner query is the fault of the whole, and the only fault
beyond it is a sum of offset and limit that is no 64-bit integer. The queries around it are those of
`write_row_number`.
-/

namespace SqlCompiler

/-- Rows are counted for Oracle, and the text comes as it is, with placeholders. -/
structure Options.CountsRows (o : Options) : Prop where
  dialect : o.choices.dialect = .oracle
  pagination : o.choices.capabilities.pagination = .rowNumber
  placeholders : o.choices.paramStyle ≠ .inline
  unformatted : o.format = false
  unsigned : o.signatureComment = false

/-- The limit of the query becomes a condition: there is no offset, and with its ordering in terms
of aliases the query is one for which any rows will do. -/
def Select.PushesLimit (st : Settings) (s : Select) : Prop :=
  s.limit.isSome ∧ s.offset = none ∧
    ∃ q, (s.orderedParts st).outcome = .ok q ∧ q.canPushLimit = true

namespace Bound

/-- The pieces of a bound. -/
def pieces : Bound → List Piece
  | .literal n _ => [.sql (toString n.toInt)]
  | .param name value => [.param name value]

/-- The value of a bound that is a literal. -/
def constant? : Bound → Option Int64
  | .literal n _ => some n
  | .param _ _ => none

/-- A bound with its emission. -/
def rendered (st : Settings) (b : Bound) : Rendered :=
  ⟨b.expr, b.expr.emit st⟩

/-- The bound stands for itself: it is a literal, or parameters have placeholders. -/
def Writable (st : Settings) (b : Bound) : Prop :=
  b.constant?.isSome ∨ st.paramStyle ≠ .inline

/-- A bound is emitted as its pieces. -/
theorem outcome_emit {st : Settings} {b : Bound} (h : b.Writable st) :
    (b.expr.emit st).outcome = .ok b.pieces := by
  cases b with
  | literal n hn => rfl
  | param name value =>
    obtain hconstant | hstyle := h
    · cases hconstant
    · show (emitParam st name value).outcome = _
      simp only [emitParam, if_neg hstyle]
      rfl

/-- A bound passes the check of its value. -/
theorem constantBound_expr (kind : RowBound) (b : Bound) :
    constantBound kind b.expr = .ok b.constant? := by
  cases b with
  | literal n hn =>
    have hneg : ¬ n < 0 := Int64.not_lt.mpr hn
    rw [expr, constantBound, if_neg hneg]
    rfl
  | param name value => rfl

/-- A bound has as many parameters as its pieces. -/
theorem paramCount_pieces (b : Bound) : Piece.paramCount b.pieces = b.paramCount := by
  cases b with
  | literal n hn => rfl
  | param name value => rfl

/-- The pieces of a bound are rendered as its text. -/
theorem renderFrom_pieces (style : ParamStyle) (position : Nat) (b : Bound) :
    Piece.renderFrom style position b.pieces = b.text style position := by
  cases b with
  | literal n hn => simp [pieces, text]
  | param name value => simp [pieces, text]

/-- The pieces of a bound bind its parameters. -/
theorem params_pieces (style : ParamStyle) (position : Nat) (b : Bound) :
    Piece.params style position b.pieces = b.params style position := by
  cases b with
  | literal n hn => rfl
  | param name value => rfl

end Bound

namespace LastRow

/-- The pieces of a last row number. -/
def pieces : LastRow → List Piece
  | .limit l => l.pieces
  | .offsetPlus (.literal o _) (.literal l _) => [.sql (toString (o.toInt + l.toInt))]
  | .offsetPlus o l => .sql "(" :: (o.pieces ++ .sql " + " :: (l.pieces ++ [.sql ")"]))

/-- An offset and a limit are added up, unless their sum is no 64-bit integer. -/
theorem outcome_emitLastRow {st : Settings} {o l : Bound} (hwo : o.Writable st)
    (hwl : l.Writable st) :
    (emitLastRow (o.rendered st) (l.rendered st)).outcome
      = match o.overflow? l with
        | some f => .error f
        | none => .ok (LastRow.offsetPlus o l).pieces := by
  have ho : (Traced.ofExcept (constantBound .offset (o.rendered st).expr)).outcome
      = .ok o.constant? := Bound.constantBound_expr .offset o
  have hl : (Traced.ofExcept (constantBound .limit (l.rendered st).expr)).outcome
      = .ok l.constant? := Bound.constantBound_expr .limit l
  have hsum : (Emission.parens ((o.rendered st).emission ++ .sql " + "
      ++ (l.rendered st).emission)).outcome
      = .ok (.sql "(" :: ((o.pieces ++ [.sql " + "] ++ l.pieces) ++ [.sql ")"])) :=
    Emission.outcome_parens (Emission.outcome_append_of_ok
      (Emission.outcome_append_of_ok (Bound.outcome_emit hwo) (Emission.outcome_sql " + "))
      (Bound.outcome_emit hwl))
  rw [emitLastRow, Traced.outcome_bind_of_ok ho, Traced.outcome_bind_of_ok hl]
  -- Only two literals are added up; any other sum is left to the database.
  match o, l with
  | .literal o ho, .literal l hl =>
    simp only [Bound.constant?, Bound.overflow?]
    split
    · rfl
    · rfl
  | .param name value, l =>
    simp only [Bound.constant?, Bound.overflow?]
    rw [hsum]
    simp [pieces]
  | .literal o ho, .param name value =>
    simp only [Bound.constant?, Bound.overflow?]
    rw [hsum]
    simp [pieces]

/-- A last row has as many parameters as its pieces. -/
theorem paramCount_pieces (last : LastRow) : Piece.paramCount last.pieces = last.paramCount := by
  match last with
  | .limit l => exact l.paramCount_pieces
  | .offsetPlus (.literal o ho) (.literal l hl) => rfl
  | .offsetPlus (.literal o ho) (.param name value) => rfl
  | .offsetPlus (.param name value) l =>
    simp [pieces, paramCount, Piece.paramCount, Bound.paramCount_pieces]

/-- The pieces of a last row are rendered as its text. -/
theorem renderFrom_pieces (style : ParamStyle) (position : Nat) (last : LastRow) :
    Piece.renderFrom style position last.pieces = last.text style position := by
  match last with
  | .limit l => exact l.renderFrom_pieces style position
  | .offsetPlus (.literal o ho) (.literal l hl) => simp [pieces, text]
  | .offsetPlus (.literal o ho) (.param name value) =>
    simp [pieces, text, Piece.renderFrom_append, Bound.paramCount_pieces, Bound.renderFrom_pieces,
      String.append_assoc]
  | .offsetPlus (.param name value) l =>
    simp [pieces, text, Piece.renderFrom_append, Bound.paramCount_pieces, Bound.renderFrom_pieces,
      String.append_assoc]

/-- The pieces of a last row bind its parameters. -/
theorem params_pieces (style : ParamStyle) (position : Nat) (last : LastRow) :
    Piece.params style position last.pieces = last.params style position := by
  match last with
  | .limit l => exact l.params_pieces style position
  | .offsetPlus (.literal o ho) (.literal l hl) => rfl
  | .offsetPlus (.literal o ho) (.param name value) => rfl
  | .offsetPlus (.param name value) l =>
    simp [pieces, params, Piece.params, Piece.params_append, Bound.paramCount_pieces,
      Bound.params_pieces]

end LastRow

namespace RowQuery

/-- The pieces of a query around those of an inner one. -/
def pieces (inner : List Piece) : RowQuery → List Piece
  | .upTo last =>
    .sql "SELECT * FROM (" :: (inner ++ .sql ") WHERE ROWNUM <= " :: last.pieces)
  | .behind offset (some last) =>
    .sql "SELECT * FROM (SELECT raw_sql_.*, rownum raw_rnum_ FROM (" ::
      (inner ++ .sql ") raw_sql_ WHERE rownum <= " ::
        (last.pieces ++ .sql ") WHERE raw_rnum_ > " :: offset.pieces))
  | .behind offset none =>
    .sql "SELECT * FROM (SELECT raw_sql_.*, rownum raw_rnum_ FROM (" ::
      (inner ++ .sql ") raw_sql_) WHERE raw_rnum_ > " :: offset.pieces)

/-- The fault of a query whose last row number is no 64-bit integer. -/
def overflow? : RowQuery → Option Fault
  | .behind _ (some (.offsetPlus o l)) => o.overflow? l
  | _ => none

/-- The text around the text of an inner query. -/
theorem renderFrom_pieces (style : ParamStyle) (inner : List Piece) (w : RowQuery) :
    Piece.renderFrom style 1 (w.pieces inner)
      = w.text style (1 + Piece.paramCount inner) (Piece.renderFrom style 1 inner) := by
  -- The offset comes last, so its parameters are numbered behind those of the last row.
  match w with
  | .upTo last =>
    simp only [pieces, text_upTo, Piece.renderFrom_sql, Piece.renderFrom_append,
      LastRow.renderFrom_pieces, String.append_assoc]
  | .behind offset (some last) =>
    simp only [pieces, text_behind_some, Piece.renderFrom_sql, Piece.renderFrom_append,
      LastRow.renderFrom_pieces, LastRow.paramCount_pieces, Bound.renderFrom_pieces,
      String.append_assoc]
  | .behind offset none =>
    simp only [pieces, text_behind_none, Piece.renderFrom_sql, Piece.renderFrom_append,
      Bound.renderFrom_pieces, String.append_assoc]

/-- The parameters after those of an inner query. -/
theorem params_pieces (style : ParamStyle) (inner : List Piece) (w : RowQuery) :
    Piece.params style 1 (w.pieces inner)
      = Piece.params style 1 inner ++ w.params style (1 + Piece.paramCount inner) := by
  match w with
  | .upTo last =>
    simp only [pieces, params, Piece.params, Piece.params_append, LastRow.params_pieces]
  | .behind offset (some last) =>
    simp only [pieces, params, Piece.params, Piece.params_append, LastRow.params_pieces,
      LastRow.paramCount_pieces, Bound.params_pieces]
  | .behind offset none =>
    simp only [pieces, params, Piece.params, Piece.params_append, Bound.params_pieces]

/-- The pieces around those of an inner query make up the query around the compiled one. -/
theorem compiled_pieces (style : ParamStyle) (inner : List Piece) (w : RowQuery) :
    Piece.compiled style (w.pieces inner) = w.around style (Piece.compiled style inner) := by
  have hcount : (Piece.params style 1 inner).length + 1 = 1 + Piece.paramCount inner := by
    rw [Piece.length_params, Nat.add_comm]
  simp only [Piece.compiled, around, Piece.render_eq_renderFrom, hcount, renderFrom_pieces,
    params_pieces]

end RowQuery

namespace QueryParts

/-- Bounds pass their checks. -/
theorem outcome_checkBound (st : Settings) (kind : RowBound) (b : Option Bound) :
    (Traced.ofExcept (checkBound kind (b.map (·.rendered st)))).outcome = .ok () := by
  cases b with
  | none => rfl
  | some b =>
    show (constantBound kind b.expr).map _ = _
    rw [Bound.constantBound_expr]
    rfl

/-- A query that has row bounds and no lock is wrapped, unless its limit becomes a condition. -/
theorem outcome_byRowNumber {st : Settings} {q : QueryParts} {limit offset : Option Bound}
    {w : RowQuery} (hl : q.limit = limit.map (·.rendered st))
    (ho : q.offset = offset.map (·.rendered st)) (hlock : q.lock = none)
    (hw : RowQuery.ofBounds limit offset = some w)
    (hpush : limit.isSome → offset = none → q.canPushLimit = false) :
    (q.byRowNumber st).outcome = (q.wrapped st).outcome := by
  have hcl := outcome_checkBound st .limit limit
  have hco := outcome_checkBound st .offset offset
  rw [← hl] at hcl
  rw [← ho] at hco
  rw [byRowNumber, Traced.outcome_bind_of_ok hcl, Traced.outcome_bind_of_ok hco]
  -- Without bounds there is no query around it, and with a limit alone it must not be pushed.
  cases limit with
  | none =>
    cases offset with
    | none => cases hw
    | some o =>
      simp only [hl, ho, Option.map_some, Option.map_none, hlock]
      rfl
  | some l =>
    cases offset with
    | none =>
      -- Only a limit without an offset can become a condition.
      have hnot := hpush rfl rfl
      simp only [hl, ho, Option.map_some, Option.map_none, hnot, hlock]
      rfl
    | some o =>
      simp only [hl, ho, Option.map_some, hlock]
      rfl

/-- The emission of a limit and an offset around a query. -/
theorem wrapped_both (st : Settings) {q : QueryParts} {limit offset : Rendered}
    (hl : q.limit = some limit) (ho : q.offset = some offset) :
    q.wrapped st
      = Emission.note .limitAndOffsetWrapped
        ++ Emission.sql "SELECT * FROM (SELECT raw_sql_.*, rownum raw_rnum_ FROM ("
        ++ q.unbounded.standard st
        ++ Emission.sql ") raw_sql_ WHERE rownum <= "
        ++ emitLastRow offset limit
        ++ Emission.sql ") WHERE raw_rnum_ > "
        ++ offset.emission := by
  obtain ⟨cores, orders, _, _, lock⟩ := q
  subst hl ho
  rfl

/-- The emission of a limit around a query. -/
theorem wrapped_limit (st : Settings) {q : QueryParts} {limit : Rendered}
    (hl : q.limit = some limit) (ho : q.offset = none) :
    q.wrapped st
      = Emission.note .limitWrapped
        ++ Emission.sql "SELECT * FROM ("
        ++ q.unbounded.standard st
        ++ Emission.sql ") WHERE ROWNUM <= "
        ++ limit.emission := by
  obtain ⟨cores, orders, _, _, lock⟩ := q
  subst hl ho
  rfl

/-- The emission of an offset around a query. -/
theorem wrapped_offset (st : Settings) {q : QueryParts} {offset : Rendered}
    (hl : q.limit = none) (ho : q.offset = some offset) :
    q.wrapped st
      = Emission.note .offsetWrapped
        ++ Emission.sql "SELECT * FROM (SELECT raw_sql_.*, rownum raw_rnum_ FROM ("
        ++ q.unbounded.standard st
        ++ Emission.sql ") raw_sql_) WHERE raw_rnum_ > "
        ++ offset.emission := by
  obtain ⟨cores, orders, _, _, lock⟩ := q
  subst hl ho
  rfl

/-- A wrapped query yields the pieces around those of the query without row bounds. -/
theorem outcome_wrapped {st : Settings} {q : QueryParts} {limit offset : Option Bound}
    {w : RowQuery} (hwl : ∀ b ∈ limit, b.Writable st) (hwo : ∀ b ∈ offset, b.Writable st)
    (hl : q.limit = limit.map (·.rendered st)) (ho : q.offset = offset.map (·.rendered st))
    (hw : RowQuery.ofBounds limit offset = some w) :
    (q.wrapped st).outcome
      = (q.unbounded.standard st).outcome.bind fun ps =>
          match w.overflow? with
          | some f => .error f
          | none => .ok (w.pieces ps) := by
  -- One form for each combination of bounds that leads to a query around.
  match limit, offset, hw with
  | some l, some o, rfl =>
    have hlast := LastRow.outcome_emitLastRow (hwo o rfl) (hwl l rfl)
    have hoffset : (o.rendered st).emission.outcome = .ok o.pieces :=
      Bound.outcome_emit (hwo o rfl)
    rw [wrapped_both st hl ho]
    simp only [Emission.outcome_append, Emission.outcome_note, Emission.outcome_sql, hoffset,
      hlast, RowQuery.overflow?]
    -- A fault of the inner query comes before one of the sum.
    cases (q.unbounded.standard st).outcome with
    | error e => rfl
    | ok ps =>
      cases o.overflow? l with
      | some f => rfl
      | none => simp [Except.bind, RowQuery.pieces]
  | some l, none, rfl =>
    have hlimit : (l.rendered st).emission.outcome = .ok l.pieces :=
      Bound.outcome_emit (hwl l rfl)
    rw [wrapped_limit st hl ho]
    simp only [Emission.outcome_append, Emission.outcome_note, Emission.outcome_sql, hlimit,
      RowQuery.overflow?]
    cases (q.unbounded.standard st).outcome with
    | error e => rfl
    | ok ps => simp [Except.bind, RowQuery.pieces, LastRow.pieces]
  | none, some o, rfl =>
    have hoffset : (o.rendered st).emission.outcome = .ok o.pieces :=
      Bound.outcome_emit (hwo o rfl)
    rw [wrapped_offset st hl ho]
    simp only [Emission.outcome_append, Emission.outcome_note, Emission.outcome_sql, hoffset,
      RowQuery.overflow?]
    cases (q.unbounded.standard st).outcome with
    | error e => rfl
    | ok ps => simp [Except.bind, RowQuery.pieces]

end QueryParts

namespace Select

/-- A bound of a query is the bound of its parts. -/
theorem renderedOption_expr (st : Settings) (b : Option Bound) :
    renderedOption (b.map Bound.expr) (emitOption st (b.map Bound.expr))
      = b.map (·.rendered st) := by
  cases b with
  | none => rfl
  | some b => rfl

/-- Where rows are counted, a query with row bounds yields the pieces around those of the query
without them. -/
theorem outcome_emit_rowBounds {st : Settings} (hd : st.dialect = .oracle)
    (hp : st.capabilities.pagination = .rowNumber) {s : Select} {limit offset : Option Bound}
    {w : RowQuery} (hwl : ∀ b ∈ limit, b.Writable st) (hwo : ∀ b ∈ offset, b.Writable st)
    (hl : s.limit = limit.map Bound.expr) (ho : s.offset = offset.map Bound.expr)
    (hlock : s.lock = none) (hw : RowQuery.ofBounds limit offset = some w)
    (hpush : ¬ s.PushesLimit st) :
    (s.emit st).outcome
      = (s.unbounded.emit st).outcome.bind fun ps =>
          match w.overflow? with
          | some f => .error f
          | none => .ok (w.pieces ps) := by
  -- The bounds play no part in ordering by aliases, so both queries are ordered alike.
  have hinner : (s.unbounded.orderedParts st).outcome
      = (s.orderedParts st).outcome.map QueryParts.unbounded := by
    rw [orderedParts, parts_unbounded, probe_unbounded,
      QueryParts.outcome_orderedByAlias_unbounded]
    rfl
  rw [emit_oracle hd, emit_oracle hd, Traced.outcome_bind, Traced.outcome_bind, hinner]
  simp only [QueryParts.oracle_of_rowNumber hp]
  cases hq : (s.orderedParts st).outcome with
  | error e => rfl
  | ok q =>
    obtain ⟨orders, rfl⟩ := QueryParts.orderedByAlias_ok hq
    have hql : ({ s.parts st with orders } : QueryParts).limit = limit.map (·.rendered st) := by
      rw [← renderedOption_expr, ← hl]
      rfl
    have hqo : ({ s.parts st with orders } : QueryParts).offset = offset.map (·.rendered st) := by
      rw [← renderedOption_expr, ← ho]
      rfl
    have hnot : limit.isSome → offset = none →
        ({ s.parts st with orders } : QueryParts).canPushLimit = false := by
      intro hsome hnone
      rw [← Bool.not_eq_true]
      intro hcan
      refine hpush ⟨?_, ?_, _, hq, hcan⟩
      · rw [hl, Option.isSome_map]
        exact hsome
      · rw [ho, hnone]
        rfl
    show (QueryParts.byRowNumber st _).outcome
      = (QueryParts.byRowNumber st (QueryParts.unbounded _)).outcome.bind _
    rw [QueryParts.outcome_byRowNumber hql hqo hlock hw hnot,
      QueryParts.outcome_wrapped hwl hwo hql hqo hw]
    rfl

end Select

/-- The offset and the limit are literals whose sum is no 64-bit integer. -/
def SumOverflows (limit offset : Option Bound) : Prop :=
  ∃ o l ho hl, offset = some (.literal o ho) ∧ limit = some (.literal l hl) ∧
    Int64.maxValue.toInt < o.toInt + l.toInt

/-- A query around another one is at fault exactly if its bounds overflow, and then for an invalid
argument. -/
theorem overflow?_ofBounds {limit offset : Option Bound} {w : RowQuery}
    (hw : RowQuery.ofBounds limit offset = some w) :
    (SumOverflows limit offset ∧ ∃ f, w.overflow? = some f ∧ f.diagnostic.code? = some "E0103") ∨
      (¬ SumOverflows limit offset ∧ w.overflow? = none) := by
  -- Only a sum of two literals is worked out, so only there anything can overflow.
  match limit, offset, hw with
  | some (.literal l hl), some (.literal o ho), rfl =>
    by_cases hle : o.toInt + l.toInt ≤ Int64.maxValue.toInt
    · right
      refine ⟨?_, if_pos hle⟩
      rintro ⟨o', l', _, _, ho', hl', hlt⟩
      cases ho'
      cases hl'
      omega
    · left
      exact ⟨⟨o, l, ho, hl, rfl, rfl, by omega⟩, .boundOverflow o l, if_neg hle, rfl⟩
  | some (.param name value), some o, rfl =>
    right
    refine ⟨?_, ?_⟩
    · rintro ⟨_, _, _, _, _, hl, _⟩
      cases hl
    · cases o with
      | literal n hn => rfl
      | param name value => rfl
  | some (.literal l hl), some (.param name value), rfl =>
    right
    refine ⟨?_, rfl⟩
    rintro ⟨_, _, _, _, ho, _, _⟩
    cases ho
  | some l, none, rfl =>
    right
    refine ⟨?_, rfl⟩
    rintro ⟨_, _, _, _, ho, _, _⟩
    cases ho
  | none, some o, rfl =>
    right
    refine ⟨?_, rfl⟩
    rintro ⟨_, _, _, _, _, hl, _⟩
    cases hl

/-- Where rows are counted, a query with row bounds is compiled from the compiled query without
them, unless its limit becomes a condition. -/
theorem outcome_compile_rowBounds {o : Options} (ho : o.CountsRows) {s : Select}
    {limit offset : Option Bound} {w : RowQuery} (hw : RowQuery.ofBounds limit offset = some w)
    (hlimit : s.limit = limit.map Bound.expr) (hoffset : s.offset = offset.map Bound.expr)
    (hlock : s.lock = none) (hpush : ¬ s.PushesLimit o.choices) (layout : String → String) :
    (compile o (.select s) layout).outcome
      = (compile o (.select s.unbounded) layout).outcome.bind fun inner =>
          match w.overflow? with
          | some f => .error f
          | none => .ok (w.around o.choices.paramStyle inner) := by
  have hlayout := Options.keeps_of_unformatted ho.unformatted layout
  rw [outcome_compile_select o s ho.unsigned hlayout,
    outcome_compile_select o _ ho.unsigned hlayout]
  split
  · rfl
  · rw [Select.outcome_emit_rowBounds ho.dialect ho.pagination (fun _ _ => .inr ho.placeholders)
      (fun _ _ => .inr ho.placeholders) hlimit hoffset hlock hw hpush]
    -- A fault of the inner query comes first, then one of the sum.
    cases (s.unbounded.emit o.choices).outcome with
    | error e => rfl
    | ok ps =>
      cases w.overflow? with
      | some f => rfl
      | none =>
        simp only [Except.bind]
        rw [RowQuery.compiled_pieces]

/-- Where rows are counted, a query with row bounds that is not emitted with its limit as a
condition is compiled to the query around the compiled query without row bounds. It fails as that
one does, and else only for an invalid argument if the bounds are literals that overflow. Whatever
rows the inner query has, the whole returns the window of them that the bounds ask for. -/
theorem compile_rowBounds (o : Options) (ho : o.CountsRows) (s : Select)
    (limit offset : Option Bound) (w : RowQuery) (hw : RowQuery.ofBounds limit offset = some w)
    (hlimit : s.limit = limit.map Bound.expr) (hoffset : s.offset = offset.map Bound.expr)
    (hlock : s.lock = none) (hpush : ¬ s.PushesLimit o.choices) (layout : String → String) :
    (∀ f, (compile o (.select s.unbounded) layout).outcome = .error f →
      (compile o (.select s) layout).outcome = .error f) ∧
    (∀ inner, (compile o (.select s.unbounded) layout).outcome = .ok inner →
      SumOverflows limit offset →
      ∃ f, (compile o (.select s) layout).outcome = .error f ∧
        f.diagnostic.code? = some "E0103") ∧
    (∀ inner, (compile o (.select s.unbounded) layout).outcome = .ok inner →
      ¬ SumOverflows limit offset →
      (compile o (.select s) layout).outcome = .ok (w.around o.choices.paramStyle inner)) ∧
    (∀ (ρ : Type) (env : String → Option Literal → Nat) (rs : List ρ),
      (w.rows env rs).map Prod.fst
        = window (limit.map (·.value env)) (offset.map (·.value env)) rs) := by
  have hcompile := outcome_compile_rowBounds ho hw hlimit hoffset hlock hpush layout
  have hoverflow := overflow?_ofBounds hw
  refine ⟨?_, ?_, ?_, fun ρ env rs => RowQuery.rows_ofBounds env rs hw⟩
  · intro f hf
    rw [hcompile, hf]
    rfl
  · intro inner hinner hsum
    obtain ⟨_, f, hf, hcode⟩ | ⟨hnot, _⟩ := hoverflow
    · refine ⟨f, ?_, hcode⟩
      rw [hcompile, hinner]
      simp only [Except.bind, hf]
    · exact absurd hsum hnot
  · intro inner hinner hsum
    obtain ⟨hyes, _⟩ | ⟨_, hnone⟩ := hoverflow
    · exact absurd hyes hsum
    · rw [hcompile, hinner]
      simp only [Except.bind, hnone]

/-- A page of the employees of one department: the inner query binds the first placeholder, and the
offset is bound twice behind it. -/
theorem compile_page_of_department :
    let o : Options := { format := false, target := ⟨some .oracle⟩, signatureComment := false }
    let s : Select :=
      (((Select.fromTable "employees" [.col "name"]).withWhere
        (.eq (.col "dept") (.bound "dept" (.integer 7)))).withOrder (.col "name") .asc).withLimit
          (.int 10)
    let paged := s.withOffset (.bound "off" (.integer 20))
    (compile o (.select paged)).outcome
      = .ok ⟨"SELECT * FROM (SELECT raw_sql_.*, rownum raw_rnum_ FROM (SELECT name FROM employees "
          ++ "WHERE dept = :a1 ORDER BY name ASC) raw_sql_ WHERE rownum <= (:a2 + 10)) "
          ++ "WHERE raw_rnum_ > :a3",
          [⟨":a1", "dept", some (.integer 7)⟩, ⟨":a2", "off", some (.integer 20)⟩,
            ⟨":a3", "off", some (.integer 20)⟩]⟩ := by
  intro o s paged
  have hinner : (compile o (.select paged.unbounded)).outcome
      = .ok ⟨"SELECT name FROM employees WHERE dept = :a1 ORDER BY name ASC",
          [⟨":a1", "dept", some (.integer 7)⟩]⟩ := by
    rfl
  have hsum : ¬ SumOverflows (some (.literal 10 (by decide)))
      (some (.param "off" (some (.integer 20)))) := by
    rintro ⟨_, _, _, _, ho, _⟩
    cases ho
  have hpush : ¬ paged.PushesLimit o.choices := by
    rintro ⟨_, hoffset, _⟩
    cases hoffset
  rw [(compile_rowBounds o ⟨rfl, rfl, by decide, rfl, rfl⟩ paged (some (.literal 10 (by decide)))
    (some (.param "off" (some (.integer 20)))) _ rfl rfl rfl rfl hpush id).2.2.1 _ hinner hsum]
  rfl

end SqlCompiler
