import SqlCompiler.Proofs.Agreement.Pieces

/-!
# Placeholders and bound parameters

The pieces of a statement do not depend on how its placeholders are written
(`Statement.emit_withStyle`): where an ordering by aliases looks at texts, it looks at them with
placeholders of one and the same form. The texts between the parameters are therefore the same for
all styles, and each parameter fills one gap between them and is bound once, in that order. Where
parameters are written as literals, there are none among the pieces. A parameter is bound by
`add_bind`.
-/

namespace SqlCompiler

/-! ## Texts with gaps -/

/-- A text with gaps: the text before the first gap, then each gap with the text after it. -/
structure Segments (α : Type) where
  first : String
  gaps : List (α × String)

namespace Segments

variable {α : Type}

/-- The text from a gap on, with the gaps filled; the next gap is the `n`-th. -/
def fillFrom (f : Nat → α → String) : Nat → List (α × String) → String
  | _, [] => ""
  | n, (a, text) :: gaps => f n a ++ text ++ fillFrom f (n + 1) gaps

/-- The text with the gaps filled. They are counted from one. -/
def fill (f : Nat → α → String) (g : Segments α) : String :=
  g.first ++ fillFrom f 1 g.gaps

/-- A text in front. -/
def before (text : String) (g : Segments α) : Segments α :=
  { g with first := text ++ g.first }

/-- A gap in front. -/
def gap (a : α) (g : Segments α) : Segments α :=
  ⟨"", (a, g.first) :: g.gaps⟩

/-- The statement with a placeholder in each gap, and the parameter of the gap bound to it. -/
def withPlaceholders (mark : Nat → String) (g : Segments (String × Option Literal)) : Compiled :=
  { sql := g.fill fun n _ => mark n
    params := g.gaps.mapIdx fun i p => ⟨mark (i + 1), p.1.1, p.1.2⟩ }

end Segments

/-- The texts between the parameters of pieces, with `tail` after them. -/
def Piece.segments (tail : String) : List Piece → Segments (String × Option Literal)
  | [] => ⟨tail, []⟩
  | .sql text :: ps => (segments tail ps).before text
  | .verbatim text :: ps => (segments tail ps).before text
  | .ident name :: ps => (segments tail ps).before (Identifier.text name)
  | .string content :: ps => (segments tail ps).before (Text.doubled '\'' content)
  | .param name value :: ps => (segments tail ps).gap (name, value)

namespace Piece

/-- The text of pieces is their segments with placeholders between them. -/
theorem renderFrom_segments (style : ParamStyle) (position : Nat) (ps : List Piece)
    (tail : String) :
    renderFrom style position ps ++ tail
      = (segments tail ps).first
        ++ Segments.fillFrom (fun n _ => style.marker n) position (segments tail ps).gaps := by
  induction ps generalizing position with
  | nil => simp [segments, Segments.fillFrom]
  | cons p ps ih =>
    -- Only a parameter opens a gap; all other pieces belong to the text before the next one.
    cases p with
    | param name value =>
      simp only [renderFrom_param, segments, Segments.gap, Segments.fillFrom, String.append_assoc,
        String.empty_append, ih]
    | _ => simp [segments, Segments.before, String.append_assoc, ih]

/-- Each gap between the segments of pieces is bound once. -/
theorem params_segments (style : ParamStyle) (position : Nat) (ps : List Piece) (tail : String) :
    params style position ps
      = (segments tail ps).gaps.mapIdx fun i p => ⟨style.marker (position + i), p.1.1, p.1.2⟩ := by
  induction ps generalizing position with
  | nil => rfl
  | cons p ps ih =>
    -- Only a parameter is bound, and the next one has the next position.
    cases p with
    | param name value =>
      rw [params, ih, segments, Segments.gap, List.mapIdx_cons]
      simp only [Nat.add_assoc, Nat.add_comm 1]
      rfl
    | _ => exact ih position

/-- What pieces are compiled to, with a text after them. -/
theorem compiled_segments (style : ParamStyle) (ps : List Piece) (tail : String) :
    (⟨(compiled style ps).sql ++ tail, (compiled style ps).params⟩ : Compiled)
      = (segments tail ps).withPlaceholders style.marker := by
  unfold Segments.withPlaceholders Segments.fill
  rw [← renderFrom_segments]
  simp only [compiled, render_eq_renderFrom, params_segments style 1 ps tail, Nat.add_comm 1]

end Piece

/-! ## The pieces do not depend on the style -/

/-- Parts that agree in equal emissions and literals are equal. -/
theorem Rendered.eq_of_agree {r r' : Rendered} (h : r.Agree Eq (fun _ _ a b => a = b) r') :
    r = r' := by
  obtain ⟨e, x⟩ := r
  obtain ⟨e', x'⟩ := r'
  have he : e = e' := Expr.eq_of_agree (fun _ _ => id) e e' h.expr
  have hx : x = x' := h.emission
  rw [he, hx]

/-- Cores that agree in equal emissions and literals are equal. -/
theorem CoreParts.eq_of_agree {c c' : CoreParts} (h : c.Agree Eq (fun _ _ a b => a = b) c') :
    c = c' := by
  have hprojections := eq_of_forall₂ (fun _ _ => id) h.projections
  have hsource := eq_of_optionRel (fun _ _ => id) h.source
  have hwheres := eq_of_forall₂ (fun _ _ => Rendered.eq_of_agree) h.wheres
  have hgroups := eq_of_forall₂ (fun _ _ => id) h.groups
  have hhavings := eq_of_forall₂ (fun _ _ => Rendered.eq_of_agree) h.havings
  have hop := h.setOp
  have hdistinct := h.distinct
  obtain ⟨op, distinct, projections, source, wheres, groups, havings⟩ := c
  obtain ⟨op', distinct', projections', source', wheres', groups', havings'⟩ := c'
  simp only at hprojections hsource hwheres hgroups hhavings hop hdistinct
  rw [hprojections, hsource, hwheres, hgroups, hhavings, hop, hdistinct]

/-- Queries that agree in equal emissions and literals are equal. -/
theorem QueryParts.eq_of_agree {q q' : QueryParts} (h : q.Agree Eq (fun _ _ a b => a = b) q') :
    q = q' := by
  have hcores := eq_of_forall₂ (fun _ _ => CoreParts.eq_of_agree) h.cores
  have horders := eq_of_forall₂ (fun _ _ => id) h.orders
  have hlimit := eq_of_optionRel (fun _ _ => Rendered.eq_of_agree) h.limit
  have hoffset := eq_of_optionRel (fun _ _ => Rendered.eq_of_agree) h.offset
  have hlock := h.lock
  obtain ⟨cores, orders, limit, offset, lock⟩ := q
  obtain ⟨cores', orders', limit', offset', lock'⟩ := q'
  simp only at hcores horders hlimit hoffset hlock
  rw [hcores, horders, hlimit, hoffset, hlock]

/-- Probes that agree in equal emissions are equal. -/
theorem Probe.eq_of_agree {p p' : Probe} (h : p.Agree (fun _ _ a b => a = b) p') : p = p' := by
  have hprojections := eq_of_forall₂ (fun _ _ => id) h.projections
  have horders := eq_of_forall₂ (fun _ _ => id) h.orders
  obtain ⟨projections, orders⟩ := p
  obtain ⟨projections', orders'⟩ := p'
  simp only at hprojections horders
  rw [hprojections, horders]

/-- An emitted expression agrees with itself. -/
theorem Rendered.agree_self (r : Rendered) : r.Agree Eq (fun _ _ a b => a = b) r :=
  ⟨r.expr.agree_self fun _ => rfl, rfl⟩

/-- The parts of a core agree with themselves. -/
theorem CoreParts.agree_self (c : CoreParts) : c.Agree Eq (fun _ _ a b => a = b) c :=
  { setOp := rfl
    distinct := rfl
    projections := List.forall₂_same.mpr fun _ _ => rfl
    source := optionRel_self (fun _ => rfl) _
    wheres := List.forall₂_same.mpr fun r _ => r.agree_self
    groups := List.forall₂_same.mpr fun _ _ => rfl
    havings := List.forall₂_same.mpr fun r _ => r.agree_self }

/-- The parts of a query agree with themselves. -/
theorem QueryParts.agree_self (q : QueryParts) : q.Agree Eq (fun _ _ a b => a = b) q :=
  { cores := List.forall₂_same.mpr fun c _ => c.agree_self
    orders := List.forall₂_same.mpr fun _ _ => rfl
    limit := optionRel_self Rendered.agree_self _
    offset := optionRel_self Rendered.agree_self _
    lock := rfl }

/-- Being equal is a law of the grammar between two styles with placeholders. -/
theorem grammarLaw_withStyle {s : Settings} {style : ParamStyle} (hs : s.paramStyle ≠ .inline)
    (hstyle : style ≠ .inline) :
    GrammarLaw Eq s (s.withStyle style) fun _ _ a b => a = b where
  dialect := rfl
  capabilities := rfl
  inline_iff := iff_of_false hstyle hs
  strength := by
    rintro l _ rfl
    rfl
  eq_of_oracle _ _ _ h := h
  empty := rfl
  note _ := rfl
  sql _ _ _ _ := rfl
  verbatim _ := rfl
  ident _ := rfl
  literal := by
    rintro l _ rfl
    cases l <;> rfl
  param := by
    intro name v v' h
    have hstyle' : (s.withStyle style).paramStyle ≠ .inline := hstyle
    rw [eq_of_optionRel (fun _ _ => id) h]
    unfold emitParam
    rw [if_neg hs, if_neg hstyle']
  fail _ _ _ := rfl
  failNotLiteral := by
    intro i j e e' h
    rw [Expr.eq_of_agree (fun _ _ => id) e e' h]
  append := by
    rintro i j k a _ b _ rfl rfl
    rfl
  lift h := h
  aliased := by
    intro _ q q' p p' f f' hq hp hf
    -- Both probes are written with `?`, so the same decision is made from them.
    have hprobe := Probe.eq_of_agree (hp hs)
    have hparts := QueryParts.eq_of_agree hq
    subst hprobe hparts
    have hself : ∀ t : QueryParts, f t = f' t := fun t => hf t t (QueryParts.agree_self t)
    rw [funext hself]

/-- A statement has the same pieces, notes and faults for all styles with placeholders. -/
theorem Statement.emit_withStyle {s : Settings} {style : ParamStyle} (hs : s.paramStyle ≠ .inline)
    (hstyle : style ≠ .inline) (st : Statement) : st.emit (s.withStyle style) = st.emit s :=
  (Statement.emit_agree (grammarLaw_withStyle hs hstyle) (st.agree_self fun _ => rfl)).symm

/-- An expression has the same pieces, notes and faults for all styles with placeholders. -/
theorem Expr.emit_withStyle {s : Settings} {style : ParamStyle} (hs : s.paramStyle ≠ .inline)
    (hstyle : style ≠ .inline) (e : Expr) : e.emit (s.withStyle style) = e.emit s :=
  (e.emit_agree (grammarLaw_withStyle hs hstyle) e (e.agree_self fun _ => rfl)).symm

/-- The projections of all cores are emitted one by one. -/
theorem emitProjections_eq_map (s : Settings) (cs : List Core) :
    emitProjections s cs = (cs.flatMap (·.projections)).map (·.emit s) := by
  induction cs with
  | nil => rfl
  | cons c cs ih =>
    obtain ⟨setOp, distinct, projections, source, wheres, groups, havings⟩ := c
    rw [emitProjections, ih, emitEach_eq_map, List.flatMap_cons, List.map_append]

/-- What is looked at to order a query by aliases is the same for every style. -/
theorem Select.probe_eq (s : Settings) {q : Select} (h : q.orders ≠ []) :
    q.probe s = ⟨(q.cores.flatMap (·.projections)).map (·.emit (s.withStyle .questionMark)),
      q.orders.map (·.emit (s.withStyle .questionMark))⟩ := by
  rw [probe, if_neg (by simpa using h)]
  -- Inline the probe is emitted apart; otherwise the emission at hand serves as it is.
  split
  · rw [emitProjections_eq_map, emitOrders_eq_map]
  · next hs =>
    have hemit : ∀ e : Expr, e.emit (s.withStyle .questionMark) = e.emit s :=
      Expr.emit_withStyle hs (by decide)
    have hprojections : (emitCores s q.cores).flatMap (·.projections)
        = (q.cores.flatMap (·.projections)).map (·.emit s) := by
      rw [emitCores_eq_map, List.flatMap_map, List.map_flatMap]
      rfl
    simp only [hprojections, emitOrders_eq_map, OrderTerm.emit, hemit]

/-- Where parameters are written as literals, there are none among the pieces. -/
theorem pieceLaw_inline : PieceLaw .inline fun _ _ ps => Piece.paramCount ps = 0 where
  nil := rfl
  sql _ _ _ _ := rfl
  verbatim _ := rfl
  ident _ := rfl
  string _ := rfl
  param h _ _ := absurd rfl h
  append hp hq := by rw [Piece.paramCount_append, hp, hq]
  lift h := h

/-! ## Compiled statements -/

/-- The text that options put after every statement. -/
def Options.closing (o : Options) : String :=
  if o.signatureComment then signature o.target.dialect else ""

/-- A signature is put after the text, and the parameters stay. -/
theorem Compiled.signed_eq (c : Compiled) (o : Options) :
    c.signed o o.target.dialect = ⟨c.sql ++ o.closing, c.params⟩ := by
  unfold Compiled.signed Options.closing
  split
  · rfl
  · rw [String.append_empty]

/-- A statement is compiled to the pieces that it emits, with the closing text after them. -/
theorem outcome_compile_iff {o : Options} {st : Statement} {layout : String → String}
    (hlayout : o.Keeps layout) {c : Compiled} :
    (compile o st layout).outcome = .ok c ↔ o.choices.capabilities.maxInList ≠ some 0 ∧
      ∃ ps, (st.emit o.choices).outcome = .ok ps ∧
        c = ⟨(Piece.compiled o.choices.paramStyle ps).sql ++ o.closing,
          (Piece.compiled o.choices.paramStyle ps).params⟩ := by
  rw [outcome_compile]
  split
  · next hmax => simp [hmax]
  · next hmax =>
    cases (st.emit o.choices).outcome with
    | error e => simp [Except.bind]
    | ok ps => simp [Except.bind, hmax, Compiled.signed_eq, Compiled.laidOut_eq hlayout, eq_comm]

/-- The options without a layout over several lines. -/
def Options.unformatted (o : Options) : Options :=
  { o with format := false }

/-- The options with another style. -/
def Options.withStyle (o : Options) (style : ParamStyle) : Options :=
  { o with paramStyle := some style }

/-- What a statement is compiled to with placeholders, in terms of its pieces for `?`. -/
theorem outcome_compile_withStyle (o : Options) (st : Statement) (style : ParamStyle)
    (hstyle : style ≠ .inline) {layout : String → String} (hlayout : o.Keeps layout) :
    (compile (o.withStyle style) st layout).outcome
      = if o.choices.capabilities.maxInList = some 0 then .error .zeroMaxInList
        else (st.emit (o.withStyle .questionMark).choices).outcome.bind fun ps =>
          .ok ((Piece.segments o.closing ps).withPlaceholders style.marker) := by
  have hquestion : (o.withStyle .questionMark).choices.paramStyle ≠ .inline :=
    fun h => ParamStyle.noConfusion h
  have hemit : st.emit (o.withStyle style).choices
      = st.emit (o.withStyle .questionMark).choices :=
    Statement.emit_withStyle hquestion hstyle st
  rw [outcome_compile, hemit]
  simp only [Compiled.laidOut_eq (o := o.withStyle style) hlayout, Compiled.signed_eq,
    Piece.compiled_segments]
  rfl

/-- For every statement and all options, the three styles with placeholders fail with the same
fault, or they write the same segments, with the placeholders `?`, `:a1`, `:a2`, … or `$1`, `$2`, …
in the gaps and the parameter of each gap bound to its placeholder. Where parameters are written as
literals, none is bound. -/
theorem compile_placeholders (o : Options) (st : Statement) (layout : String → String) :
    ((∃ e, (compile (o.unformatted.withStyle .questionMark) st layout).outcome = .error e ∧
        (compile (o.unformatted.withStyle .colon) st layout).outcome = .error e ∧
        (compile (o.unformatted.withStyle .dollar) st layout).outcome = .error e) ∨
      ∃ g : Segments (String × Option Literal),
        (compile (o.unformatted.withStyle .questionMark) st layout).outcome
          = .ok (g.withPlaceholders fun _ => "?") ∧
        (compile (o.unformatted.withStyle .colon) st layout).outcome
          = .ok (g.withPlaceholders fun n => ":a" ++ toString n) ∧
        (compile (o.unformatted.withStyle .dollar) st layout).outcome
          = .ok (g.withPlaceholders fun n => "$" ++ toString n)) ∧
    ∀ c, (compile (o.unformatted.withStyle .inline) st layout).outcome = .ok c →
      c.params = [] := by
  have hlayout : o.unformatted.Keeps layout := Options.keeps_of_unformatted rfl layout
  constructor
  · rw [outcome_compile_withStyle o.unformatted st .questionMark (by decide) hlayout,
      outcome_compile_withStyle o.unformatted st .colon (by decide) hlayout,
      outcome_compile_withStyle o.unformatted st .dollar (by decide) hlayout]
    -- The check of the settings fails alike for all styles.
    split
    · exact .inl ⟨_, rfl, rfl, rfl⟩
    · cases (st.emit (o.unformatted.withStyle .questionMark).choices).outcome with
      | error e => exact .inl ⟨e, rfl, rfl, rfl⟩
      | ok ps => exact .inr ⟨Piece.segments o.unformatted.closing ps, rfl, rfl, rfl⟩
  · intro c hc
    rw [outcome_compile] at hc
    split at hc
    · cases hc
    · cases hps : (st.emit (o.unformatted.withStyle .inline).choices).outcome with
      | error e =>
        rw [hps] at hc
        cases hc
      | ok ps =>
        rw [hps] at hc
        -- No piece is a parameter, so nothing is left to bind.
        have hcount : Piece.paramCount ps = 0 := PieceLaw.statement pieceLaw_inline hps
        rw [← Except.ok.inj hc, Compiled.signed_eq]
        exact Piece.params_of_paramCount hcount _ _

end SqlCompiler
