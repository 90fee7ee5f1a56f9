import SqlCompiler.Proofs.Nodes.Dialects

/-!
# What Oracle can express

Oracle has no set operators that keep duplicates but the union, no row bounds on a locked query that
has to be wrapped, and no ordered changes of a limited number of rows. A statement that asks for any
of this is not compiled, however deep in it the query lies that asks (`compile_expressible`).

A query is written with the ordering that it is left with when its terms have been put in terms of
aliases (`Select.orderedByAlias`). That ordering may have no terms at all, where the query's own one
is nothing but commas; its limit then becomes a condition, as without an ordering
(`not_expressible_of_commas`).
-/

namespace SqlCompiler

/-! ## Conditions on queries and changes -/

/-- Any `limit` rows of the query will do: it has one core, and no ordering, grouping or duplicate
elimination. -/
def Select.canPushLimit (q : Select) : Bool :=
  match q.cores with
  | [c] => q.orders.isEmpty && c.groups.isEmpty && c.havings.isEmpty && !c.distinct
  | _ => false

/-- A row bound can be counted up to: if it is a literal, it is an integer that is not negative. -/
def Expr.IsCountable (e : Expr) : Prop :=
  ∀ l, e = .literal l → ∃ n : Int64, l = .integer n ∧ 0 ≤ n

/-- The row bounds of a query can be kept by row number. -/
structure Select.Countable (q : Select) : Prop where
  locked : q.lock ≠ none → q.offset = none ∧ (q.limit = none ∨ q.canPushLimit = true)
  limit : ∀ e ∈ q.limit, e.IsCountable
  offset : ∀ e ∈ q.offset, e.IsCountable
  sum : ∀ o l : Int64, q.offset = some (.int o) → q.limit = some (.int l) →
    o.toInt + l.toInt ≤ Int64.maxValue.toInt

/-- A query asks for nothing that Oracle lacks, apart from the nodes that it is written from. -/
structure Select.Expressible (s : Settings) (q : Select) : Prop where
  sets : ∀ c ∈ q.cores, ∀ op ∈ c.setOp, op.all = true → op.kind = .union
  fetched : s.capabilities.pagination = .fetchFirst → q.lock ≠ none →
    q.limit = none ∧ q.offset = none
  counted : s.capabilities.pagination = .rowNumber → q.Countable

/-- A choice of rows asks for nothing that Oracle lacks: it is not both ordered and limited, and row
bounds come with a key. -/
structure RowChoice.Expressible (r : RowChoice) : Prop where
  orders : r.orders = [] ∨ r.limit = none
  key : r.limit ≠ none ∨ r.offset ≠ none → r.key ≠ none

/-- A statement asks for nothing that Oracle lacks, apart from the nodes that it is written from. -/
def Statement.Expressible : Statement → Prop
  | .select _ => True
  | .update u => u.rows.Expressible
  | .delete d => d.rows.Expressible

/-- Whether a query has an ordering is all that matters of it. -/
theorem Select.Expressible.of_orders {s : Settings} {q : Select} {orders : List OrderTerm}
    (h : Select.Expressible s { q with orders }) (horders : orders = [] → q.orders = []) :
    q.Expressible s := by
  refine ⟨h.sets, h.fetched, fun hp => ?_⟩
  have hcountable := h.counted hp
  refine ⟨fun hlock => ?_, hcountable.limit, hcountable.offset, hcountable.sum⟩
  obtain ⟨hoffset, hlimit⟩ := hcountable.locked hlock
  refine ⟨hoffset, hlimit.imp_right fun hpush => ?_⟩
  unfold canPushLimit at hpush ⊢
  -- A limit can become a condition in one core only.
  split at hpush
  · next c hc =>
    have hc : q.cores = [c] := hc
    simp only [hc, Bool.and_eq_true, List.isEmpty_iff] at hpush ⊢
    exact ⟨⟨⟨horders hpush.1.1.1, hpush.1.1.2⟩, hpush.1.2⟩, hpush.2⟩
  · cases hpush

/-! ## The ordering that is written -/

/-- The query ordered by aliases, if it has projections for its ordering terms. -/
def Select.orderedByAlias (s : Settings) (q : Select) : Traced Select :=
  if q.orders.isEmpty then .ok q
  else
    (anyMarked (q.probe s).projections).bind fun marked =>
      if marked then
        (orderTexts .questionMark (q.probe s).orders).bind fun terms =>
        (Traced.note (.orderAliases terms.length)).bind fun _ =>
          .ok { q with orders := terms.mapIdx aliasTerm }
      else .ok q

section Orderings

variable {s : Settings} {q : Select}

/-- A chain of computations succeeds if both of them do. -/
theorem Traced.succeeds_bind {α β : Type} {x : Traced α} {f : α → Traced β} :
    (x.bind f).Succeeds ↔ ∃ a, x.outcome = .ok a ∧ (f a).Succeeds := by
  constructor
  · rintro ⟨b, h⟩
    obtain ⟨a, ha, hb⟩ := Traced.outcome_bind_ok h
    exact ⟨a, ha, b, hb⟩
  · rintro ⟨a, ha, b, hb⟩
    exact ⟨b, (Traced.outcome_bind_of_ok ha f).trans hb⟩

/-- Orderings whose terms are known have been written. -/
theorem succeeds_of_orderTexts {style : ParamStyle} {es : List Emission}
    (h : (orderTexts style es).Succeeds) : ∀ e ∈ es, e.Succeeds := by
  induction es with
  | nil => simp
  | cons e es ih =>
    obtain ⟨text, htext, h⟩ := Traced.succeeds_bind.mp h
    obtain ⟨ps, hps, -⟩ := Traced.outcome_bind_ok htext
    obtain ⟨rest, hrest, -⟩ := Traced.succeeds_bind.mp h
    exact List.forall_mem_cons.mpr ⟨⟨ps, hps⟩, ih ⟨rest, hrest⟩⟩

/-- The parts of a query are ordered by aliases as the query is. -/
theorem Select.orderedParts_eq_bind (s : Settings) (q : Select) :
    q.orderedParts s = (q.orderedByAlias s).bind fun q => .ok (q.parts s) := by
  have hempty : (q.parts s).orders.isEmpty = q.orders.isEmpty := by
    rw [parts_eq, List.isEmpty_map]
  rw [orderedParts, QueryParts.orderedByAlias, orderedByAlias, hempty]
  -- Without terms the ordering is left alone, and so it is without a marked projection.
  split
  · rfl
  · rw [Traced.bind_assoc]
    congr 1
    funext marked
    cases marked with
    | false => rfl
    | true =>
      simp only [if_true, Traced.bind_assoc, Traced.ok_bind]
      simp only [parts_eq, emit_aliasTerms]

/-- A query is written for Oracle from its parts, ordered by aliases. -/
theorem Select.emit_oracle_eq_bind (hd : s.dialect = .oracle) (q : Select) :
    q.emit s = (q.orderedByAlias s).bind fun q => (q.parts s).oracle s := by
  simp only [emit_oracle hd, orderedParts_eq_bind, Traced.bind_assoc, Traced.ok_bind]

/-- The style of parameters is not looked at to order a query by aliases. -/
theorem Select.orderedByAlias_withStyle (style : ParamStyle) :
    q.orderedByAlias (s.withStyle style) = q.orderedByAlias s := by
  by_cases h : q.orders = []
  · rw [orderedByAlias, orderedByAlias, if_pos (by simpa using h), if_pos (by simpa using h)]
  · rw [orderedByAlias, orderedByAlias, probe_eq _ h, probe_eq _ h]
    rfl

/-- Only the ordering of a query is changed, and if it is, all terms of it have been written with
question marks. -/
theorem Select.orderedByAlias_inversion {q' : Select}
    (h : (q.orderedByAlias s).outcome = .ok q') :
    ∃ orders, q' = { q with orders } ∧ (orders = q.orders ∨
      ∀ o ∈ q.orders, (o.expr.emit (s.withStyle .questionMark)).Succeeds) := by
  have hsame : q' = q → ∃ orders, q' = { q with orders } ∧ orders = q.orders := by
    rintro rfl
    cases q'
    exact ⟨_, rfl, rfl⟩
  unfold orderedByAlias at h
  split at h
  · obtain ⟨orders, hq', ho⟩ := hsame (Except.ok.inj h).symm
    exact ⟨orders, hq', .inl ho⟩
  · next hempty =>
    obtain ⟨marked, -, h⟩ := Traced.outcome_bind_ok h
    cases marked with
    | false =>
      obtain ⟨orders, hq', ho⟩ := hsame (Except.ok.inj h).symm
      exact ⟨orders, hq', .inl ho⟩
    | true =>
      obtain ⟨terms, hterms, h⟩ := Traced.outcome_bind_ok h
      refine ⟨_, (Except.ok.inj h).symm, .inr fun o ho => ?_⟩
      rw [probe_eq s (by simpa using hempty)] at hterms
      exact (succeeds_order _ o).mp (succeeds_of_orderTexts ⟨terms, hterms⟩ _
        (List.mem_map_of_mem ho))

end Orderings

/-! ## Cores and row bounds -/

section Bounds

variable {s : Settings} {q : Select}

/-- Oracle keeps duplicates only in a union. -/
theorem SetOperator.succeeds_emit_oracle (hd : s.dialect = .oracle) (op : SetOperator) :
    (op.emit s).Succeeds ↔ (op.all = true → op.kind = .union) := by
  obtain ⟨kind, all⟩ := op
  cases kind <;> cases all <;> simp [emit, hd]

/-- Of cores that are written, each is written, with its set operator. -/
theorem succeeds_of_laterCores {index : Nat} {cs : List CoreParts}
    (h : (laterCores s index cs).Succeeds) :
    ∀ c ∈ cs, (∀ op ∈ c.setOp, (op.emit s).Succeeds) ∧ c.emit.Succeeds := by
  induction cs generalizing index with
  | nil => simp
  | cons c cs ih =>
    rw [laterCores, succeeds_append] at h
    refine List.forall_mem_cons.mpr ⟨?_, ih h.2⟩
    cases hop : c.setOp with
    | none => simp [hop] at h
    | some op => simpa [hop, and_assoc] using h.1

/-- Where the cores are written, each core and each operator is. -/
theorem succeeds_of_coreParts {cs : List CoreParts} (h : (emitCoreParts s cs).Succeeds) :
    ∀ c ∈ cs, (∀ op ∈ c.setOp, (op.emit s).Succeeds) ∧ c.emit.Succeeds := by
  cases cs with
  | nil => simp
  | cons c cs =>
    rw [emitCoreParts, succeeds_append] at h
    refine List.forall_mem_cons.mpr ⟨?_, succeeds_of_laterCores h.2⟩
    cases hop : c.setOp with
    | none => simpa [hop] using h.1
    | some op => simp [hop] at h

/-- A row bound with a known value is a number of rows, and any other is no literal. -/
theorem constantBound_inversion {bound : RowBound} {e : Expr} {n : Option Int64}
    (h : constantBound bound e = .ok n) :
    (∃ k : Int64, e = .int k ∧ 0 ≤ k ∧ n = some k) ∨ (∀ l, e ≠ .literal l) ∧ n = none := by
  unfold constantBound at h
  split at h
  · next k =>
    split at h
    · cases h
    · next hneg => exact .inl ⟨k, rfl, Int64.not_lt.mp hneg, (Except.ok.inj h).symm⟩
  · cases h
  · next hliteral => exact .inr ⟨hliteral, (Except.ok.inj h).symm⟩

/-- A row bound that passes the check can be counted. -/
theorem isCountable_of_checkBound {bound : RowBound} {e : Option Expr}
    (h : checkBound bound (e.map (·.rendered s)) = .ok ()) : ∀ x ∈ e, x.IsCountable := by
  rintro x rfl
  cases hx : constantBound bound x with
  | error f => simp [checkBound, Expr.rendered, hx, Except.map] at h
  | ok n =>
    obtain ⟨k, rfl, hk, -⟩ | ⟨hliteral, -⟩ := constantBound_inversion hx
    · intro l hl
      exact ⟨k, (Expr.literal.inj hl).symm, hk⟩
    · exact fun l hl => absurd hl (hliteral l)

/-- A last row that is written is a 64-bit integer, or a sum that is written from the limit. -/
theorem succeeds_of_lastRow {offset limit : Expr}
    (h : (emitLastRow (offset.rendered s) (limit.rendered s)).Succeeds) :
    (limit.emit s).Succeeds ∧ ∀ o l : Int64, offset = .int o → limit = .int l →
      o.toInt + l.toInt ≤ Int64.maxValue.toInt := by
  obtain ⟨o, ho, h⟩ := Traced.succeeds_bind.mp h
  obtain ⟨l, hl, h⟩ := Traced.succeeds_bind.mp h
  have ho : constantBound .offset offset = .ok o := ho
  -- Only where both bounds are constants is there a sum that must be in range.
  obtain ⟨k, rfl, -, rfl⟩ | ⟨hlimit, rfl⟩ := constantBound_inversion hl
  · refine ⟨⟨_, rfl⟩, ?_⟩
    rintro i j rfl hj
    obtain ⟨i, hi, -, rfl⟩ | ⟨hoffset, -⟩ := constantBound_inversion ho
    · cases hi
      cases hj
      by_contra hsum
      simp [hsum] at h
    · exact absurd rfl (hoffset _)
  · have hsum : (Emission.parens ((offset.rendered s).emission ++ .sql " + "
        ++ (limit.rendered s).emission)).Succeeds := by
      cases o <;> exact h
    refine ⟨?_, fun i j hi hj => absurd hj (hlimit _)⟩
    rw [succeeds_parens, succeeds_append] at hsum
    exact hsum.2

/-- Whether any rows will do is decided without looking at what the parts yield. -/
theorem Select.parts_canPushLimit (q : Select) : (q.parts s).canPushLimit = q.canPushLimit := by
  rw [parts_eq, QueryParts.canPushLimit, canPushLimit]
  match q.cores with
  | [] => rfl
  | [c] => simp [Core.parts]
  | _ :: _ :: _ => rfl

/-- A limit becomes a condition only in a query of one core. -/
theorem Select.exists_core_of_canPushLimit (h : q.canPushLimit = true) : ∃ c, q.cores = [c] := by
  unfold canPushLimit at h
  split at h
  · next c hc => exact ⟨c, hc⟩
  · cases h

/-- The cores of a query keep duplicates only in unions, and what it is written from is written. -/
structure Select.Written (s : Settings) (q : Select) : Prop where
  sets : ∀ c ∈ q.cores, ∀ op ∈ c.setOp, op.all = true → op.kind = .union
  children : ∀ n ∈ q.children, (n.emit s).Succeeds

/-- A query whose standard form succeeds has all its nodes and operators written. -/
theorem Select.written_of_standard (hd : s.dialect = .oracle)
    (h : ((q.parts s).standard s).Succeeds) : q.Written s := by
  rw [parts_eq, QueryParts.succeeds_standard, succeeds_bounds] at h
  obtain ⟨hcores, horders, -, hlimit, hoffset⟩ := h
  have hcores := List.forall_mem_map.mp (succeeds_of_coreParts hcores)
  constructor
  · intro c hc op hop
    exact (SetOperator.succeeds_emit_oracle hd op).mp ((hcores c hc).1 op hop)
  · simp only [children, List.forall_mem_append, List.forall_mem_flatMap, List.forall_mem_map,
      Option.mem_toList, Node.emit_expr]
    simp only [List.forall_mem_map, succeeds_order] at horders
    exact ⟨⟨⟨fun c hc => ((Core.succeeds_emit_iff s c).mp (hcores c hc).2).2, horders⟩, hlimit⟩,
      hoffset⟩

/-- A query is written if it is without its row bounds and they are. -/
theorem Select.written_of_unbounded (h : q.unbounded.Written s)
    (hlimit : ∀ e ∈ q.limit, (e.emit s).Succeeds) (hoffset : ∀ e ∈ q.offset, (e.emit s).Succeeds) :
    q.Written s := by
  refine ⟨h.sets, fun n hn => ?_⟩
  simp only [children, List.mem_append, List.mem_map, Option.mem_toList] at hn
  obtain (hn | ⟨e, he, rfl⟩) | ⟨e, he, rfl⟩ := hn
  · exact h.children n (by simpa [unbounded, children] using hn)
  · exact hlimit e he
  · exact hoffset e he

/-- A query is written if it is with its limit as a condition. -/
theorem Select.written_of_pushLimit {c : Core} (hcores : q.cores = [c]) {limit : Expr}
    (hmax : s.capabilities.maxInList ≠ some 0) (hlimit : q.limit = some limit)
    (h : (q.pushLimit limit).Written s) : q.Written s := by
  -- The limit is written as the right side of the comparison.
  have hcondition : Node.expr (.binary (.raw "ROWNUM") .ltEq limit)
      ∈ (q.pushLimit limit).children := by
    simp [pushLimit, children, Core.children, hcores]
  have hemit : (limit.emit s).Succeeds :=
    ((Expr.succeeds_emit_iff s hmax _).mp (h.children _ hcondition)).2 (.expr limit) (by
      simp [Expr.children])
  refine ⟨by simpa [pushLimit] using h.sets, fun n hn => ?_⟩
  by_cases hn' : n = .expr limit
  · exact hn' ▸ hemit
  · apply h.children
    simp only [children, pushLimit, Core.children, hcores, hlimit, List.map_cons, List.map_nil,
      List.map_append, List.flatMap_cons, List.flatMap_nil, List.append_nil, Option.toList,
      List.mem_append, List.mem_singleton] at hn ⊢
    tauto

/-- Of a query that is wrapped all is written, and its last row is a 64-bit integer if both row
bounds are. -/
theorem Select.written_of_wrapped (hd : s.dialect = .oracle)
    (h : ((q.parts s).wrapped s).Succeeds) :
    q.Written s ∧ ∀ o l : Int64, q.offset = some (.int o) → q.limit = some (.int l) →
      o.toInt + l.toInt ≤ Int64.maxValue.toInt := by
  have hinner : ((q.parts s).unbounded.standard s).Succeeds → q.unbounded.Written s :=
    written_of_standard (q := q.unbounded) hd
  rw [parts_eq] at h hinner
  -- One form for each combination of bounds.
  obtain ⟨cores, orders, _ | limit, _ | offset, lock⟩ := q
  · exact ⟨written_of_standard hd (by rw [parts_eq]; exact h), by simp⟩
  · simp only [QueryParts.wrapped, Option.map_none, Option.map_some, succeeds_append] at h
    exact ⟨written_of_unbounded (hinner h.1.1.2) (by simp) (by simpa using h.2), by simp⟩
  · simp only [QueryParts.wrapped, Option.map_none, Option.map_some, succeeds_append] at h
    exact ⟨written_of_unbounded (hinner h.1.1.2) (by simpa using h.2) (by simp), by simp⟩
  · simp only [QueryParts.wrapped, Option.map_some, succeeds_append] at h
    obtain ⟨hlimit, hsum⟩ := succeeds_of_lastRow h.1.1.2
    exact ⟨written_of_unbounded (hinner h.1.1.1.1.2) (by simpa using hlimit) (by simpa using h.2),
      by simpa using hsum⟩

/-- A query whose rows are counted has row bounds that can be counted up to. -/
theorem Select.written_of_byRowNumber (hd : s.dialect = .oracle)
    (hmax : s.capabilities.maxInList ≠ some 0) (h : ((q.parts s).byRowNumber s).Succeeds) :
    q.Written s ∧ q.Countable := by
  obtain ⟨_, hlimit, h⟩ := Traced.succeeds_bind.mp h
  obtain ⟨_, hoffset, h⟩ := Traced.succeeds_bind.mp h
  rw [Traced.outcome_ofExcept, parts_eq] at hlimit hoffset
  have hlimit := isCountable_of_checkBound hlimit
  have hoffset := isCountable_of_checkBound hoffset
  -- Apart from a limit that becomes a condition, row bounds lead to a wrapped query without lock.
  have hwrapped : (if q.lock.isSome then .fail (.lockedEmulation s.dialect)
      else (q.parts s).wrapped s : Emission).Succeeds → q.Written s ∧ q.Countable := by
    intro h
    split at h
    · exact absurd h (not_succeeds_fail _)
    · next hlock =>
      obtain ⟨hwritten, hsum⟩ := written_of_wrapped hd h
      exact ⟨hwritten, ⟨fun hne => absurd (by simpa using hlock) hne, hlimit, hoffset, hsum⟩⟩
  rw [parts_canPushLimit] at h
  obtain ⟨cores, orders, _ | limit, _ | offset, lock⟩ := q
  · exact ⟨written_of_standard hd h, ⟨fun _ => ⟨rfl, .inl rfl⟩, hlimit, hoffset, by simp⟩⟩
  · exact hwrapped h
  · by_cases hpush : canPushLimit ⟨cores, orders, some limit, none, lock⟩ = true
    · simp only [if_pos hpush] at h
      obtain ⟨c, rfl⟩ := exists_core_of_canPushLimit hpush
      have hpushed := ((succeeds_append _ _).mp h).2
      rw [← parts_pushLimit] at hpushed
      exact ⟨written_of_pushLimit rfl hmax rfl (written_of_standard hd hpushed),
        ⟨fun _ => ⟨rfl, .inr hpush⟩, hlimit, hoffset, by simp⟩⟩
    · simp only [if_neg hpush] at h
      exact hwrapped h
  · exact hwrapped h

/-- A query that is written for Oracle with the ordering it has asks for nothing that Oracle
lacks. -/
theorem Select.expressible_of_oracle (hd : s.dialect = .oracle)
    (hmax : s.capabilities.maxInList ≠ some 0) (h : ((q.parts s).oracle s).Succeeds) :
    q.Written s ∧ q.Expressible s := by
  unfold QueryParts.oracle at h
  -- The clause for row bounds decides on the form, and only two of them refuse locks.
  cases hp : s.capabilities.pagination with
  | limitOffset =>
    simp only [hp] at h
    have hwritten := written_of_standard hd h
    exact ⟨hwritten, ⟨hwritten.sets, by simp [hp], by simp [hp]⟩⟩
  | fetchFirst =>
    simp only [hp] at h
    split at h
    · exact absurd h (Traced.not_succeeds_fail _)
    · next hlocked =>
      have hwritten := written_of_standard hd h
      refine ⟨hwritten, ⟨hwritten.sets, fun _ hlock => ?_, by simp [hp]⟩⟩
      simpa [parts_eq, Option.isSome_iff_ne_none, hlock] using hlocked
  | rowNumber =>
    simp only [hp] at h
    obtain ⟨hwritten, hcountable⟩ := written_of_byRowNumber hd hmax h
    exact ⟨hwritten, ⟨hwritten.sets, by simp [hp], fun _ => hcountable⟩⟩

end Bounds

/-! ## Nodes that are reached -/

/-- With the ordering that it is left with, a query asks for nothing that Oracle lacks. -/
def Select.Admissible (s : Settings) (q : Select) : Prop :=
  ∃ orders, (q.orderedByAlias s).outcome = .ok { q with orders } ∧
    Select.Expressible s { q with orders }

/-- A node is written, with parameters in some style. -/
def Node.Written (s : Settings) (m : Node) : Prop :=
  ∃ style, (m.emit (s.withStyle style)).Succeeds

section Nodes

variable {s : Settings}

/-- A query that is written for Oracle is admissible. Terms of its ordering that are replaced by
aliases were written before, with question marks. -/
theorem Select.admissible_of_succeeds (hd : s.dialect = .oracle)
    (hmax : s.capabilities.maxInList ≠ some 0) {q : Select} (h : (q.emit s).Succeeds) :
    q.Admissible s ∧ ∀ c ∈ q.children,
      (c.emit s).Succeeds ∨ (c.emit (s.withStyle .questionMark)).Succeeds := by
  rw [emit_oracle_eq_bind hd] at h
  obtain ⟨q', hq', h⟩ := Traced.succeeds_bind.mp h
  obtain ⟨hwritten, hexpressible⟩ := expressible_of_oracle hd hmax h
  obtain ⟨orders, rfl, horders⟩ := orderedByAlias_inversion hq'
  refine ⟨⟨orders, hq', hexpressible⟩, fun c hc => ?_⟩
  have hchildren := hwritten.children c
  simp only [children, List.mem_append] at hc hchildren
  -- All nodes are written as they are, but the ordering may be probed only.
  obtain ((hc | hc) | hc) | hc := hc
  · exact .inl (hchildren (.inl (.inl (.inl hc))))
  · obtain ⟨o, ho, rfl⟩ := List.mem_map.mp hc
    obtain rfl | horders := horders
    · exact .inl (hchildren (.inl (.inl (.inr hc))))
    · exact .inr (horders o ho)
  · exact .inl (hchildren (.inl (.inr hc)))
  · exact .inl (hchildren (.inr hc))

/-- The children of a written node are written. -/
theorem Node.Written.child (hd : s.dialect = .oracle) (hmax : s.capabilities.maxInList ≠ some 0)
    {m c : Node} (hc : c ∈ m.children) (h : m.Written s) : c.Written s := by
  obtain ⟨style, h⟩ := h
  cases m with
  | expr e => exact ⟨style, ((e.succeeds_emit_iff (s.withStyle style) hmax).mp h).2 c hc⟩
  | query q =>
    obtain h | h := (Select.admissible_of_succeeds (s := s.withStyle style) hd hmax h).2 c hc
    · exact ⟨style, h⟩
    · exact ⟨.questionMark, h⟩

/-- What is visited with a node that is written is written. -/
theorem Node.Written.visits (hd : s.dialect = .oracle) (hmax : s.capabilities.maxInList ≠ some 0)
    {m n : Node} (h : m.Written s) (hn : m.Visits n) : n.Written s := by
  induction hn with
  | refl => exact h
  | tail _ hc ih => exact ih.child hd hmax hc

/-- A written query is one that Oracle can express. -/
theorem Node.Written.admissible (hd : s.dialect = .oracle)
    (hmax : s.capabilities.maxInList ≠ some 0) {q : Select} (h : (Node.query q).Written s) :
    q.Admissible s := by
  obtain ⟨style, h⟩ := h
  obtain ⟨orders, ho, hq⟩ :=
    (Select.admissible_of_succeeds (s := s.withStyle style) hd hmax h).1
  rw [Select.orderedByAlias_withStyle] at ho
  -- The style of parameters is not among what Oracle may lack.
  exact ⟨orders, ho, ⟨hq.sets, hq.fetched, hq.counted⟩⟩

end Nodes

/-- The nodes that Oracle is given of a choice of rows. There is no ordering among them, and where
the rows are chosen by a key, the query for the keys is one of them. -/
def RowChoice.reached (relation : TableRef) (r : RowChoice) : List Node :=
  match r.key with
  | some key =>
    if r.unordered.needsSubselect then [.expr key, .query (r.unordered.subselect relation key)]
    else r.unordered.children
  | none => r.unordered.children

/-- The nodes that Oracle is given of a statement. -/
def Statement.reached : Statement → List Node
  | .select q => [.query q]
  | .update u => u.assignments.map (fun a => .expr a.value) ++ u.rows.reached u.relation
  | .delete d => d.rows.reached d.relation

/-- A node is reached when a statement is written for Oracle. -/
def Statement.Reaches (st : Statement) (n : Node) : Prop :=
  ∃ c ∈ st.reached, c.Visits n

section Statements

variable {s : Settings}

/-- What Oracle is given of a choice of rows is written with it. -/
theorem RowChoice.succeeds_of_emit {relation : TableRef} {r : RowChoice}
    (h : (r.unordered.emit s relation).Succeeds) :
    ∀ c ∈ r.reached relation, (c.emit s).Succeeds := by
  have hplain : r.key = none ∨ r.unordered.needsSubselect = false →
      (r.unordered.emitPlain s).Succeeds → ∀ c ∈ r.unordered.children, (c.emit s).Succeeds :=
    fun hkey h => ((succeeds_emitPlain hkey).mp h).2
  have hkey : r.unordered.key = r.key := rfl
  rw [RowChoice.emit, hkey] at h
  unfold reached
  -- Without a key the choice cannot be put into a subquery.
  cases hkey : r.key with
  | none => exact hplain (.inl hkey) (by simpa only [hkey] using h)
  | some key =>
    simp only [hkey] at h ⊢
    split
    · next hsub =>
      simp only [if_pos hsub, succeeds_append] at h
      simpa using ⟨h.1.1.1.2, h.1.2⟩
    · next hsub => exact hplain (.inr (by simpa using hsub)) (by simpa only [if_neg hsub] using h)

/-- A choice of rows that Oracle is given has nothing that it lacks. -/
theorem RowChoice.expressible_of_admitted (hd : s.dialect = .oracle) {change : ChangeKind}
    {r r' : RowChoice} (h : (r.admitted s change).outcome = .ok r') :
    r' = r.unordered ∧ r.Expressible := by
  obtain ⟨rfl, horders, hkey⟩ := admitted_ok hd h
  simp only [Option.isSome_iff_ne_none] at hkey
  exact ⟨rfl, ⟨horders, hkey⟩⟩

/-- A statement that is written for Oracle asks for nothing that it lacks, and what Oracle is given
of it is written. -/
theorem Statement.expressible_of_succeeds (hd : s.dialect = .oracle) {st : Statement}
    (h : (st.emit s).Succeeds) :
    st.Expressible ∧ ∀ c ∈ st.reached, (c.emit s).Succeeds := by
  cases st with
  | select q => exact ⟨trivial, List.forall_mem_singleton.mpr h⟩
  | update u =>
    obtain ⟨rows, hrows, h⟩ := Traced.succeeds_bind.mp h
    obtain ⟨rfl, hexpressible⟩ := RowChoice.expressible_of_admitted hd hrows
    refine ⟨hexpressible, ?_⟩
    split at h
    · exact absurd h (not_succeeds_fail _)
    · simp only [succeeds_append, succeeds_join, List.forall_mem_map, Assignment.emit] at h
      refine List.forall_mem_append.mpr ⟨?_, RowChoice.succeeds_of_emit h.2⟩
      exact List.forall_mem_map.mpr fun a ha => (h.1.2 a ha).2
  | delete d =>
    obtain ⟨rows, hrows, h⟩ := Traced.succeeds_bind.mp h
    obtain ⟨rfl, hexpressible⟩ := RowChoice.expressible_of_admitted hd hrows
    exact ⟨hexpressible, RowChoice.succeeds_of_emit ((succeeds_append _ _).mp h).2⟩

end Statements

/-- A statement that is compiled for Oracle asks for nothing that Oracle lacks, and neither does any
query that is reached in it, with the ordering that it is left with; nor with its own, unless all
terms of that are gone. -/
theorem compile_expressible {o : Options} (hd : o.target.dialect = .oracle) {st : Statement}
    {layout : String → String} {c : Compiled} (h : (compile o st layout).outcome = .ok c) :
    st.Expressible ∧ ∀ q, st.Reaches (.query q) →
      ∃ orders, (q.orderedByAlias o.choices).outcome = .ok { q with orders } ∧
        Select.Expressible o.choices { q with orders } ∧
        ((orders = [] → q.orders = []) → q.Expressible o.choices) := by
  rw [outcome_compile] at h
  split at h
  · cases h
  · next hmax =>
    have hemit : (st.emit o.choices).Succeeds := by
      cases he : (st.emit o.choices).outcome with
      | error f =>
        rw [he] at h
        cases h
      | ok ps => exact ⟨ps, he⟩
    obtain ⟨hst, hreached⟩ := Statement.expressible_of_succeeds (s := o.choices) hd hemit
    refine ⟨hst, ?_⟩
    rintro q ⟨n, hn, hq⟩
    -- From the nodes at the top down to whatever they reach.
    have hwritten : n.Written o.choices := ⟨o.choices.paramStyle, hreached n hn⟩
    obtain ⟨orders, horders, hexpressible⟩ := (hwritten.visits hd hmax hq).admissible hd hmax
    exact ⟨orders, horders, hexpressible, hexpressible.of_orders⟩

/-- A locked query with a limit may stand in the query for the keys of a deletion. It is reached,
and its limit can be a condition. -/
theorem expressible_of_locked_subquery :
    let o : Options := { format := false, target := ⟨some .oracle⟩, signatureComment := false }
    let locked : Select :=
      { (Select.fromTable "u" [.col "b"]).withLimit (.int 2) with lock := some .forUpdate }
    let st : Statement := .delete ⟨{ name := "t" },
      { wheres := [.inSubquery (.col "a") locked false], limit := some (.int 5)
        key := some (.col "k") }⟩
    let c : Compiled := ⟨"DELETE FROM t WHERE k IN (SELECT k FROM t WHERE a IN (SELECT b FROM u "
      ++ "WHERE ROWNUM <= 2 FOR UPDATE) AND ROWNUM <= 5)", []⟩
    (compile o st).outcome = .ok c ∧ st.Reaches (.query locked) ∧ st.Expressible ∧
      locked.Expressible o.choices := by
  intro o locked st c
  have hok : (compile o st).outcome = .ok c := by
    cbv
  have hreached : st.Reaches (.query locked) := by
    refine ⟨_, List.mem_cons_of_mem _ (List.mem_singleton.mpr rfl), ?_⟩
    refine .head (b := .expr (.inSubquery (.col "a") locked false)) ?_ (.single ?_)
    · exact List.mem_cons_of_mem _ List.mem_cons_self
    · exact List.mem_cons_of_mem _ List.mem_cons_self
  obtain ⟨hst, hqueries⟩ := compile_expressible rfl hok
  obtain ⟨orders, -, -, hlocked⟩ := hqueries locked hreached
  exact ⟨hok, hreached, hst, hlocked fun _ => rfl⟩

/-- A locked query whose ordering is nothing but commas is compiled with its limit as a condition,
if it has a projection for an ordering term. -/
theorem not_expressible_of_commas :
    let o : Options := { format := false, target := ⟨some .oracle⟩, signatureComment := false }
    let first : String := "FIRST_VALUE(a) OVER (PARTITION BY id ORDER BY a) AS alias_0__"
    let q : Select :=
      { (Select.fromTable "t" [.raw first]).withLimit (.int 1) with
        orders := [⟨.raw ",", none⟩], lock := some .forUpdate }
    let c : Compiled := ⟨"SELECT " ++ first ++ " FROM t WHERE ROWNUM <= 1 FOR UPDATE", []⟩
    (compile o (.select q)).outcome = .ok c ∧ (Statement.select q).Reaches (.query q) ∧
      ¬q.Expressible o.choices := by
  intro o first q c
  refine ⟨by cbv, ⟨_, List.mem_singleton.mpr rfl, .refl⟩, fun h => ?_⟩
  have hlocked := (h.counted rfl).locked (by decide)
  revert hlocked
  decide

end SqlCompiler
