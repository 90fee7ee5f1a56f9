import Mathlib
import SqlCompiler.Proofs.RowWindow.Evaluation
import SqlCompiler.Proofs.RowWindow.Wrapped

/-!
# A limit as a condition

Where rows are counted, the limit of a query with one core and no ordering, grouping or duplicate
elimination becomes a condition on the row number (`Select.pushLimit`). The rows are then cut off
before the projections are computed. That is as good as cutting off the result exactly if no
projection looks beyond its row: with an aggregate or a window function among the projections there
are rows and limits for which the wrong rows come back (`pushLimit_takesRows_iff`). The decision is
`can_push_limit`, and the condition `push_limit`.
-/

namespace SqlCompiler

/-- With its limit as a condition, a query has no row bounds left. -/
theorem QueryParts.outcome_byRowNumber_pushLimit (st : Settings) {q : QueryParts}
    (h : q.offset = none) (limit : Rendered) :
    ((q.pushLimit limit).byRowNumber st).outcome = ((q.pushLimit limit).standard st).outcome := by
  obtain ⟨cores, orders, _, _, lock⟩ := q
  subst h
  rfl

namespace Select

/-- A query whose limit can become a condition has one core and no ordering. -/
theorem canPushLimit_parts {st : Settings} {s : Select} (h : (s.parts st).canPushLimit = true) :
    (∃ c, s.cores = [c]) ∧ s.orders = [] := by
  obtain ⟨cores, orders, limit, offset, lock⟩ := s
  match cores, orders with
  | [c], [] => exact ⟨⟨c, rfl⟩, rfl⟩
  | [], _ => cases h
  | ⟨_, _, _, _, _, _, _⟩ :: ⟨_, _, _, _, _, _, _⟩ :: cs, _ =>
    simp [parts, emitCores, QueryParts.canPushLimit] at h
  | [⟨_, _, _, _, _, _, _⟩], ⟨_, _⟩ :: os =>
    simp [parts, emitCores, emitOrders, QueryParts.canPushLimit] at h

/-- A query whose limit can become a condition is emitted as the query with that condition. -/
theorem outcome_emit_pushLimit {st : Settings} (hd : st.dialect = .oracle)
    (hp : st.capabilities.pagination = .rowNumber) {s : Select} {limit : Bound}
    (hl : s.limit = some limit.expr) (ho : s.offset = none)
    (hpush : (s.parts st).canPushLimit = true) :
    (s.emit st).outcome = ((s.pushLimit limit.expr).emit st).outcome := by
  have horders := (canPushLimit_parts hpush).2
  have hlimit : (s.parts st).limit = some (limit.rendered st) := by
    simp only [parts, hl]
    rfl
  have hoffset : (s.parts st).offset = none := by
    simp only [parts, ho]
    rfl
  have hcheck : (Traced.ofExcept (checkBound .limit (s.parts st).limit)).outcome = .ok () := by
    rw [hlimit]
    exact QueryParts.outcome_checkBound st .limit (some limit)
  rw [emit_oracle hd, emit_oracle hd, orderedParts_of_orders_nil horders,
    orderedParts_of_orders_nil (s := s.pushLimit limit.expr) horders, Traced.outcome_bind,
    Traced.outcome_bind, parts_pushLimit]
  show ((s.parts st).oracle st).outcome = (QueryParts.oracle st _).outcome
  rw [QueryParts.oracle_of_rowNumber hp, QueryParts.oracle_of_rowNumber hp, QueryParts.byRowNumber,
    Traced.outcome_bind_of_ok hcheck, hoffset, hlimit]
  simp only [hpush, if_true]
  rw [QueryParts.outcome_byRowNumber_pushLimit st hoffset]
  -- What is left is the note that the limit has become a condition.
  show (Emission.note .limitPushed ++ _).outcome = _
  rw [Emission.outcome_note_append]
  rfl

end Select

/-- Rows are a choice of at most `l` among others: as many as there can be, and none more often than
it is there. -/
def TakesRows {α : Type} (l : Nat) (taken rows : List α) : Prop :=
  taken.length = min l rows.length ∧ (taken : Multiset α) ≤ (rows : Multiset α)

/-- The first rows are such a choice. -/
theorem takesRows_take {α : Type} (l : Nat) (rows : List α) : TakesRows l (rows.take l) rows :=
  ⟨List.length_take, Multiset.coe_le.mpr (List.take_sublist l rows).subperm⟩

namespace Engine

variable {v : Vocabulary} (I : Engine v)

/-- An expression has the number `l` as its value in every row. -/
def Denotes (e : Expr) (l : Nat) : Prop :=
  ∀ row, I.rowValue row e = I.number l

/-- An integer that is not negative has itself as its value. -/
theorem denotes_integer {n : Int64} (h : 0 ≤ n) :
    I.Denotes (.int n) n.toInt.toNat := by
  intro row
  rw [rowValue, value_eq]
  exact I.node_integer n row h

/-- The condition on the row number holds of the first rows. -/
theorem holds_rowNumberAtMost {limit : Expr} {l : Nat} (h : I.Denotes limit l) (r : I.Row)
    (n : Nat) :
    I.holds (I.rowValue (r, n) (.binary (.raw "ROWNUM") .ltEq limit)) = decide (n ≤ l) := by
  have hnumber : I.value [(r, n)] (r, n) 0 (.raw "ROWNUM") = I.number n := by
    rw [value_eq]
    simp only [Expr.reach, v.rawReach_rowNumber]
    exact I.node_rowNumber (r, n)
  have hlimit : I.value [(r, n)] (r, n) 0 limit = I.number l := h (r, n)
  rw [rowValue, value_eq]
  simp only [Expr.reach, Expr.operands, List.map_cons, List.map_nil, hnumber, hlimit]
  exact I.holds_ltEq _ _ _ n l

/-- With the condition on the row number, the first of the rows that pass are counted. -/
theorem counted_append_rowNumberAtMost {limit : Expr} {l : Nat} (h : I.Denotes limit l)
    (source : List I.Row) (wheres : List Expr) :
    I.counted source (wheres ++ [.binary (.raw "ROWNUM") .ltEq limit])
      = (I.counted source wheres).take l := by
  have hbound := countRows_and_le
    (fun r n => wheres.all fun w => I.holds (I.rowValue (r, n) w)) l 1 source
  rw [Nat.add_sub_cancel] at hbound
  rw [counted, counted, ← hbound]
  congr 1
  funext r n
  simp only [List.all_append, List.all_cons, List.all_nil, Bool.and_true,
    I.holds_rowNumberAtMost h]

/-- What a query with its limit as a condition selects from: the first of its counted rows. -/
theorem returned_pushLimit {limit : Expr} {l : Nat} (h : I.Denotes limit l)
    (source : List I.Row) {s : Select} {c : Core} (hc : s.cores = [c]) :
    I.returned source (s.pushLimit limit)
      = I.project c.selected ((I.counted source c.wheres).take l) := by
  rw [returned, Select.pushLimit, hc, ← I.counted_append_rowNumberAtMost h]
  simp [Core.selected]

/-- The sources of a query that selects row by row may be cut off before or after. -/
theorem takesRows_pushLimit {s : Select} {c : Core} (hc : s.cores = [c])
    (hrow : ∀ e ∈ c.projections, e.reaches v = []) {limit : Expr} {l : Nat}
    (h : I.Denotes limit l) (source : List I.Row) :
    TakesRows l (I.returned source (s.pushLimit limit)) (I.returned source s) := by
  have hselected : ∀ e ∈ c.selected, e.reaches v = [] := by
    intro e he
    unfold Core.selected at he
    split at he
    · -- All columns of a row are computed from the row too.
      rw [List.mem_singleton.mp he, Expr.reaches_eq]
      rfl
    · exact hrow e he
  have hall : I.returned source s = I.project c.selected (I.counted source c.wheres) := by
    rw [returned, hc]
    simp
  rw [I.returned_pushLimit h source hc, hall, I.project_of_reaches_nil hselected,
    I.project_of_reaches_nil hselected, List.map_take]
  exact takesRows_take l _

/-- The number that a node of the counting engine has as its value. -/
def tallyNumber (e : Expr) (row : Unit × Nat) (operands : List (Nat × Nat)) : Nat :=
  match e, operands with
  | .raw text, _ => if text = "ROWNUM" then row.2 else 0
  | .literal (.integer n), _ => n.toInt.toNat
  | .binary _ .ltEq _, [a, b] => if a.1 ≤ b.1 then 1 else 0
  | _, _ => 0

/-- An engine in which every aggregate and every window function counts its rows. A value is a
number, and beside it the rows that have been counted on the way to it. -/
def tally (v : Vocabulary) : Engine v where
  Row := Unit
  Value := Nat × Nat
  number n := (n, 0)
  holds x := x.1 ≠ 0
  node e row operands := (tallyNumber e row operands, (operands.map Prod.snd).sum)
  aggregate _ rows := (rows.length, rows.length)
  window _ rows _ := (rows.length, rows.length)
  absent := ((), 0)
  node_rowNumber _ := rfl
  node_integer _ _ _ := rfl
  holds_ltEq left right row a b := by
    simp only [tallyNumber]
    split <;> simp_all

/-- The rows that have been counted on the way to a value. -/
def tallied {v : Vocabulary} (x : (tally v).Value) : Nat :=
  @Prod.snd Nat Nat x

/-- Where each of some expressions counts the rows a fixed number of times, so do all together. -/
theorem sum_tallied_values (v : Vocabulary) {es : List Expr}
    (h : ∀ e ∈ es, ∃ k, (k = 0 ↔ e.reaches v = []) ∧
      ∀ rows row index, tallied ((tally v).value rows row index e) = k * rows.length) :
    ∃ k, (k = 0 ↔ es.flatMap (Expr.reaches v) = []) ∧
      ∀ rows row index,
        ((es.map ((tally v).value rows row index)).map tallied).sum = k * rows.length := by
  induction es with
  | nil => exact ⟨0, by simp, by simp⟩
  | cons e es ih =>
    obtain ⟨k, hk, he⟩ := h e List.mem_cons_self
    obtain ⟨k', hk', hes⟩ := ih fun d hd => h d (List.mem_cons_of_mem e hd)
    refine ⟨k + k', ?_, ?_⟩
    · rw [Nat.add_eq_zero_iff, hk, hk', List.flatMap_cons, List.append_eq_nil_iff]
    · intro rows row index
      rw [List.map_cons, List.map_cons, List.sum_cons, he, hes, Nat.add_mul]

/-- The counting engine counts the rows once for each topmost node that looks at them. -/
theorem tallied_value (v : Vocabulary) (e : Expr) :
    ∃ k, (k = 0 ↔ e.reaches v = []) ∧
      ∀ rows row index, tallied ((tally v).value rows row index e) = k * rows.length := by
  induction e using Expr.operandsInduction with
  | step e ih =>
    cases hr : e.reach v with
    | some r =>
      -- The node counts the rows itself, whatever its operands are.
      refine ⟨1, ?_, ?_⟩
      · rw [Expr.reaches_eq, hr]
        simp
      · intro rows row index
        rw [value_eq, hr, Nat.one_mul]
        cases r with
        | group => exact (List.length_map _).trans List.length_zipIdx
        | window => exact (List.length_map _).trans List.length_zipIdx
    | none =>
      -- What the node counts is what its operands count.
      obtain ⟨k, hk, hsum⟩ := sum_tallied_values v ih
      refine ⟨k, ?_, ?_⟩
      · rw [Expr.reaches_eq, hr, hk]
        simp
      · intro rows row index
        rw [value_eq, hr]
        exact hsum rows row index

end Engine

/-- Where something is selected by name, it is what is selected. -/
theorem Core.selected_of_mem {c : Core} {e : Expr} (h : e ∈ c.projections) :
    c.selected = c.projections := by
  rw [Core.selected, if_neg]
  simpa using List.ne_nil_of_mem h

namespace Engine

variable {v : Vocabulary}

/-- What a query without conditions returns, and what it returns with a limit as a condition. -/
theorem returned_fromTable (I : Engine v) (source : List I.Row) {projections : List Expr} {e : Expr}
    (he : e ∈ projections) {l : Int64} (hl : 0 ≤ l) :
    I.returned source (.fromTable "t" projections) = I.project projections (source.zipIdx 1) ∧
      I.returned source ((Select.fromTable "t" projections).pushLimit (.int l))
        = I.project projections ((source.zipIdx 1).take l.toInt.toNat) := by
  obtain ⟨c, hcores, hprojections, hwheres⟩ : ∃ c, (Select.fromTable "t" projections).cores = [c] ∧
      c.projections = projections ∧ c.wheres = [] := ⟨_, rfl, rfl, rfl⟩
  have hcounted : I.counted source c.wheres = source.zipIdx 1 := by
    rw [hwheres]
    exact countRows_true 1 source
  have hselected : c.selected = projections := by
    rw [Core.selected_of_mem (hprojections ▸ he), hprojections]
  refine ⟨?_, ?_⟩
  · rw [returned, hcores, List.flatMap_singleton, hselected, hcounted]
  · rw [I.returned_pushLimit (I.denotes_integer hl) source hcores, hselected, hcounted]

/-- With an aggregate there is a row left even of none. -/
theorem not_takesRows_of_group {projections : List Expr}
    (h : .group ∈ projections.flatMap (·.reaches v)) :
    ¬ TakesRows 0
      ((tally v).returned [] ((Select.fromTable "t" projections).pushLimit (.int 0)))
      ((tally v).returned [] (.fromTable "t" projections)) := by
  obtain ⟨e, he, _⟩ := List.mem_flatMap.mp h
  obtain ⟨_, hpushed⟩ := (tally v).returned_fromTable [] he (l := 0) (by decide)
  rintro ⟨hlength, _⟩
  rw [hpushed, project, if_pos h, Nat.zero_min] at hlength
  cases hlength

/-- A window function sees whether rows have been cut off. -/
theorem not_takesRows_of_window {projections : List Expr}
    (hgroup : .group ∉ projections.flatMap (·.reaches v)) {e : Expr} (he : e ∈ projections)
    (h : e.reaches v ≠ []) :
    ¬ TakesRows 1
      ((tally v).returned [(), ()] ((Select.fromTable "t" projections).pushLimit (.int 1)))
      ((tally v).returned [(), ()] (.fromTable "t" projections)) := by
  obtain ⟨hall, hpushed⟩ := (tally v).returned_fromTable [(), ()] he (l := 1) (by decide)
  obtain ⟨k, hk, hvalue⟩ := tallied_value v e
  rintro ⟨_, hle⟩
  rw [hall, hpushed, project, project, if_neg hgroup, if_neg hgroup] at hle
  -- The one row that is left is selected from one row, each of the others from two.
  have hleft : projections.map ((tally v).value [((), 1)] ((), 1) 0) ∈
      ([((), 1), ((), 2)] : List (Unit × Nat)).zipIdx.map fun r =>
        projections.map ((tally v).value [((), 1), ((), 2)] r.1 r.2) :=
    Multiset.mem_coe.mp (Multiset.mem_of_le hle (Multiset.mem_coe.mpr List.mem_cons_self))
  obtain ⟨r, _, hr⟩ := List.mem_map.mp hleft
  have hsame := congrArg tallied (List.map_inj_left.mp hr e he)
  have hcounts : k * 2 = k * 1 :=
    ((hvalue [((), 1), ((), 2)] r.1 r.2).symm.trans hsame).trans (hvalue [((), 1)] ((), 1) 0)
  exact h (hk.mp (by omega))

end Engine

/-- For every query whose limit can become a condition, the query with that condition is what is
compiled. Whatever the limit, the rows and the database are, a query with such projections takes as
many rows as there can be from those of the query without a limit, exactly if no projection looks
beyond its row. -/
theorem pushLimit_takesRows_iff (v : Vocabulary) (projections : List Expr) :
    (∀ (o : Options) (s : Select) (limit : Bound) (layout : String → String), o.CountsRows →
      s.limit = some limit.expr → s.offset = none → (s.parts o.choices).canPushLimit = true →
      (compile o (.select s) layout).outcome
        = (compile o (.select (s.pushLimit limit.expr)) layout).outcome) ∧
    ((∀ (st : Settings) (s : Select), (s.parts st).canPushLimit = true →
      s.cores.flatMap (·.projections) = projections →
      ∀ (I : Engine v) (limit : Expr) (l : Nat), I.Denotes limit l → ∀ source : List I.Row,
        TakesRows l (I.returned source (s.pushLimit limit)) (I.returned source s)) ↔
    ∀ e ∈ projections, e.reaches v = []) := by
  refine ⟨?_, ?_, ?_⟩
  · intro o s limit layout ho hlimit hoffset hpush
    have hlayout := Options.keeps_of_unformatted ho.unformatted layout
    rw [outcome_compile_select o s ho.unsigned hlayout,
      outcome_compile_select o _ ho.unsigned hlayout,
      Select.outcome_emit_pushLimit ho.dialect ho.pagination hlimit hoffset hpush]
  · intro h e he
    -- The query of the projections alone is enough, in the engine that counts rows.
    have htakes := h ({} : Options).choices (.fromTable "t" projections) rfl (List.append_nil _)
      (Engine.tally v)
    by_cases hgroup : .group ∈ projections.flatMap (·.reaches v)
    · exact absurd (htakes (.int 0) 0 (Engine.denotes_integer _ (by decide)) [])
        (Engine.not_takesRows_of_group hgroup)
    · by_contra hreaches
      exact Engine.not_takesRows_of_window hgroup he hreaches
        (htakes (.int 1) 1 (Engine.denotes_integer _ (by decide)) [(), ()])
  · intro hrow st s hpush hs I limit l hdenotes source
    obtain ⟨⟨c, hc⟩, _⟩ := Select.canPushLimit_parts hpush
    rw [hc, List.flatMap_singleton] at hs
    exact I.takesRows_pushLimit hc (hs ▸ hrow) hdenotes source

/-- Counting the rows of a table, at most five: of seven rows the query counts five, and that is no
row of the query without a limit, which counts seven. -/
theorem not_takesRows_count :
    let o : Options := { format := false, target := ⟨some .oracle⟩, signatureComment := false }
    let s : Select := .fromTable "t" [.call "COUNT" [.all]]
    let I := Engine.tally .standard
    (compile o (.select (s.withLimit (.int 5)))).outcome
      = .ok ⟨"SELECT COUNT(*) FROM t WHERE ROWNUM <= 5", []⟩ ∧
    I.returned (List.replicate 7 ()) s = [[(7, 7)]] ∧
    I.returned (List.replicate 7 ()) (s.pushLimit (.int 5)) = [[(5, 5)]] ∧
    ¬ TakesRows 5 (I.returned (List.replicate 7 ()) (s.pushLimit (.int 5)))
      (I.returned (List.replicate 7 ()) s) := by
  intro o s I
  have hreach : (Expr.call "COUNT" [.all]).reach .standard = some .group := by cbv
  have hproject : ∀ rows, I.project [.call "COUNT" [.all]] rows
      = [[(rows.length, rows.length)]] := by
    intro rows
    have hgroup : .group ∈ [Expr.call "COUNT" [.all]].flatMap (·.reaches .standard) := by
      rw [List.flatMap_singleton, Expr.reaches_eq, hreach]
      exact List.mem_cons_self
    rw [Engine.project, if_pos hgroup, List.map_singleton, Engine.value_eq, hreach]
    have hlength : (rows.zipIdx.map fun r =>
        (Expr.call "COUNT" [.all]).operands.map (I.value rows r.1 r.2)).length = rows.length :=
      (List.length_map _).trans List.length_zipIdx
    exact congrArg (fun n : Nat => [[(n, n)]]) hlength
  obtain ⟨hall, hpushed⟩ := I.returned_fromTable (List.replicate 7 ())
    (List.mem_singleton.mpr rfl : Expr.call "COUNT" [.all] ∈ [Expr.call "COUNT" [.all]])
    (l := 5) (by decide)
  rw [hproject] at hall hpushed
  refine ⟨rfl, hall, hpushed, ?_⟩
  rintro ⟨_, hle⟩
  rw [hall, hpushed] at hle
  have hmem := Multiset.mem_coe.mp
    (Multiset.mem_of_le hle (Multiset.mem_coe.mpr List.mem_cons_self))
  cases List.mem_singleton.mp hmem

end SqlCompiler
