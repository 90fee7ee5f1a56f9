import SqlCompiler.Proofs.RowWindow.Filters

/-!
# The rows that a statement changes

An `UPDATE` or `DELETE` denotes the rows that pass its conditions, in its ordering, between its row
bounds (`Engine.denoted`). What Oracle is given has no ordering (`check_dml` drops it, or refuses
the statement) and chooses the rows by the text of a filter (`RowChoice.filter`). Without an offset
a database selects by that text the rows that the statement denotes. With an offset the query for
the keys has two columns where the test takes one, and its rows are skipped in the order in which
they are found, whatever the ordering of the statement says (`selected_iff_offset_none`).
-/

namespace SqlCompiler

/-! ## What a statement denotes -/

/-- The number of rows that a literal stands for. -/
def Expr.rowCount? : Expr → Option Nat
  | .literal (.integer n) => some n.toInt.toNat
  | _ => none

namespace Engine

variable {v : Vocabulary} {I : Engine v}

/-- In an ordering, the first row may stand before the second. Later terms decide where earlier ones
do not. -/
def Database.sorts (D : I.Database) : List OrderTerm → I.Row × Nat → I.Row × Nat → Bool
  | [], _, _ => true
  | o :: os, a, b =>
    D.precedes o.direction (I.rowValue a o.expr) (I.rowValue b o.expr)
      && (!D.precedes o.direction (I.rowValue b o.expr) (I.rowValue a o.expr) || D.sorts os a b)

/-- The rows that pass conditions. -/
def passing (I : Engine v) (table : List I.Row) (wheres : List Expr) : List I.Row :=
  (I.counted table wheres).map Prod.fst

/-- The rows that a choice of rows denotes: those that pass the conditions, sorted stably by the
ordering, without the first `offset` and at most `limit` of them. -/
def denoted (D : I.Database) (table : List I.Row) (r : RowChoice) : List I.Row :=
  SqlCompiler.window (r.limit.bind Expr.rowCount?) (r.offset.bind Expr.rowCount?)
    (((I.counted table r.wheres).insertionSort fun a b => D.sorts r.orders a b).map Prod.fst)

/-- The key is computed row by row and tells the rows of the table apart, whatever their numbers
are. -/
def Identifies (D : I.Database) (key : Expr) (table : List I.Row) : Prop :=
  key.reaches v = [] ∧ ∃ k : I.Row → I.Value,
    (∀ r n, I.rowValue (r, n) key = k r) ∧ (∀ r ∈ table, D.equal (k r) (k r) = true) ∧
    table.Pairwise fun r r' => D.equal (k r) (k r') = false ∧ D.equal (k r') (k r) = false

end Engine

/-! ## Which rows are chosen -/

section Lists

variable {ρ α : Type}

/-- A condition on rows alone passes the rows that it holds of. -/
theorem map_fst_countRows (passes : ρ → Bool) (next : Nat) (rs : List ρ) :
    (countRows (fun r _ => passes r) next rs).map Prod.fst = rs.filter passes := by
  induction rs generalizing next with
  | nil => rfl
  | cons r rs ih =>
    rw [countRows, List.filter_cons]
    split
    · rw [List.map_cons, ih]
    · exact ih next

/-- Rows pass in the order in which they come. -/
theorem countRows_sublist (passes : ρ → Nat → Bool) (next : Nat) (rs : List ρ) :
    ((countRows passes next rs).map Prod.fst).Sublist rs := by
  induction rs generalizing next with
  | nil => exact .slnil
  | cons r rs ih =>
    rw [countRows]
    split
    · exact (ih (next + 1)).cons_cons r
    · exact (ih next).cons r

/-- A window holds some of the rows, in their order. -/
theorem window_sublist (limit offset : Option Nat) (rs : List ρ) :
    (window limit offset rs).Sublist rs := by
  cases limit with
  | none => exact List.drop_sublist _ rs
  | some l => exact (List.take_sublist l _).trans (List.drop_sublist _ rs)

/-- The window of what rows are mapped to is the window of the rows, mapped. -/
theorem window_map (limit offset : Option Nat) (f : ρ → α) (rs : List ρ) :
    window limit offset (rs.map f) = (window limit offset rs).map f := by
  cases limit with
  | none => exact List.map_drop.symm
  | some l => rw [window, window, ← List.map_drop, ← List.map_take]

/-- Where rows can be told apart, the rows that equal one of a part of them are that part. -/
theorem filter_any_of_sublist (same : ρ → ρ → Bool) {part rs : List ρ} (h : part.Sublist rs)
    (hself : ∀ r ∈ rs, same r r = true)
    (hapart : rs.Pairwise fun r r' => same r r' = false ∧ same r' r = false) :
    rs.filter (fun r => part.any (same r)) = part := by
  induction h with
  | slnil => rfl
  | @cons part rs r h ih =>
    obtain ⟨hr, hrs⟩ := List.pairwise_cons.mp hapart
    -- The row is not in the part, since it differs from all that come after it.
    have hnone : part.any (same r) = false := by
      rw [List.any_eq_false]
      intro r' hr'
      rw [(hr r' (h.subset hr')).1]
      exact Bool.false_ne_true
    rw [List.filter_cons_of_neg (by rw [hnone]; exact Bool.false_ne_true)]
    exact ih (fun r' hr' => hself r' (List.mem_cons_of_mem r hr')) hrs
  | @cons_cons part rs r h ih =>
    obtain ⟨hr, hrs⟩ := List.pairwise_cons.mp hapart
    have hfirst : (r :: part).any (same r) = true := by
      rw [List.any_cons, hself r List.mem_cons_self, Bool.true_or]
    have hrest : rs.filter (fun r' => (r :: part).any (same r'))
        = rs.filter fun r' => part.any (same r') := by
      refine List.filter_congr fun r' hr' => ?_
      rw [List.any_cons, (hr r' hr').2, Bool.false_or]
    rw [List.filter_cons, if_pos hfirst, hrest,
      ih (fun r' hr' => hself r' (List.mem_cons_of_mem r hr')) hrs]

end Lists

namespace Engine.Database

variable {v : Vocabulary} {I : Engine v} {D : I.Database} {s : Settings} {table : List I.Row}

/-- A condition whose text is understood holds where the condition does. -/
theorem holds_conjunct {e : Expr} (h : D.Understands s e) (beside : Bool) (row : I.Row × Nat) :
    D.holds (e.conjunct s beside) row = I.holds (I.rowValue row e) := by
  unfold Expr.conjunct
  split
  · rw [holds, h row]
  · rw [holds, h row]

/-- Texts of conditions that are understood pass the rows that the conditions pass. -/
theorem passing_conjuncts {es : List Expr} (h : ∀ e ∈ es, D.Understands s e) (beside : Bool) :
    D.passing table (es.map (·.conjunct s beside)) = I.counted table es := by
  unfold passing counted
  congr 1
  funext r n
  rw [List.all_map, Bool.eq_iff_iff, List.all_eq_true, List.all_eq_true]
  refine forall₂_congr fun e he => ?_
  rw [Function.comp_apply, holds_conjunct (h e he)]

/-- A bound on the row number behind them passes the first of these rows. -/
theorem passing_rowNumberAtMost {es : List Expr} (h : ∀ e ∈ es, D.Understands s e) (beside : Bool)
    (bound : Bound) :
    D.passing table (es.map (·.conjunct s beside) ++ [.rowNumberAtMost bound])
      = (I.counted table es).take (bound.value D.count) := by
  have hbound := countRows_and_le
    (fun r n => (es.map (·.conjunct s beside)).all fun c => D.holds c (r, n))
    (bound.value D.count) 1 table
  rw [Nat.add_sub_cancel] at hbound
  rw [← passing_conjuncts h beside, passing, passing, ← hbound]
  congr 1
  funext r n
  rw [List.all_append, List.all_cons, List.all_nil, Bool.and_true]
  rfl

/-- A test of keys chooses the rows whose keys are in the first column. -/
theorem chosen_membership {k : KeyQuery} {key : I.Row → I.Value}
    (hrow : ∀ r n, D.value k.key (r, n) = key r)
    (hself : ∀ r ∈ table, D.equal (key r) (key r) = true)
    (hapart : table.Pairwise fun r r' =>
      D.equal (key r) (key r') = false ∧ D.equal (key r') (key r) = false)
    {part : List I.Row} (hpart : part.Sublist table)
    (hkeys : (D.keys table k).map List.head? = part.map fun r => some (key r)) :
    D.chosen table (.membership k) = part := by
  -- Only first columns are compared, so the test is one against the keys of the part.
  have hpasses : ∀ r n, ((D.keys table k).any fun row =>
      row.head?.any (D.equal (D.value k.key (r, n))))
      = part.any fun r' => D.equal (key r) (key r') := by
    intro r n
    have hmap : ((D.keys table k).any fun row => row.head?.any (D.equal (key r)))
        = ((D.keys table k).map List.head?).any fun x => x.any (D.equal (key r)) := by
      rw [List.any_map]
      rfl
    rw [hrow, hmap, hkeys, List.any_map]
    rfl
  unfold chosen
  simp only [hpasses]
  rw [map_fst_countRows]
  exact filter_any_of_sublist (fun r r' => D.equal (key r) (key r')) hpart hself hapart

/-- A key that identifies rows and whose text is understood has a value for each row. -/
theorem exists_keyValue {key : Expr} (h : D.Understands s key) (hkey : Identifies D key table) :
    ∃ k : I.Row → I.Value, (∀ r n, D.value (key.pieces s) (r, n) = k r) ∧
      (∀ r ∈ table, D.equal (k r) (k r) = true) ∧
      table.Pairwise fun r r' => D.equal (k r) (k r') = false ∧ D.equal (k r') (k r) = false := by
  obtain ⟨-, k, hrow, hself, hapart⟩ := hkey
  exact ⟨k, fun r n => (h (r, n)).trans (hrow r n), hself, hapart⟩

/-- A query for keys with none around it has the keys of the rows that pass in its first column. -/
theorem keys_of_around_none {k : KeyQuery} {key : I.Row → I.Value}
    (hrow : ∀ r n, D.value k.key (r, n) = key r) (haround : k.around = none) :
    (D.keys table k).map List.head?
      = ((D.passing table k.conditions).map Prod.fst).map fun r => some (key r) := by
  simp only [keys, haround, List.map_map]
  refine List.map_congr_left fun row _ => ?_
  exact congrArg some (hrow row.1 row.2)

/-- A query around the one for the keys has the keys of a window of the rows in its first column. -/
theorem keys_of_around {k : KeyQuery} {key : I.Row → I.Value}
    (hrow : ∀ r n, D.value k.key (r, n) = key r) {limit offset : Option Bound} {w : RowQuery}
    (hw : RowQuery.ofBounds limit offset = some w) (haround : k.around = some w) :
    (D.keys table k).map List.head?
      = (SqlCompiler.window (limit.map (·.value D.count)) (offset.map (·.value D.count))
          ((D.passing table k.conditions).map Prod.fst)).map fun r => some (key r) := by
  have hrows := RowQuery.rows_ofBounds D.count
    ((D.passing table k.conditions).map fun row => [D.value k.key row]) hw
  rw [window_map] at hrows
  -- Each row begins with a key, so what follows the key is not looked at.
  have hhead : ∀ row ∈ w.rows D.count
        ((D.passing table k.conditions).map fun row => [D.value k.key row]),
      (row.1 ++ (row.2.map I.number).toList).head? = row.1.head? := by
    intro row hmem
    have hfst := List.mem_map_of_mem (f := Prod.fst) hmem
    rw [hrows] at hfst
    obtain ⟨r, -, hkeyed⟩ := List.mem_map.mp hfst
    rw [← hkeyed]
    rfl
  have hfirst : (D.keys table k).map List.head?
      = ((w.rows D.count ((D.passing table k.conditions).map fun row => [D.value k.key row])).map
          Prod.fst).map List.head? := by
    simp only [keys, haround]
    rw [List.map_map, List.map_map]
    exact List.map_congr_left hhead
  rw [hfirst, hrows, window_map, List.map_map, List.map_map]
  exact List.map_congr_left fun row _ => congrArg some (hrow row.1 row.2)

end Engine.Database

/-- The value of a bound that a literal states is the number of rows that the literal stands for. -/
theorem rowCount?_eq {x : Option Expr} (h : ∀ e ∈ x, e.bound?.isSome)
    (count : String → Option Literal → Nat) :
    x.bind Expr.rowCount? = (x.bind Expr.bound?).map (·.value count) := by
  cases x with
  | none => rfl
  | some e =>
    obtain ⟨b, hb⟩ := Option.isSome_iff_exists.mp (h e rfl)
    obtain ⟨n, hn, rfl, rfl⟩ := Expr.bound?_eq_some hb
    rw [Option.bind_some, Option.bind_some, hb]
    rfl

/-- A database that understands the texts of a filter chooses by it, going by the first column of
the keys, the window of the rows that pass in the order in which they are found. -/
theorem RowChoice.chosen_filter {v : Vocabulary} {I : Engine v} {D : I.Database} {s : Settings}
    {table : List I.Row} {relation : TableRef} {r : RowChoice} (hbounds : r.StatesBounds)
    (hkey : r.limit.isSome ∨ r.offset.isSome → r.key.isSome)
    (hwheres : ∀ e ∈ r.wheres, D.Understands s e) (hkeys : ∀ key ∈ r.key, D.Understands s key)
    (hunique : ∀ key ∈ r.key, Engine.Identifies D key table) :
    D.chosen table (r.filter s relation)
      = window (r.limit.bind Expr.rowCount?) (r.offset.bind Expr.rowCount?)
          (I.passing table r.wheres) := by
  have hsublist : (I.passing table r.wheres).Sublist table := countRows_sublist _ _ _
  rw [rowCount?_eq hbounds.limit D.count, rowCount?_eq hbounds.offset D.count]
  have hlimit := map_expr_bound? hbounds.limit
  have hoffset := map_expr_bound? hbounds.offset
  -- Conditions alone, keys with a bound on the row number, or keys with a query around them.
  cases ho : r.offset.bind Expr.bound? with
  | none =>
    have hnone : r.offset = none := by rw [hoffset, ho]; rfl
    cases hl : r.limit.bind Expr.bound? with
    | none =>
      have hunbounded : r.limit = none := by rw [hlimit, hl]; rfl
      rw [filter_unbounded hunbounded hnone, Engine.Database.chosen,
        Engine.Database.passing_conjuncts hwheres]
      rfl
    | some l =>
      have hsome : r.limit.isSome := by rw [hlimit, hl]; rfl
      obtain ⟨key, hk⟩ := Option.isSome_iff_exists.mp (hkey (.inl hsome))
      obtain ⟨k, hvalue, hself, hapart⟩ :=
        Engine.Database.exists_keyValue (hkeys key hk) (hunique key hk)
      rw [filter_limit hk hl hnone]
      refine Engine.Database.chosen_membership hvalue hself hapart
        ((window_sublist _ _ _).trans hsublist) ?_
      rw [Engine.Database.keys_of_around_none hvalue rfl,
        Engine.Database.passing_rowNumberAtMost hwheres, List.map_take]
      rfl
  | some o =>
    have hsome : r.offset.isSome := by rw [hoffset, ho]; rfl
    obtain ⟨key, hk⟩ := Option.isSome_iff_exists.mp (hkey (.inr hsome))
    obtain ⟨k, hvalue, hself, hapart⟩ :=
      Engine.Database.exists_keyValue (hkeys key hk) (hunique key hk)
    obtain ⟨last, hw⟩ := RowQuery.ofBounds_offset (r.limit.bind Expr.bound?) o
    rw [filter_offset hk ho]
    refine Engine.Database.chosen_membership hvalue hself hapart
      ((window_sublist _ _ _).trans hsublist) ?_
    rw [Engine.Database.keys_of_around hvalue hw hw, Engine.Database.passing_conjuncts hwheres]
    rfl

/-! ## Orderings that do not matter -/

namespace Engine

variable {v : Vocabulary} {I : Engine v} (D : I.Database) (table : List I.Row) {r : RowChoice}

/-- Without an ordering the rows stay in the order in which they are found. -/
theorem denoted_of_orders_nil (h : r.orders = []) :
    denoted D table r
      = SqlCompiler.window (r.limit.bind Expr.rowCount?) (r.offset.bind Expr.rowCount?)
          (I.passing table r.wheres) := by
  have hsorted : (I.counted table r.wheres).insertionSort (fun a b => D.sorts r.orders a b)
      = I.counted table r.wheres := by
    refine List.Pairwise.insertionSort_eq (List.pairwise_of_forall fun a b => ?_)
    rw [h]
    rfl
  rw [denoted, hsorted]
  rfl

/-- An ordering that comes with no row bound does not change which rows are denoted. -/
theorem perm_denoted (hlimit : r.orders = [] ∨ r.limit = none)
    (hoffset : r.orders = [] ∨ r.offset = none) :
    (SqlCompiler.window (r.limit.bind Expr.rowCount?) (r.offset.bind Expr.rowCount?)
      (I.passing table r.wheres)).Perm (denoted D table r) := by
  by_cases hnil : r.orders = []
  · rw [denoted_of_orders_nil D table hnil]
  · rw [denoted, hlimit.resolve_left hnil, hoffset.resolve_left hnil]
    exact ((List.perm_insertionSort _ _).map Prod.fst).symm

end Engine

/-! ## Statements -/

/-- A row bound that passes its check and is a literal states a bound. -/
theorem isSome_bound? {kind : RowBound} {e : Expr} (hliteral : ∃ l, e = .literal l)
    (hcheck : ∃ c, constantBound kind e = .ok c) : e.bound?.isSome := by
  obtain ⟨l, rfl⟩ := hliteral
  obtain ⟨c, hc⟩ := hcheck
  -- Of literals only an integer passes the check, and only if it is not negative.
  cases l with
  | integer n =>
    rw [constantBound] at hc
    split at hc
    · cases hc
    · next hneg =>
      rw [Expr.bound?, dif_pos (Int64.not_lt.mp hneg)]
      rfl
  | null | boolean _ | float _ | string _ => cases hc

/-- A query whose rows are counted has row bounds that pass their checks. -/
theorem Select.constantBound_ok {s : Settings} (hd : s.dialect = .oracle)
    (hp : s.capabilities.pagination = .rowNumber) {q : Select} {ps : List Piece}
    (h : (q.emit s).outcome = .ok ps) :
    (∀ e ∈ q.limit, ∃ c, constantBound .limit e = .ok c) ∧
      ∀ e ∈ q.offset, ∃ c, constantBound .offset e = .ok c := by
  rw [Select.emit_oracle hd] at h
  obtain ⟨t, ht, hps⟩ := Traced.outcome_bind_ok h
  obtain ⟨orders, rfl⟩ := QueryParts.orderedByAlias_ok ht
  rw [QueryParts.oracle_of_rowNumber hp] at hps
  obtain ⟨_, hlimit, h₁⟩ := Traced.outcome_bind_ok hps
  obtain ⟨_, hoffset, -⟩ := Traced.outcome_bind_ok h₁
  have hchecked : ∀ (kind : RowBound) (x : Option Expr) (u : Unit),
      checkBound kind (renderedOption x (emitOption s x)) = .ok u →
      ∀ e ∈ x, ∃ c, constantBound kind e = .ok c := by
    intro kind x u hcheck e he
    obtain rfl := Option.mem_def.mp he
    cases hc : constantBound kind e with
    | error f =>
      have hfail : (constantBound kind e).map (fun _ => ()) = .ok u := hcheck
      rw [hc] at hfail
      cases hfail
    | ok c => exact ⟨c, rfl⟩
  exact ⟨hchecked .limit q.limit _ hlimit, hchecked .offset q.offset _ hoffset⟩

/-- The row bounds of a choice of rows that is emitted are stated, if they are literals. -/
theorem RowChoice.statesBounds {s : Settings} (hd : s.dialect = .oracle)
    (hp : s.capabilities.pagination = .rowNumber) {relation : TableRef} {r : RowChoice}
    (hlimit : ∀ e ∈ r.limit, ∃ l, e = .literal l) (hoffset : ∀ e ∈ r.offset, ∃ l, e = .literal l)
    (hkey : r.limit.isSome ∨ r.offset.isSome → r.key.isSome) {ps : List Piece}
    (h : (r.emit s relation).outcome = .ok ps) : r.StatesBounds := by
  -- Bounds are checked where a query for the keys is written.
  by_cases hbounded : r.limit.isSome ∨ r.offset.isSome
  · obtain ⟨key, hk⟩ := Option.isSome_iff_exists.mp (hkey hbounded)
    obtain ⟨inner, hinner, -⟩ := endsWithQuery hk (needsSubselect_of_bounded hbounded) h
    obtain ⟨hcheckLimit, hcheckOffset⟩ := Select.constantBound_ok hd hp hinner
    exact ⟨fun e he => isSome_bound? (hlimit e he) (hcheckLimit e he),
      fun e he => isSome_bound? (hoffset e he) (hcheckOffset e he)⟩
  · obtain ⟨hnoLimit, hnoOffset⟩ : r.limit = none ∧ r.offset = none := by simpa using hbounded
    constructor
    · intro e he
      rw [hnoLimit] at he
      cases he
    · intro e he
      rw [hnoOffset] at he
      cases he

/-- The filter of a choice of rows that is emitted compares keys with one column exactly if there is
no offset. -/
theorem RowChoice.column_filter_iff {s : Settings} (hd : s.dialect = .oracle)
    (hp : s.capabilities.pagination = .rowNumber) {relation : TableRef} {r : RowChoice}
    (hr : r.Ungrouped) (hbounds : r.StatesBounds)
    (hkey : r.limit.isSome ∨ r.offset.isSome → r.key.isSome) {ps : List Piece}
    (h : (r.emit s relation).outcome = .ok ps) :
    (∀ k, r.filter s relation = .membership k → columns k.pieces = some 1) ↔ r.offset = none := by
  by_cases hbounded : r.limit.isSome ∨ r.offset.isSome
  · obtain ⟨key, hk⟩ := Option.isSome_iff_exists.mp (hkey hbounded)
    obtain ⟨inner, hinner, -⟩ := endsWithQuery hk (needsSubselect_of_bounded hbounded) h
    obtain ⟨k, hfilter, hcolumns⟩ := columns_filter hd hp hr hbounds hk hbounded hinner
    -- With an offset the row number is a second column.
    cases ho : r.offset with
    | none =>
      rw [ho] at hcolumns
      refine iff_of_true (fun k' hk' => ?_) rfl
      rw [hfilter] at hk'
      cases hk'
      exact hcolumns
    | some e =>
      rw [ho] at hcolumns
      refine iff_of_false (fun hall => ?_) (Option.some_ne_none e)
      rw [hall k hfilter] at hcolumns
      cases hcolumns
  · obtain ⟨hlimit, hoffset⟩ : r.limit = none ∧ r.offset = none := by simpa using hbounded
    refine iff_of_true (fun k hk => ?_) hoffset
    rw [filter_unbounded hlimit hoffset] at hk
    cases hk

/-- For every `UPDATE` or `DELETE` without grouping that Oracle is given, with literals as row
bounds: what stands behind the assignments or the table is the text of the filter. In every database
that understands the conditions and the key, where their texts keep together beside `AND` and `IN`,
and for every table that the key identifies the rows of, rows are selected by that text and are
those that the statement denotes exactly if there is no offset. By the first column of the keys, the
text chooses the window of the rows in the order in which they are found, which is right without an
ordering too. -/
theorem selected_iff_offset_none {s : Settings} (hd : s.dialect = .oracle)
    (hp : s.capabilities.pagination = .rowNumber) {st : Statement} {relation : TableRef}
    {r : RowChoice} (hst : st.rows? = some (relation, r)) (hgroups : r.groups = [])
    (hhavings : r.havings = []) (hlimit : ∀ e ∈ r.limit, ∃ l, e = .literal l)
    (hoffset : ∀ e ∈ r.offset, ∃ l, e = .literal l)
    {ps : List Piece} (h : (st.emit s).outcome = .ok ps) :
    ∃ front, (st.front s).outcome = .ok front ∧ ps = front ++ (r.filter s relation).pieces ∧
      ∀ (v : Vocabulary) (I : Engine v) (D : I.Database) (table : List I.Row),
        (r.filter s relation).Groups s.paramStyle →
        (∀ e ∈ r.wheres, D.Understands s e) → (∀ key ∈ r.key, D.Understands s key) →
        (∀ key ∈ r.key, Engine.Identifies D key table) →
        D.chosen table (r.filter s relation)
          = window (r.limit.bind Expr.rowCount?) (r.offset.bind Expr.rowCount?)
              (I.passing table r.wheres) ∧
        (r.orders = [] ∨ r.offset = none →
          (D.chosen table (r.filter s relation)).Perm (Engine.denoted D table r)) ∧
        ((∃ rows, (r.filter s relation).Selects s.paramStyle D table rows ∧
            rows.Perm (Engine.denoted D table r)) ↔ r.offset = none) := by
  obtain ⟨front, rest, hfront, hrest, rfl, horders, hkey⟩ := Statement.emit_ok hd hst h
  have hr : r.unordered.Ungrouped := ⟨rfl, hgroups, hhavings⟩
  have hbounds : r.unordered.StatesBounds :=
    RowChoice.statesBounds (r := r.unordered) hd hp hlimit hoffset hkey hrest
  refine ⟨front, hfront, ?_, ?_⟩
  · rw [RowChoice.emit_filter hd hp hr hbounds hkey hrest]
    rfl
  · intro v I D table hgroup hwheres hkeys hunique
    have hchosen : D.chosen table (r.filter s relation)
        = window (r.limit.bind Expr.rowCount?) (r.offset.bind Expr.rowCount?)
            (I.passing table r.wheres) :=
      RowChoice.chosen_filter (r := r.unordered) hbounds hkey hwheres hkeys hunique
    -- The ordering does not matter to which rows pass, but it does to which are skipped.
    have hdenoted : r.orders = [] ∨ r.offset = none →
        (D.chosen table (r.filter s relation)).Perm (Engine.denoted D table r) := by
      intro hfree
      rw [hchosen]
      exact Engine.perm_denoted D table horders hfree
    have hcolumn : (∀ k, r.filter s relation = .membership k → columns k.pieces = some 1)
        ↔ r.offset = none :=
      RowChoice.column_filter_iff (r := r.unordered) hd hp hr hbounds hkey hrest
    refine ⟨hchosen, hdenoted, ?_, fun hnone => ?_⟩
    · rintro ⟨rows, hselects, -⟩
      exact hcolumn.mp hselects.column
    · exact ⟨_, ⟨hgroup, hcolumn.mpr hnone, rfl⟩, hdenoted (.inr hnone)⟩

/-! ## A table of entries -/

namespace Engine

variable {v : Vocabulary}

/-- A node that looks at its row only has a value by those of its operands. -/
theorem rowValue_of_reach_none (I : Engine v) {e : Expr} (h : e.reach v = none)
    (row : I.Row × Nat) :
    I.rowValue row e = I.node e row (e.operands.map (I.rowValue row)) := by
  rw [rowValue, value_eq, h]
  rfl

/-- The column of an entry, `id` or `a`. -/
def entryColumn (name : String) (row : (Nat × Nat) × Nat) : Nat :=
  if name = "id" then row.1.1 else row.1.2

/-- The value of a node for an entry. -/
def entryNumber (e : Expr) (row : (Nat × Nat) × Nat) (operands : List Nat) : Nat :=
  match e, operands with
  | .column _ name, _ => entryColumn name row
  | .raw text, _ => if text = "ROWNUM" then row.2 else 0
  | .literal (.integer n), _ => n.toInt.toNat
  | .binary _ .ltEq _, [a, b] => if a ≤ b then 1 else 0
  | .binary _ .or _, [a, b] => max a b
  | _, _ => 0

/-- An engine over such entries, in which values are numbers. -/
@[reducible] def entries (v : Vocabulary) : Engine v where
  Row := Nat × Nat
  Value := Nat
  number n := n
  holds x := x ≠ 0
  node := entryNumber
  aggregate _ _ := 0
  window _ _ _ := 0
  absent := ((0, 0), 0)
  node_rowNumber _ := rfl
  node_integer _ _ _ := rfl
  holds_ltEq left right row a b := by
    simp only [entryNumber]
    split <;> simp_all

/-- A comparison of a column with a number in digits. -/
def entryAtMost (name digits : String) (row : (Nat × Nat) × Nat) : Nat :=
  if entryColumn name row ≤ digits.toList.foldl (fun n c => 10 * n + (c.toNat - 48)) 0 then 1 else 0

/-- The value of a text for an entry: that of a column, of a comparison, or of one with another. -/
def entryText (text : List Piece) (row : (Nat × Nat) × Nat) : Nat :=
  match text with
  | [.ident name] => entryColumn name row
  | [.ident name, .sql " <= ", .sql digits] => entryAtMost name digits row
  | [.ident name, .sql " <= ", .sql digits, .sql " OR ", .ident name', .sql " <= ", .sql digits'] =>
    max (entryAtMost name digits row) (entryAtMost name' digits' row)
  | _ => 0

/-- A database of such entries, in which numbers are compared as numbers. -/
@[reducible] def entriesDatabase (v : Vocabulary) : (entries v).Database where
  value := entryText
  count _ _ := 0
  equal (a b : Nat) := a == b
  precedes direction (a b : Nat) := if direction = some .desc then b ≤ a else a ≤ b

/-- A column of an entry has the value that it names. -/
theorem entries_column (name : String) (row : (Nat × Nat) × Nat) :
    (entries v).rowValue row (.col name) = entryColumn name row :=
  (entries v).rowValue_of_reach_none rfl row

/-- A comparison of a column with a number is one or zero. -/
theorem entries_atMost (name : String) (n : Int64) (row : (Nat × Nat) × Nat) :
    (entries v).rowValue row (.binary (.col name) .ltEq (.int n))
      = if entryColumn name row ≤ n.toInt.toNat then 1 else 0 := by
  have hnumber : (entries v).rowValue row (.int n) = n.toInt.toNat :=
    (entries v).rowValue_of_reach_none rfl row
  rw [rowValue_of_reach_none _ rfl]
  simp only [Expr.operands, List.map_cons, List.map_nil, entries_column, hnumber]
  rfl

/-- A disjunction is as large as the larger side. -/
theorem entries_or (left right : Expr) (row : (Nat × Nat) × Nat) :
    (entries v).rowValue row (.binary left .or right)
      = max ((entries v).rowValue row left) ((entries v).rowValue row right) :=
  (entries v).rowValue_of_reach_none rfl row

/-- The entries of a table are identified by their numbers, if these differ. -/
theorem entries_identifies {table : List (Nat × Nat)} (h : (table.map Prod.fst).Nodup) :
    Identifies (entriesDatabase v) (.col "id") table := by
  refine ⟨?_, Prod.fst, fun r n => entries_column "id" (r, n), fun r _ => ?_, ?_⟩
  · rw [Expr.reaches_eq]
    rfl
  · exact beq_self_eq_true r.1
  · rw [List.Nodup, List.pairwise_map] at h
    exact h.imp fun hne => ⟨beq_eq_false_iff_ne.mpr hne, beq_eq_false_iff_ne.mpr hne.symm⟩

end Engine

set_option maxRecDepth 2000 in
/-- Of the entries that pass one of two tests the first two are deleted. -/
theorem selected_of_limit :
    let o : Options := { format := false, target := ⟨some .oracle⟩, signatureComment := false }
    let test : Expr := .binary (.binary (.col "id") .ltEq (.int 1)) .or
      (.binary (.col "a") .ltEq (.int 2))
    let r : RowChoice :=
      { wheres := [test], limit := some (.int 2), key := some (.col "id") }
    let st : Statement := .delete ⟨{ name := "t" }, r⟩
    let D := Engine.entriesDatabase .standard
    let table := [(2, 5), (1, 4), (3, 1), (4, 2)]
    (compile o st).outcome
      = .ok ⟨"DELETE FROM t WHERE id IN (SELECT id FROM t WHERE (id <= 1 OR a <= 2) "
          ++ "AND ROWNUM <= 2)", []⟩ ∧
    (st.emit o.choices).outcome
      = .ok ([.sql "DELETE FROM ", .ident "t"] ++ (r.filter o.choices { name := "t" }).pieces) ∧
    D.chosen table (r.filter o.choices { name := "t" }) = [(1, 4), (3, 1)] ∧
    ∃ rows, (r.filter o.choices { name := "t" }).Selects o.choices.paramStyle D table rows ∧
      rows.Perm (Engine.denoted D table r) := by
  intro o test r st D table
  obtain ⟨ps, hps⟩ : ∃ ps, (st.emit o.choices).outcome = .ok ps := ⟨_, rfl⟩
  have hliteral : ∀ e ∈ some (Expr.int 2), ∃ l, e = .literal l := by
    rintro e he
    obtain rfl := Option.mem_some_iff.mp he
    exact ⟨_, rfl⟩
  obtain ⟨front, hfront, rfl, hrows⟩ := selected_iff_offset_none (s := o.choices) rfl rfl
    (show st.rows? = some ({ name := "t" }, r) from rfl) rfl rfl hliteral
    (fun e he => by cases he) hps
  obtain rfl := Except.ok.inj hfront
  have htest : (test.emit o.choices).outcome = .ok [.ident "id", .sql " <= ", .sql "1",
      .sql " OR ", .ident "a", .sql " <= ", .sql "2"] := by cbv
  have hunderstands : D.Understands o.choices test := by
    intro row
    rw [Expr.pieces, Emission.pieces_of_ok htest, Engine.entries_or, Engine.entries_atMost,
      Engine.entries_atMost]
    rfl
  have htested : KeepsTogether o.choices.paramStyle 0 (test.pieces o.choices) := by
    have horderly : Node.allVisited (·.isOrderly o.choices) 3 (.expr test) = true := by cbv
    rw [Expr.pieces, Emission.pieces_of_ok htest]
    exact Expr.keepsTogether htest (Node.forall_visits_of_allVisited horderly) (Nat.zero_le _)
      fun _ _ _ _ _ => Nat.zero_le _
  have hkey : KeepsTogether o.choices.paramStyle membershipStrength [.ident "id"] := by
    have horderly : Node.allVisited (·.isOrderly o.choices) 1 (.expr (.col "id")) = true := by cbv
    refine Expr.keepsTogether (e := .col "id") rfl (Node.forall_visits_of_allVisited horderly)
      (by decide) fun n hn hdeclared => ?_
    obtain rfl | ⟨c, hc, -⟩ := hn.cases_head
    · cases hdeclared
    · cases hc
  have hgroups : (r.filter o.choices { name := "t" }).Groups o.choices.paramStyle :=
    ⟨hkey, List.forall_mem_cons.mpr ⟨htested, List.forall_mem_singleton.mpr trivial⟩⟩
  obtain ⟨hchosen, -, hselected⟩ := hrows .standard _ D table hgroups
    (List.forall_mem_singleton.mpr hunderstands) (fun key hkey row => by
      obtain rfl := Option.mem_some_iff.mp hkey
      exact (Engine.entries_column "id" row).symm) fun key hkey => by
      obtain rfl := Option.mem_some_iff.mp hkey
      exact Engine.entries_identifies (by decide)
  refine ⟨by cbv, hps, ?_, hselected.mpr rfl⟩
  have hpassing : (Engine.entries .standard).passing table r.wheres
      = [(1, 4), (3, 1), (4, 2)] := by
    rw [Engine.passing, Engine.counted]
    simp only [r, test, table, List.all_cons, List.all_nil, Engine.entries_or,
      Engine.entries_atMost]
    decide
  rw [hchosen, hpassing]
  rfl

set_option maxRecDepth 2000 in
/-- Of two entries the second one in the ordering by `a` is to be deleted, and by their keys the
second one that is found is. With the row number beside the key no rows are selected at all. -/
theorem not_denoted_of_ordered_offset :
    let o : Options := { format := false, target := ⟨some .oracle⟩, signatureComment := false }
    let r : RowChoice :=
      { orders := [⟨.col "a", none⟩], offset := some (.int 1), key := some (.col "id") }
    let st : Statement := .delete ⟨{ name := "t" }, r⟩
    let f := r.filter o.choices { name := "t" }
    let D := Engine.entriesDatabase .standard
    let table := [(1, 2), (2, 1)]
    (compile o st).outcome
      = .ok ⟨"DELETE FROM t WHERE id IN (SELECT * FROM (SELECT raw_sql_.*, rownum raw_rnum_ FROM "
          ++ "(SELECT id FROM t) raw_sql_) WHERE raw_rnum_ > 1)", []⟩ ∧
    (st.emit o.choices).outcome = .ok ([.sql "DELETE FROM ", .ident "t"] ++ f.pieces) ∧
    Engine.denoted D table r = [(1, 2)] ∧ D.chosen table f = [(2, 1)] ∧
    ∀ rows, ¬ f.Selects o.choices.paramStyle D table rows := by
  intro o r st f D table
  refine ⟨by cbv, rfl, ?_, ?_, fun rows hselects => ?_⟩
  · have hsorts : D.sorts r.orders ((1, 2), 1) ((2, 1), 2) = false := by
      simp only [r, Engine.Database.sorts, Engine.entries_column]
      rfl
    have hsorted : ((Engine.entries .standard).counted table r.wheres).insertionSort
        (fun a b => D.sorts r.orders a b) = [((2, 1), 2), ((1, 2), 1)] := by
      show List.insertionSort _ [((1, 2), 1), ((2, 1), 2)] = _
      simp [List.orderedInsert, hsorts]
    rw [Engine.denoted, hsorted]
    rfl
  · -- The text is evaluated as it stands, without the tree that it was written for.
    rfl
  · have hcolumn := hselects.column _ rfl
    revert hcolumn
    decide

end SqlCompiler
