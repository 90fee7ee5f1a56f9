import SqlCompiler.Proofs.RowWindow.Columns
import SqlCompiler.Proofs.RowWindow.Pushed
import SqlCompiler.Proofs.Strength.Together

/-!
# The filter of a statement that changes rows

The text by which an `UPDATE` or `DELETE` chooses its rows (`write_dml_filter`), written down from
the texts of its expressions: conditions with `AND` between them (`whereClause`), or a test of the
key against a query for the keys (`KeyQuery`). A database that is given such a text
(`Engine.Database`) evaluates the texts of the expressions row by row. It takes them for the
operands of `AND` and `IN` if they keep together where they stand (`KeepsTogether`), and compares a
key with the rows of a query of one column (`RowFilter.Selects`).

What is emitted for a choice of rows without ordering and grouping is the filter that is written
down here from its conditions, key and row bounds (`RowChoice.emit_filter`).
-/

namespace SqlCompiler

/-! ## Texts -/

/-- The pieces that an emission yields. -/
def Emission.pieces (e : Emission) : List Piece :=
  e.outcome.toOption.getD []

/-- An emission that yields pieces yields its pieces. -/
theorem Emission.pieces_of_ok {e : Emission} {ps : List Piece} (h : e.outcome = .ok ps) :
    e.pieces = ps := by
  rw [pieces, h]
  rfl

/-- The text of an expression. -/
def Expr.pieces (s : Settings) (e : Expr) : List Piece :=
  (e.emit s).pieces

/-- The text of a table: its schema and a dot, its name, and the name that it goes by. -/
def TableRef.pieces (t : TableRef) : List Piece :=
  t.schema.elim [] (fun name => [.ident name, .sql "."]) ++ [.ident t.name]
    ++ t.rename.elim [] fun name => [.sql " ", .ident name]

/-- A condition as it stands in a text. -/
inductive Conjunct where
  | bare (text : List Piece)
  /-- A condition in parentheses. -/
  | enclosed (text : List Piece)
  /-- A bound on the row number. -/
  | rowNumberAtMost (bound : Bound)

/-- The text of a condition. -/
def Conjunct.pieces : Conjunct → List Piece
  | .bare text => text
  | .enclosed text => .sql "(" :: (text ++ [.sql ")"])
  | .rowNumberAtMost bound => .verbatim "ROWNUM" :: .sql " <= " :: bound.pieces

/-- The text of conditions that must all hold; nothing if there are none. -/
def whereClause : List Conjunct → List Piece
  | [] => []
  | c :: cs =>
    .sql " WHERE " :: (c.pieces ++ cs.flatMap fun c => .sql " AND " :: c.pieces)

/-- The query for the keys of the rows that pass conditions, and a query around it that counts its
rows, if there is one. -/
structure KeyQuery where
  /-- The text of the key. -/
  key : List Piece
  /-- The text of the table. -/
  relation : List Piece
  conditions : List Conjunct
  around : Option RowQuery

/-- The text of the query. -/
def KeyQuery.pieces (k : KeyQuery) : List Piece :=
  let keys := .sql "SELECT " :: (k.key ++ .sql " FROM " :: (k.relation ++ whereClause k.conditions))
  k.around.elim keys (·.pieces keys)

/-- What a statement chooses its rows by. -/
inductive RowFilter where
  /-- The rows pass conditions. -/
  | conditions (cs : List Conjunct)
  /-- The key is among keys. -/
  | membership (keys : KeyQuery)

/-- The text of the filter. -/
def RowFilter.pieces : RowFilter → List Piece
  | .conditions cs => whereClause cs
  | .membership k => .sql " WHERE " :: (k.key ++ .sql " IN (" :: (k.pieces ++ [.sql ")"]))

/-! ## The filter for a choice of rows -/

/-- The expression is an `OR`, the only operator that binds weaker than `AND`. -/
def Expr.isDisjunction : Expr → Bool
  | .binary _ .or _ => true
  | _ => false

/-- A condition beside others, or alone. An `OR` beside others stands in parentheses. -/
def Expr.conjunct (s : Settings) (beside : Bool) (e : Expr) : Conjunct :=
  if beside && e.isDisjunction then .enclosed (e.pieces s) else .bare (e.pieces s)

/-- The row bound that a literal states. -/
def Expr.bound? : Expr → Option Bound
  | .literal (.integer n) => if h : 0 ≤ n then some (.literal n h) else none
  | _ => none

/-- The filter for a choice of rows whose bounds are literals. A limit alone is a condition on the
row number in the query for the keys, and an offset leads to a query around it. -/
def RowChoice.filter (s : Settings) (relation : TableRef) (r : RowChoice) : RowFilter :=
  match r.key, r.limit.bind Expr.bound?, r.offset.bind Expr.bound? with
  | some key, some l, none =>
    .membership
      { key := key.pieces s
        relation := relation.pieces
        conditions := r.wheres.map (·.conjunct s true) ++ [.rowNumberAtMost l]
        around := none }
  | some key, limit, some o =>
    .membership
      { key := key.pieces s
        relation := relation.pieces
        conditions := r.wheres.map (·.conjunct s (1 < r.wheres.length))
        around := RowQuery.ofBounds limit (some o) }
  | _, _, _ => .conditions (r.wheres.map (·.conjunct s (1 < r.wheres.length)))

/-! ## What a database takes the text for -/

/-- Conditions are the operands of the `AND`s between them. What stands alone or in parentheses may
show any operators. -/
def GroupsConditions (style : ParamStyle) (cs : List Conjunct) : Prop :=
  ∀ c ∈ cs, match c with
    | .bare text =>
      KeepsTogether style (if 1 < cs.length then BinaryOp.and.strength else 0) text
    | .enclosed text => KeepsTogether style 0 text
    | .rowNumberAtMost _ => True

/-- The texts in a filter are the operands of the `AND`s and the `IN` that they stand beside. -/
def RowFilter.Groups (style : ParamStyle) : RowFilter → Prop
  | .conditions cs => GroupsConditions style cs
  | .membership k =>
    KeepsTogether style membershipStrength k.key ∧ GroupsConditions style k.conditions

/-- How a database evaluates texts and compares values. -/
structure Engine.Database {v : Vocabulary} (I : Engine v) where
  /-- The value that the text of an expression has in a row. -/
  value : List Piece → I.Row × Nat → I.Value
  /-- The number of rows that a parameter in a row bound stands for. -/
  count : String → Option Literal → Nat
  /-- A membership test finds the values equal. -/
  equal : I.Value → I.Value → Bool
  /-- In a direction, the first value may stand before the second. -/
  precedes : Option SortDirection → I.Value → I.Value → Bool

namespace Engine.Database

variable {v : Vocabulary} {I : Engine v} (D : I.Database)

/-- The database takes the text of an expression for the expression. -/
def Understands (s : Settings) (e : Expr) : Prop :=
  ∀ row, D.value (e.pieces s) row = I.rowValue row e

/-- A condition holds in a row. -/
def holds : Conjunct → I.Row × Nat → Bool
  | .bare text, row => I.holds (D.value text row)
  | .enclosed text, row => I.holds (D.value text row)
  | .rowNumberAtMost bound, row => row.2 ≤ bound.value D.count

/-- The rows that pass conditions, each with its number. -/
def passing (table : List I.Row) (cs : List Conjunct) : List (I.Row × Nat) :=
  countRows (fun r n => cs.all fun c => D.holds c (r, n)) 1 table

/-- The rows that a query for keys returns: the keys, and the row number that a query around it
selects too. -/
def keys (table : List I.Row) (k : KeyQuery) : List (List I.Value) :=
  let keys := (D.passing table k.conditions).map fun row => [D.value k.key row]
  match k.around with
  | none => keys
  | some w => (w.rows D.count keys).map fun row => row.1 ++ (row.2.map I.number).toList

/-- The rows that a filter chooses, where a key is compared with the first column of each row of a
query. -/
def chosen (table : List I.Row) : RowFilter → List I.Row
  | .conditions cs => (D.passing table cs).map Prod.fst
  | .membership k =>
    (countRows (fun r n => (D.keys table k).any fun row =>
      row.head?.any (D.equal (D.value k.key (r, n)))) 1 table).map Prod.fst

end Engine.Database

/-- A database selects rows by a filter: its texts are the operands that they are to be, keys are
compared with the only column of their query, and the rows are those that are chosen so. -/
structure RowFilter.Selects {v : Vocabulary} {I : Engine v} (style : ParamStyle) (D : I.Database)
    (table : List I.Row) (f : RowFilter) (rows : List I.Row) : Prop where
  groups : f.Groups style
  column : ∀ k, f = .membership k → columns k.pieces = some 1
  chosen : rows = D.chosen table f

/-! ## What is emitted -/

/-- Emissions that are joined yield what each of them yields, behind separators but for the first
one. -/
theorem Emission.join_ok {α : Type} {emit : α → Emission} {text : α → List Piece}
    {separator : String} {x : α} {xs : List α}
    (htext : ∀ y ∈ x :: xs, ∀ q, (emit y).outcome = .ok q → q = text y) {ps : List Piece}
    (h : (join separator ((x :: xs).map emit)).outcome = .ok ps) :
    ps = text x ++ xs.flatMap fun y => .sql separator :: text y := by
  -- Each further item brings its separator, so the first one stands apart.
  induction xs generalizing x ps with
  | nil =>
    rw [List.flatMap_nil, List.append_nil]
    exact htext x List.mem_cons_self ps h
  | cons y ys ih =>
    obtain ⟨p, rest, hp, hrest, rfl⟩ := outcome_append_ok h
    obtain ⟨tail, htail, rfl⟩ := outcome_sql_append_ok hrest
    have hys := ih (fun z hz => htext z (List.mem_cons_of_mem x hz)) htail
    rw [htext x List.mem_cons_self p hp, hys, List.flatMap_cons]
    rfl

/-- A table is emitted as its text. -/
theorem TableRef.outcome_emit (t : TableRef) : t.emit.outcome = .ok t.pieces := by
  obtain ⟨schema, name, rename⟩ := t
  cases schema with
  | none => cases rename <;> rfl
  | some schema => cases rename <;> rfl

/-- Only an `OR` needs parentheses beside an `AND`. -/
theorem Expr.needsParens_and (e : Expr) :
    needsParens e.strength BinaryOp.and.strength .left BinaryOp.and.associativity
      = e.isDisjunction := by
  cases e with
  | binary left op right => cases op <;> rfl
  | unary op operand => cases op <;> rfl
  | literal l =>
    -- A negative number binds as its sign does, which is stronger than `AND` as well.
    cases l with
    | integer n | float x =>
      rw [strength]
      split <;> rfl
    | _ => rfl
  | _ => rfl

/-- A condition beside others is emitted as it stands there. -/
theorem Expr.conjunct_ok {s : Settings} {e : Expr} {q : List Piece}
    (h : ((e.rendered s).operand .left BinaryOp.and.strength BinaryOp.and.associativity).outcome
      = .ok q) :
    q = (e.conjunct s true).pieces := by
  rw [Rendered.operand, show (e.rendered s).expr = e from rfl, needsParens_and] at h
  rw [conjunct, Bool.true_and]
  -- The parentheses that are emitted are those of the enclosed condition.
  cases hor : e.isDisjunction with
  | false =>
    rw [hor] at h
    exact (Emission.pieces_of_ok h).symm
  | true =>
    rw [hor] at h
    obtain ⟨front, hfront, rfl⟩ := Emission.outcome_append_sql_ok h
    obtain ⟨text, htext, rfl⟩ := Emission.outcome_sql_append_ok hfront
    have hpieces : e.pieces s = text := Emission.pieces_of_ok htext
    rw [if_pos rfl, Conjunct.pieces, hpieces]
    rfl

/-- Conditions are emitted as a clause of them. -/
theorem conditions_ok {s : Settings} {es : List Expr} {ps : List Piece}
    (h : (conditions " WHERE " (renderedList es (emitEach s es))).outcome = .ok ps) :
    ps = whereClause (es.map (·.conjunct s (1 < es.length))) := by
  rw [renderedList_eq_map] at h
  -- A condition alone is no operand of `AND`, so it never has parentheses.
  match es with
  | [] => exact (Except.ok.inj h).symm
  | [e] =>
    obtain ⟨text, htext, rfl⟩ := Emission.outcome_sql_append_ok h
    have hpieces : e.pieces s = text := Emission.pieces_of_ok htext
    show _ = .sql " WHERE " :: (e.pieces s ++ [])
    rw [List.append_nil, hpieces]
  | e :: e' :: es =>
    obtain ⟨text, htext, rfl⟩ := Emission.outcome_sql_append_ok h
    have hjoin : (Emission.join " AND " ((e :: e' :: es).map fun e => (e.rendered s).operand .left
        BinaryOp.and.strength BinaryOp.and.associativity)).outcome = .ok text := by
      rw [← htext, conjunction, List.map_map]
      · rfl
      · simp
    have hbeside : decide (1 < (e :: e' :: es).length) = true := by simp
    rw [Emission.join_ok (fun y _ q hq => y.conjunct_ok hq) hjoin, hbeside, List.map_cons,
      whereClause, List.flatMap_map]

/-- The text of conditions is that of each of them. -/
theorem whereClause_congr {cs ds : List Conjunct}
    (h : cs.map Conjunct.pieces = ds.map Conjunct.pieces) : whereClause cs = whereClause ds := by
  cases cs with
  | nil => rw [List.map_eq_nil_iff.mp h.symm]
  | cons c cs =>
    obtain ⟨d, ds, rfl, hd, hds⟩ := List.map_eq_cons_iff.mp h.symm
    rw [whereClause, whereClause, hd, ← List.flatMap_map Conjunct.pieces (.sql " AND " :: ·),
      ← List.flatMap_map Conjunct.pieces (.sql " AND " :: ·), hds]

/-- A bound on the row number is emitted as it stands among conditions. -/
theorem Bound.pieces_rowNumberAtMost {s : Settings} {b : Bound} (h : b.Writable s)
    (beside : Bool) :
    ((Expr.binary (.raw "ROWNUM") .ltEq b.expr).conjunct s beside).pieces
      = (Conjunct.rowNumberAtMost b).pieces := by
  -- Literals and parameters need no parentheses on the right of a comparison.
  have hbare : (Rendered.mk b.expr (b.expr.emit s)).operand .right BinaryOp.ltEq.strength
      BinaryOp.ltEq.associativity = b.expr.emit s := by
    refine if_neg ?_
    cases b with
    | literal n hn =>
      rw [expr, Expr.strength]
      split <;> decide
    | param name value => exact Bool.false_ne_true
  have hpieces : (Expr.binary (.raw "ROWNUM") .ltEq b.expr).pieces s
      = (Conjunct.rowNumberAtMost b).pieces := by
    refine Emission.pieces_of_ok ?_
    rw [Expr.emit, hbare]
    exact Emission.outcome_append_of_ok (p := [.verbatim "ROWNUM", .sql " <= "]) rfl
      (Bound.outcome_emit h)
  rw [Expr.conjunct, Expr.isDisjunction, Bool.and_false]
  · exact hpieces
  · intro left right heq
    cases heq

/-- Where a condition comes behind others, these are not alone. -/
theorem whereClause_behind {s : Settings} {e : Expr} {c : Conjunct}
    (h : ∀ beside, (e.conjunct s beside).pieces = c.pieces) (es : List Expr) :
    whereClause ((es ++ [e]).map (·.conjunct s (1 < (es ++ [e]).length)))
      = whereClause (es.map (·.conjunct s true) ++ [c]) := by
  have hothers : es.map (·.conjunct s (1 < (es ++ [e]).length)) = es.map (·.conjunct s true) := by
    refine List.map_congr_left fun e' he' => ?_
    -- There is the condition behind them, and the one that is looked at.
    have hlength : 1 < (es ++ [e]).length := by
      have hpos := List.length_pos_of_mem he'
      rw [List.length_append, List.length_singleton]
      omega
    rw [decide_eq_true hlength]
  refine whereClause_congr ?_
  rw [List.map_append, hothers, List.map_append, List.map_append, List.map_singleton,
    List.map_singleton, List.map_singleton, h]

/-- The query for the keys of the rows that pass conditions. -/
def selectKeys (relation : TableRef) (key : Expr) (wheres : List Expr) : Select :=
  .ofCore { Core.empty with
    projections := [key], source := some (.ofTable relation), wheres }

/-- Without row bounds nothing is emitted for them. -/
theorem emitBounds_none (s : Settings) : emitBounds s none none = .empty := by
  unfold emitBounds
  split
  · exact Emission.empty_append _
  · exact Emission.empty_append _

/-- The query for the keys has the clauses of its key, its table and its conditions. -/
theorem selectKeys_standard (s : Settings) (relation : TableRef) (key : Expr)
    (wheres : List Expr) :
    ((selectKeys relation key wheres).parts s).standard s
      = .sql "SELECT " ++ key.emit s ++ (.sql " FROM " ++ relation.emit)
        ++ conditions " WHERE " (renderedList wheres (emitEach s wheres)) := by
  -- All clauses but three are empty.
  have hempty : ((selectKeys relation key wheres).parts s).standard s
      = .sql "SELECT " ++ key.emit s ++ (.sql " FROM " ++ (relation.emit ++ .empty))
        ++ conditions " WHERE " (renderedList wheres (emitEach s wheres))
        ++ .empty ++ .empty ++ .empty ++ .empty ++ emitBounds s none none ++ .empty := rfl
  rw [hempty, emitBounds_none]
  simp only [Emission.append_empty]

/-- The query for the keys is emitted as its text. -/
theorem selectKeys_ok {s : Settings} (hd : s.dialect = .oracle) {relation : TableRef} {key : Expr}
    {wheres : List Expr} {ps : List Piece}
    (h : ((selectKeys relation key wheres).emit s).outcome = .ok ps) :
    ps = KeyQuery.pieces
      { key := key.pieces s
        relation := relation.pieces
        conditions := wheres.map (·.conjunct s (1 < wheres.length))
        around := none } := by
  rw [Select.emit_oracle hd, Select.orderedParts_of_orders_nil rfl, Traced.ok_bind,
    QueryParts.oracle_eq_standard (.inr ⟨rfl, rfl⟩), selectKeys_standard] at h
  obtain ⟨front, clause, hfront, hclause, rfl⟩ := Emission.outcome_append_ok h
  obtain ⟨keys, source, hkeys, hsource, rfl⟩ := Emission.outcome_append_ok hfront
  obtain ⟨text, htext, rfl⟩ := Emission.outcome_sql_append_ok hkeys
  obtain ⟨table, htable, rfl⟩ := Emission.outcome_sql_append_ok hsource
  have hkey : key.pieces s = text := Emission.pieces_of_ok htext
  have hrelation : relation.pieces = table :=
    Except.ok.inj (relation.outcome_emit.symm.trans htable)
  rw [conditions_ok hclause, KeyQuery.pieces, hkey, hrelation]
  simp

/-! ## What is emitted for a choice of rows -/

/-- An offset leads to a query behind it. -/
theorem RowQuery.ofBounds_offset (limit : Option Bound) (o : Bound) :
    ∃ last, ofBounds limit (some o) = some (.behind o last) := by
  cases limit with
  | none => exact ⟨none, rfl⟩
  | some l => exact ⟨some (.offsetPlus o l), rfl⟩

/-- The bound that a literal states is the literal. -/
theorem Expr.bound?_eq_some {e : Expr} {b : Bound} (h : e.bound? = some b) :
    ∃ n hn, e = .literal (.integer n) ∧ b = .literal n hn := by
  unfold bound? at h
  split at h
  · split at h
    · next n hn => exact ⟨n, hn, rfl, (Option.some.inj h).symm⟩
    · cases h
  · cases h

/-- Row bounds that are stated are those of the expressions. -/
theorem map_expr_bound? {x : Option Expr} (h : ∀ e ∈ x, e.bound?.isSome) :
    x = (x.bind Expr.bound?).map Bound.expr := by
  cases x with
  | none => rfl
  | some e =>
    obtain ⟨b, hb⟩ := Option.isSome_iff_exists.mp (h e rfl)
    obtain ⟨n, hn, rfl, rfl⟩ := Expr.bound?_eq_some hb
    rw [Option.bind_some, hb]
    rfl

/-- A row bound that is stated can be written. -/
theorem writable_bound? {s : Settings} {x : Option Expr} :
    ∀ b ∈ x.bind Expr.bound?, b.Writable s := by
  intro b hb
  obtain ⟨e, -, hb⟩ := Option.bind_eq_some_iff.mp hb
  obtain ⟨n, hn, -, rfl⟩ := Expr.bound?_eq_some hb
  exact .inl rfl

namespace RowChoice

variable {s : Settings} {relation : TableRef} {r : RowChoice} {key : Expr}

/-- The row bounds of a choice of rows are stated by literals. -/
structure StatesBounds (r : RowChoice) : Prop where
  limit : ∀ e ∈ r.limit, e.bound?.isSome
  offset : ∀ e ∈ r.offset, e.bound?.isSome

/-- The choice of rows is one by conditions, in the order in which rows are found. -/
structure Ungrouped (r : RowChoice) : Prop where
  orders : r.orders = []
  groups : r.groups = []
  havings : r.havings = []

/-- Without row bounds the filter is the conditions. -/
theorem filter_unbounded (hlimit : r.limit = none) (hoffset : r.offset = none) :
    r.filter s relation = .conditions (r.wheres.map (·.conjunct s (1 < r.wheres.length))) := by
  unfold filter
  rw [hlimit, hoffset]
  cases r.key with
  | none => rfl
  | some key => rfl

/-- With a limit alone the filter has a bound on the row number. -/
theorem filter_limit (hkey : r.key = some key) {l : Bound}
    (hlimit : r.limit.bind Expr.bound? = some l) (hoffset : r.offset = none) :
    r.filter s relation
      = .membership
        { key := key.pieces s
          relation := relation.pieces
          conditions := r.wheres.map (·.conjunct s true) ++ [.rowNumberAtMost l]
          around := none } := by
  unfold filter
  rw [hkey, hlimit, hoffset]
  rfl

/-- With an offset the filter has a query around that for the keys. -/
theorem filter_offset (hkey : r.key = some key) {o : Bound}
    (hoffset : r.offset.bind Expr.bound? = some o) :
    r.filter s relation
      = .membership
        { key := key.pieces s
          relation := relation.pieces
          conditions := r.wheres.map (·.conjunct s (1 < r.wheres.length))
          around := RowQuery.ofBounds (r.limit.bind Expr.bound?) (some o) } := by
  unfold filter
  rw [hkey, hoffset]
  cases r.limit.bind Expr.bound? with
  | none => rfl
  | some l => rfl

/-- A limit becomes a condition of the query for the keys. -/
theorem subselect_pushLimit (hr : r.Ungrouped) (hoffset : r.offset = none) (limit : Expr) :
    (r.subselect relation key).pushLimit limit
      = selectKeys relation key (r.wheres ++ [.binary (.raw "ROWNUM") .ltEq limit]) := by
  simp only [subselect, hr.orders, hr.groups, hr.havings, hoffset]
  rfl

/-- Without its row bounds the query is that for the keys. -/
theorem subselect_unbounded (hr : r.Ungrouped) :
    (r.subselect relation key).unbounded = selectKeys relation key r.wheres := by
  simp only [subselect, hr.orders, hr.groups, hr.havings]
  rfl

/-- The query for the keys with its row bounds is emitted as that of the filter. -/
theorem subselect_ok (hd : s.dialect = .oracle) (hp : s.capabilities.pagination = .rowNumber)
    (hr : r.Ungrouped) (hbounds : r.StatesBounds) (hkey : r.key = some key)
    (hbounded : r.limit.isSome ∨ r.offset.isSome) {inner : List Piece}
    (h : ((r.subselect relation key).emit s).outcome = .ok inner) :
    ∃ k, r.filter s relation = .membership k ∧ k.key = key.pieces s ∧ inner = k.pieces := by
  have hlimit := map_expr_bound? hbounds.limit
  have hoffset := map_expr_bound? hbounds.offset
  -- A limit alone is pushed into the conditions; an offset leads to a query around the keys.
  cases ho : r.offset.bind Expr.bound? with
  | none =>
    have hnone : r.offset = none := by rw [hoffset, ho]; rfl
    obtain ⟨l, hl⟩ : ∃ l, r.limit.bind Expr.bound? = some l := by
      rw [hnone] at hbounded
      rw [hlimit, Option.isSome_map] at hbounded
      exact Option.isSome_iff_exists.mp (hbounded.resolve_right Bool.false_ne_true)
    have hpush : ((r.subselect relation key).parts s).canPushLimit = true := by
      simp only [subselect, hr.orders, hr.groups, hr.havings]
      rfl
    rw [hl] at hlimit
    rw [Select.outcome_emit_pushLimit hd hp hlimit hnone hpush,
      subselect_pushLimit hr hnone] at h
    refine ⟨_, filter_limit hkey hl hnone, rfl, ?_⟩
    rw [selectKeys_ok hd h]
    have hclause := whereClause_behind (Bound.pieces_rowNumberAtMost (s := s)
      (writable_bound? l hl)) r.wheres
    simp only [KeyQuery.pieces, hclause]
  | some o =>
    obtain ⟨last, hw⟩ := RowQuery.ofBounds_offset (r.limit.bind Expr.bound?) o
    rw [← ho] at hw
    have hpush : ¬ (r.subselect relation key).PushesLimit s := by
      rintro ⟨_, hnone, _⟩
      rw [show (r.subselect relation key).offset = r.offset from rfl, hoffset, ho] at hnone
      cases hnone
    rw [Select.outcome_emit_rowBounds hd hp writable_bound? writable_bound? hlimit hoffset rfl hw
      hpush, subselect_unbounded hr] at h
    refine ⟨_, filter_offset hkey ho, rfl, ?_⟩
    cases hps : ((selectKeys relation key r.wheres).emit s).outcome with
    | error e =>
      rw [hps] at h
      cases h
    | ok ps =>
      rw [hps] at h
      -- The sum of the bounds is a number, since there is a fault otherwise.
      cases hover : (RowQuery.behind o last).overflow? with
      | some f =>
        simp only [Except.bind, hover] at h
        cases h
      | none =>
        simp only [Except.bind, hover] at h
        rw [← ho, hw, ← Except.ok.inj h, selectKeys_ok hd hps]
        rfl

/-- The query of the filter has one column, and with an offset another one. -/
theorem columns_filter (hd : s.dialect = .oracle) (hp : s.capabilities.pagination = .rowNumber)
    (hr : r.Ungrouped) (hbounds : r.StatesBounds) (hkey : r.key = some key)
    (hbounded : r.limit.isSome ∨ r.offset.isSome) {inner : List Piece}
    (h : ((r.subselect relation key).emit s).outcome = .ok inner) :
    ∃ k, r.filter s relation = .membership k ∧
      columns k.pieces = some (if r.offset.isSome then 2 else 1) := by
  obtain ⟨k, hfilter, -, rfl⟩ := subselect_ok hd hp hr hbounds hkey hbounded h
  refine ⟨k, hfilter, Select.columns_emit hd hp Nat.one_pos ?_ h⟩
  intro c hc
  rw [List.mem_singleton.mp hc]
  rfl

/-- Row bounds are more than conditions. -/
theorem needsSubselect_of_bounded (h : r.limit.isSome ∨ r.offset.isSome) :
    r.needsSubselect = true := by
  obtain hsome | hsome := h
  · rw [needsSubselect, hsome]
    rfl
  · rw [needsSubselect, hsome, Bool.or_true]
    rfl

/-- A choice of rows by conditions alone is emitted as these. -/
theorem emit_unbounded (hr : r.Ungrouped) (hlimit : r.limit = none) (hoffset : r.offset = none) :
    r.emit s relation = conditions " WHERE " (renderedList r.wheres (emitEach s r.wheres)) := by
  have hneeds : r.needsSubselect = false := by
    rw [needsSubselect, hlimit, hoffset, hr.orders, hr.groups, hr.havings]
    rfl
  have hplain : r.emit s relation = r.emitPlain s := by
    unfold RowChoice.emit
    rw [hneeds]
    cases r.key with
    | none => rfl
    | some key => rfl
  have horderBy : Emission.clause " ORDER BY " ", " (emitOrders s []) = .empty := rfl
  rw [hplain, emitPlain, hr.groups, hr.havings, hr.orders, hlimit, hoffset]
  show conditions " WHERE " _ ++ Emission.clause " ORDER BY " ", " (emitOrders s [])
    ++ emitBounds s none none = _
  rw [horderBy, emitBounds_none, Emission.append_empty, Emission.append_empty]

/-- What is emitted for a choice of rows without ordering and grouping is its filter. -/
theorem emit_filter (hd : s.dialect = .oracle) (hp : s.capabilities.pagination = .rowNumber)
    (hr : r.Ungrouped) (hbounds : r.StatesBounds)
    (hkey : r.limit.isSome ∨ r.offset.isSome → r.key.isSome) {ps : List Piece}
    (h : (r.emit s relation).outcome = .ok ps) : ps = (r.filter s relation).pieces := by
  -- Row bounds need a test of the key; otherwise the conditions stand by themselves.
  by_cases hbounded : r.limit.isSome ∨ r.offset.isSome
  · obtain ⟨key, hk⟩ := Option.isSome_iff_exists.mp (hkey hbounded)
    rw [emit_keyed hk (needsSubselect_of_bounded hbounded)] at h
    obtain ⟨front, hfront, rfl⟩ := Emission.outcome_append_sql_ok h
    obtain ⟨test, inner, htest, hinner, rfl⟩ := Emission.outcome_append_ok hfront
    obtain ⟨clause, hclause, rfl⟩ := Emission.outcome_append_sql_ok htest
    obtain ⟨text, htext, rfl⟩ := Emission.outcome_sql_append_ok hclause
    obtain ⟨k, hfilter, hkeyText, rfl⟩ := subselect_ok hd hp hr hbounds hk hbounded hinner
    have hpieces : key.pieces s = text := Emission.pieces_of_ok htext
    rw [hfilter, RowFilter.pieces, hkeyText, hpieces]
    simp
  · obtain ⟨hlimit, hoffset⟩ : r.limit = none ∧ r.offset = none := by simpa using hbounded
    rw [emit_unbounded hr hlimit hoffset] at h
    rw [filter_unbounded hlimit hoffset]
    exact conditions_ok h

end RowChoice

end SqlCompiler
