import Mathlib
import SqlCompiler.Proofs.Agreement.Placeholders
import SqlCompiler.Proofs.SetOperations.Grouping

/-!
# Reading set operations

A query's cores are written one after the other with their set operators between them, and without
parentheses. The text is read by cutting it at the set operators outside parentheses and grouping
the operators as the standard says (`ReadAs`). What is found between the operators are the cores,
since an operator in a core stands in the parentheses of a subquery (`pieceLaw_skips`). The
operators are written by `walk_set_operator`.
-/

namespace SqlCompiler

/-! ## Operands and operators -/

/-- The set operators by their words. -/
def setOperatorWords : List (String × SetOperator) :=
  [("UNION", ⟨.union, false⟩), ("UNION ALL", ⟨.union, true⟩), ("INTERSECT", ⟨.intersect, false⟩),
   ("INTERSECT ALL", ⟨.intersect, true⟩), ("EXCEPT", ⟨.except, false⟩),
   ("EXCEPT ALL", ⟨.except, true⟩)]

/-- The number of open parentheses after one more character. -/
def enclose (depth : Nat) (c : Char) : Nat :=
  if c = '(' then depth + 1 else if c = ')' then depth - 1 else depth

namespace Piece

/-- The set operator that a piece is. -/
def setOperator? : Piece → Option SetOperator
  | .sql text => setOperatorWords.lookup text
  | _ => none

/-- The number of open parentheses after a piece. What is not fixed text is read as a whole. -/
def depthAfter (depth : Nat) : Piece → Nat
  | .sql text => text.toList.foldl enclose depth
  | _ => depth

end Piece

/-- The operands of set operators: the first one, then each operator with the one behind it. -/
structure Operands where
  first : List Piece
  rest : List (SetOperator × List Piece)

namespace Operands

/-- The operators in their order. -/
def operators (o : Operands) : List SetOperator :=
  o.rest.map (·.1)

/-- All operands in their order. -/
def all (o : Operands) : List (List Piece) :=
  o.first :: o.rest.map (·.2)

/-- Pieces in front belong to the first operand. -/
def before (ps : List Piece) (o : Operands) : Operands :=
  { o with first := ps ++ o.first }

/-- An operator in front has an empty operand before it. -/
def behind (op : SetOperator) (o : Operands) : Operands :=
  ⟨[], (op, o.first) :: o.rest⟩

/-- Cuts pieces at the set operators that stand outside parentheses. -/
def read : Nat → List Piece → Operands
  | _, [] => ⟨[], []⟩
  | depth, p :: ps =>
    match if depth = 0 then p.setOperator? else none with
    | some op => (read 0 ps).behind op
    | none => (read (p.depthAfter depth) ps).before [p]

/-- An operator outside parentheses ends an operand. -/
theorem read_operator {p : Piece} {op : SetOperator} (h : p.setOperator? = some op)
    (ps : List Piece) : read 0 (p :: ps) = (read 0 ps).behind op := by
  rw [read, if_pos rfl, h]

/-- Any other piece belongs to the operand. -/
theorem read_piece {depth : Nat} {p : Piece} (h : depth = 0 → p.setOperator? = none)
    (ps : List Piece) : read depth (p :: ps) = (read (p.depthAfter depth) ps).before [p] := by
  rw [read]
  split_ifs with hdepth
  · rw [h hdepth]
  · rfl

/-- Pieces in front of an operand may be put there one after the other. -/
theorem before_before (ps qs : List Piece) (o : Operands) :
    (o.before qs).before ps = o.before (ps ++ qs) := by
  rw [before, before, before, List.append_assoc]

end Operands

/-- The pieces are read as this tree: they are cut at their set operators, and these are grouped. -/
def ReadAs (ps : List Piece) (t : SetTree) : Prop :=
  SetTree.IsQuery (Operands.read 0 ps).operators t

/-! ## Pieces without operators of their own -/

/-- Inside any number of further parentheses, the pieces lead from depth `i` to depth `j`, and
belong to one operand. -/
def Skips (i j : Nat) (ps : List Piece) : Prop :=
  ∀ depth rest, Operands.read (depth + i) (ps ++ rest)
    = (Operands.read (depth + j) rest).before ps

/-- Parentheses that nest are counted alike inside other ones. -/
theorem foldl_enclose {cs : List Char} {i j : Nat} (h : cs.foldl nest (some i) = some j)
    (depth : Nat) : cs.foldl enclose (depth + i) = depth + j := by
  refine foldl_of_nest (depth + ·) (fun {i k c} hk => ?_) h
  obtain ⟨rfl, rfl⟩ | ⟨rfl, rfl⟩ | ⟨rfl, -, rfl⟩ | ⟨hopen, hclose, -, rfl⟩ := nest_inversion hk
  · rfl
  · rfl
  · rfl
  · simp only [enclose, if_neg hopen, if_neg hclose]

/-- A text that is no word of a set operator is none. -/
theorem setOperator?_eq_none {text : String} (h : text ∉ setOperatorWords.map (·.1)) :
    (Piece.sql text).setOperator? = none := by
  refine List.lookup_eq_none_iff.mpr fun entry hentry => bne_iff_ne.mpr fun heq => h ?_
  rw [heq]
  exact List.mem_map_of_mem hentry

/-- The words of the set operators end a list of projections. -/
theorem setOperatorWords_subset : setOperatorWords.map (·.1) ⊆ clauseTexts := by
  decide

/-- Everything that the grammar emits for an expression belongs to one operand. -/
theorem pieceLaw_skips (style : ParamStyle) : PieceLaw style Skips where
  nil _ _ := rfl
  sql text i j h depth rest := by
    -- A set operator fits only inside parentheses, where it is not looked for.
    have hnone : depth + i = 0 → (Piece.sql text).setOperator? = none := fun h0 =>
      setOperator?_eq_none fun hmem => h.2 (by omega) (setOperatorWords_subset hmem)
    rw [List.singleton_append, Operands.read_piece hnone]
    show (Operands.read (text.toList.foldl enclose (depth + i)) rest).before _ = _
    rw [foldl_enclose h.1]
  verbatim _ _ _ := Operands.read_piece (fun _ => rfl) _
  ident _ _ _ := Operands.read_piece (fun _ => rfl) _
  string _ _ _ := Operands.read_piece (fun _ => rfl) _
  param _ _ _ _ _ := Operands.read_piece (fun _ => rfl) _
  append {i j k ps qs} hp hq depth rest := by
    rw [List.append_assoc, hp, hq, Operands.before_before]
  lift {i j ps} h depth rest := by
    have hlift := h (depth + 1) rest
    rwa [Nat.add_assoc, Nat.add_comm 1, Nat.add_assoc, Nat.add_comm 1] at hlift

/-! ## Cores are operands -/

/-- A fixed text without parentheses that is no set operator. -/
def IsFlat (text : String) : Prop :=
  '(' ∉ text.toList ∧ ')' ∉ text.toList ∧ text ∉ setOperatorWords.map (·.1)

instance (text : String) : Decidable (IsFlat text) :=
  inferInstanceAs (Decidable (_ ∧ _))

/-- Outside parentheses, what is emitted belongs to one operand. -/
def InOperand (e : Emission) : Prop :=
  ∀ ps, e.outcome = .ok ps → Skips 0 0 ps

namespace InOperand

/-- What stands in an operand is read into it. -/
theorem read {e : Emission} {ps : List Piece} (he : InOperand e) (h : e.outcome = .ok ps)
    (rest : List Piece) : Operands.read 0 (ps ++ rest) = (Operands.read 0 rest).before ps :=
  he ps h 0 rest

/-- Nothing stands in an operand. -/
theorem empty : InOperand .empty :=
  PieceLaw.yields_of_outcome (b := .empty) rfl (pieceLaw_skips .inline).nil

/-- Emissions one after the other stand in an operand if each of them does. -/
theorem append {a b : Emission} (ha : InOperand a) (hb : InOperand b) : InOperand (a ++ b) := by
  intro ps hps
  obtain ⟨pa, pb, hpa, hpb, rfl⟩ := Emission.outcome_append_ok hps
  exact (pieceLaw_skips .inline).append (ha pa hpa) (hb pb hpb)

/-- A flat text stands in an operand. -/
theorem sql {text : String} (h : IsFlat text) : InOperand (.sql text) := by
  obtain ⟨hopen, hclose, hword⟩ := h
  -- Without parentheses the depth stays as it is.
  have hdepth : ∀ (cs : List Char) (depth : Nat), '(' ∉ cs → ')' ∉ cs →
      cs.foldl enclose depth = depth := by
    intro cs depth hopen hclose
    induction cs with
    | nil => rfl
    | cons c cs ih =>
      rw [List.mem_cons, not_or] at hopen hclose
      rw [List.foldl_cons, enclose, if_neg (Ne.symm hopen.1), if_neg (Ne.symm hclose.1)]
      exact ih hopen.2 hclose.2
  refine PieceLaw.yields_of_outcome (b := .empty) rfl fun depth rest => ?_
  rw [List.singleton_append, Operands.read_piece fun _ => setOperator?_eq_none hword]
  show (Operands.read (text.toList.foldl enclose _) rest).before _ = _
  rw [hdepth _ _ hopen hclose]

/-- What stands in an operand does so in parentheses, too. -/
theorem parens {e : Emission} (h : InOperand e) : InOperand (.parens e) := by
  intro ps hps
  obtain ⟨front, hfront, rfl⟩ := Emission.outcome_append_sql_ok hps
  obtain ⟨inner, hinner, rfl⟩ := Emission.outcome_sql_append_ok hfront
  have law := pieceLaw_skips .inline
  exact law.append (law.append (law.sql "(" 0 1 (by decide)) (law.lift (h inner hinner)))
    (law.sql ")" 1 0 (by decide))

/-- A list stands in an operand if its items do. -/
theorem join {separator : String} (hsep : IsFlat separator) {es : List Emission}
    (h : ∀ e ∈ es, InOperand e) : InOperand (.join separator es) := by
  induction es with
  | nil => exact empty
  | cons e es ih =>
    obtain ⟨he, hes⟩ := List.forall_mem_cons.mp h
    cases es with
    | nil => exact he
    | cons e' es => exact he.append ((sql hsep).append (ih hes))

/-- A clause stands in an operand if its items do. -/
theorem clause {word separator : String} (hword : IsFlat word) (hsep : IsFlat separator)
    {es : List Emission} (h : ∀ e ∈ es, InOperand e) :
    InOperand (.clause word separator es) := by
  unfold Emission.clause
  split
  · exact empty
  · exact (sql hword).append (join hsep h)

/-- A clause of conditions stands in an operand if all of them do. -/
theorem conditions {word : String} (hword : IsFlat word) {rs : List Rendered}
    (h : ∀ r ∈ rs, InOperand r.emission) : InOperand (SqlCompiler.conditions word rs) := by
  -- Several conditions are operands, some of them in parentheses.
  have hmany : InOperand
      (.join " AND " (rs.map fun r => r.operand .left BinaryOp.and.strength .both)) := by
    refine join (by decide) (List.forall_mem_map.mpr fun r hr => ?_)
    unfold Rendered.operand
    split
    · exact (h r hr).parens
    · exact h r hr
  unfold SqlCompiler.conditions
  split
  · exact empty
  · refine (sql hword).append ?_
    -- One condition alone is written as it is.
    match rs, h, hmany with
    | [], _, hmany => exact hmany
    | [r], h, _ => exact h r List.mem_cons_self
    | _ :: _ :: _, _, hmany => exact hmany

/-- A row bound stands in an operand. -/
theorem bound {s : Settings} (kind : RowBound) {x : Option Rendered}
    (h : ∀ r ∈ x, InOperand r.emission) : InOperand (emitBound? s kind x) := by
  cases x with
  | none => exact empty
  | some r =>
    have hr := h r rfl
    show InOperand (emitBound s kind r.emission)
    unfold emitBound
    split
    · exact (sql (by decide)).append hr
    · exact (sql (by decide)).append hr
    · exact ((sql (by decide)).append hr).append (sql (by decide))
    · exact ((sql (by decide)).append hr).append (sql (by decide))
    · exact PieceLaw.yields_fail 0 0 _ .empty

/-- The row bounds stand in an operand. -/
theorem bounds {s : Settings} {limit offset : Option Rendered}
    (hlimit : ∀ r ∈ limit, InOperand r.emission) (hoffset : ∀ r ∈ offset, InOperand r.emission) :
    InOperand (emitBounds s limit offset) := by
  unfold emitBounds
  split
  · exact (bound _ hoffset).append (bound _ hlimit)
  · exact (bound _ hlimit).append (bound _ hoffset)

/-- An expression belongs to one operand. -/
theorem expr (s : Settings) (e : Expr) : InOperand (e.emit s) :=
  e.emit_agree (pieceLaw_skips s.paramStyle).grammarLaw e (e.agree_self fun _ => rfl)

/-- An expression of a list belongs to one operand. -/
theorem of_mem_map (s : Settings) {es : List Expr} {x : Emission} (h : x ∈ es.map (·.emit s)) :
    InOperand x := by
  obtain ⟨e, -, rfl⟩ := List.mem_map.mp h
  exact expr s e

/-- A condition belongs to one operand. -/
theorem of_mem_rendered (s : Settings) {es : List Expr} {r : Rendered}
    (h : r ∈ es.map (·.rendered s)) : InOperand r.emission := by
  obtain ⟨e, -, rfl⟩ := List.mem_map.mp h
  exact expr s e

/-- A source belongs to one operand. -/
theorem source (s : Settings) (j : JoinSource) : InOperand (j.emit s) := by
  have hagree := emitSource_agree (pieceLaw_skips s.paramStyle).grammarLaw (some j) _
    (agree_self_source (fun _ => rfl) (some j))
  obtain ⟨base, joins⟩ := j
  cases hagree with
  | some h => exact h

/-- A core is one operand. -/
theorem core (s : Settings) (c : Core) : InOperand (c.parts s).emit := by
  have hselect : InOperand (.sql (if c.distinct then "SELECT DISTINCT " else "SELECT ")) := by
    cases c.distinct <;> exact sql (by decide)
  have hlist : InOperand (if (c.parts s).projections.isEmpty then .sql "*"
      else .join ", " (c.parts s).projections) := by
    split
    · exact sql (by decide)
    · exact join (by decide) fun _ => of_mem_map s
  refine ((((hselect.append hlist).append ?_).append
    (conditions (by decide) fun _ => of_mem_rendered s)).append
    (clause (by decide) (by decide) fun _ => of_mem_map s)).append
    (conditions (by decide) fun _ => of_mem_rendered s)
  show InOperand (after " FROM " (c.source.map (·.emit s)))
  cases c.source with
  | none => exact empty
  | some j => exact (sql (by decide)).append (source s j)

end InOperand

/-- The operand holds the pieces of the core. -/
def Core.Within (s : Settings) (c : Core) (operand : List Piece) : Prop :=
  ∃ ps, (c.parts s).emit.outcome = .ok ps ∧ ps <:+: operand

/-- A set operator is read as itself. -/
theorem setOperator?_word {s : Settings} (hd : s.dialect = .generic) {op : SetOperator}
    {ps : List Piece} (h : (op.emit s).outcome = .ok ps) :
    ∃ p, ps = [p] ∧ p.setOperator? = some op := by
  obtain ⟨kind, all⟩ := op
  simp only [SetOperator.emit, hd] at h
  obtain rfl := Except.ok.inj h
  refine ⟨_, rfl, ?_⟩
  cases kind <;> cases all <;> rfl

/-- Behind the first core, every set operator is found with the core behind it. -/
theorem read_laterCores {s : Settings} (hd : s.dialect = .generic) {cs : List Core} {index : Nat}
    {ps tail : List Piece}
    (h : (laterCores s index (cs.map (·.parts s))).outcome = .ok ps) (htail : Skips 0 0 tail) :
    (Operands.read 0 (ps ++ tail)).operators.map some = cs.map (·.setOp) ∧
      List.Forall₂ (Core.Within s) cs ((Operands.read 0 (ps ++ tail)).rest.map (·.2)) := by
  induction cs generalizing index ps with
  | nil =>
    obtain rfl := Except.ok.inj h
    have hread := htail 0 []
    rw [List.append_nil] at hread
    rw [List.nil_append, hread]
    exact ⟨rfl, .nil⟩
  | cons c cs ih =>
    obtain ⟨front, later, hfront, hlater, rfl⟩ := Emission.outcome_append_ok h
    obtain ⟨hoperators, hrest⟩ := ih hlater
    change (match c.setOp with
      | some op => Emission.sql " " ++ op.emit s ++ Emission.sql " " ++ (c.parts s).emit
      | none => .fail (.missingSetOperator index)).outcome = .ok front at hfront
    -- A later core without an operator is refused.
    cases hop : c.setOp with
    | none =>
      rw [hop] at hfront
      cases hfront
    | some op =>
      rw [hop] at hfront
      obtain ⟨p₁, core, h₁, hcore, rfl⟩ := Emission.outcome_append_ok hfront
      obtain ⟨p₂, blank, h₂, hblank, rfl⟩ := Emission.outcome_append_ok h₁
      obtain ⟨first, word, hfirst, hword, rfl⟩ := Emission.outcome_append_ok h₂
      obtain ⟨p, rfl, hp⟩ := setOperator?_word hd hword
      have hflat : InOperand (.sql " ") := InOperand.sql (by decide)
      -- The blanks around the operator end one operand and begin the next.
      have hread : Operands.read 0 (first ++ [p] ++ blank ++ core ++ later ++ tail)
          = (((Operands.read 0 (later ++ tail)).before (blank ++ core)).behind op).before
              first := by
        simp only [List.append_assoc, List.cons_append, List.nil_append]
        rw [hflat.read hfirst, Operands.read_operator hp, hflat.read hblank,
          (InOperand.core s c).read hcore, Operands.before_before]
      rw [hread]
      refine ⟨?_, .cons ⟨core, hcore, ?_⟩ hrest⟩
      · rw [List.map_cons, hop, ← hoperators]
        rfl
      · show core <:+: (blank ++ core) ++ (Operands.read 0 (later ++ tail)).first
        exact ⟨blank, _, rfl⟩

/-- For generic SQL, the set operators that are read off a query are those of its cores, and the
operands are the cores. -/
theorem Select.read_emit {s : Settings} (hd : s.dialect = .generic) {q : Select} {ps : List Piece}
    (h : (q.emit s).outcome = .ok ps) :
    ∃ c cs, q.cores = c :: cs ∧ c.setOp = none ∧
      (Operands.read 0 ps).operators.map some = cs.map (·.setOp) ∧
      List.Forall₂ (Core.Within s) q.cores (Operands.read 0 ps).all := by
  rw [Select.emit_generic hd, Select.parts_eq] at h
  obtain ⟨p₁, lock, h₁, hlock, rfl⟩ := Emission.outcome_append_ok h
  obtain ⟨p₂, bounds, h₂, hbounds, rfl⟩ := Emission.outcome_append_ok h₁
  obtain ⟨cores, orders, hcores, horders, rfl⟩ := Emission.outcome_append_ok h₂
  have horders : Skips 0 0 orders := by
    refine InOperand.clause (by decide) (by decide) (fun x hx => ?_) _ horders
    obtain ⟨⟨expr, direction⟩, -, rfl⟩ := List.mem_map.mp hx
    refine (InOperand.expr s expr).append ?_
    obtain _ | direction := direction
    · exact InOperand.empty
    · cases direction <;> exact InOperand.sql (by decide)
  have hbounds : Skips 0 0 bounds := by
    have hbound : ∀ (e : Option Expr), ∀ r ∈ e.map (·.rendered s), InOperand r.emission := by
      intro e r hr
      obtain ⟨e, -, rfl⟩ := Option.map_eq_some_iff.mp hr
      exact InOperand.expr s e
    exact InOperand.bounds (hbound _) (hbound _) _ hbounds
  have hlock : Skips 0 0 lock := by
    cases hl : q.lock with
    | none =>
      rw [hl] at hlock
      exact InOperand.empty _ hlock
    | some l =>
      rw [hl] at hlock
      refine InOperand.sql ?_ _ hlock
      cases l <;> decide
  -- What stands behind the last core belongs to it as an operand.
  have htail : Skips 0 0 (orders ++ (bounds ++ lock)) :=
    (pieceLaw_skips .inline).append horders ((pieceLaw_skips .inline).append hbounds hlock)
  obtain ⟨_ | ⟨c, cs⟩, qorders, limit, offset, qlock⟩ := q
  · cases hcores
  · obtain ⟨core, later, hcore, hlater, rfl⟩ := Emission.outcome_append_ok hcores
    change (match c.setOp with
      | some op => Emission.fail (.leadingSetOperator op.kind)
      | none => (c.parts s).emit).outcome = .ok core at hcore
    cases hop : c.setOp with
    | some op =>
      rw [hop] at hcore
      cases hcore
    | none =>
      rw [hop] at hcore
      obtain ⟨hoperators, hrest⟩ := read_laterCores hd hlater htail
      simp only [List.append_assoc]
      rw [(InOperand.core s c).read hcore]
      exact ⟨c, cs, rfl, hop, hoperators, .cons ⟨core, hcore, [], _, rfl⟩ hrest⟩

/-! ## The rows of a query -/

section Rows

variable {α : Type} [DecidableEq α]

/-- The rows of one more core: its own, or those of the cores before it and its own combined. -/
def Core.combine (rows : Nat → Multiset α) (acc : Multiset α) (c : Core × Nat) : Multiset α :=
  match c.1.setOp with
  | none => rows c.2
  | some op => op.rows acc (rows c.2)

/-- The rows of a query where each core is combined with all cores before it. -/
def Select.combined (rows : Nat → Multiset α) (q : Select) : Multiset α :=
  q.cores.zipIdx.foldl (Core.combine rows) 0

/-- Combining the cores one after the other is combining their rows from the left. -/
theorem foldl_combine (rows : Nat → Multiset α) {cs : List Core} {ops : List SetOperator}
    (h : ops.map some = cs.map (·.setOp)) (acc : Multiset α) (next : Nat) :
    (cs.zipIdx next).foldl (Core.combine rows) acc = SetTree.leftRows rows acc next ops := by
  -- Core by core, with the number of the next one.
  induction cs generalizing ops acc next with
  | nil =>
    obtain rfl := List.map_eq_nil_iff.mp h
    rfl
  | cons c cs ih =>
    obtain _ | ⟨op, ops⟩ := ops
    · cases h
    · obtain ⟨hop, hops⟩ := List.cons.inj h
      have hcombine : Core.combine rows acc (c, next) = op.rows acc (rows next) := by
        rw [Core.combine, show c.setOp = some op from hop.symm]
      rw [List.zipIdx_cons, List.foldl_cons, hcombine, ih hops, SetTree.leftRows]

end Rows

/-- For generic SQL, a compiled query is read as one tree of its cores and set operators. Its rows
are those of each core combined with all cores before it, whatever the rows of the cores are,
exactly if every intersection comes before every union and difference. -/
theorem compile_setOperations_iff {α : Type} [DecidableEq α] [Inhabited α] {o : Options}
    {q : Select} {c : Compiled} (hd : o.target.dialect = .generic) {layout : String → String}
    (hlayout : o.Keeps layout) (h : (compile o (.select q) layout).outcome = .ok c) :
    ∃ ps t, (q.emit o.choices).outcome = .ok ps ∧
      c.sql = Piece.render o.choices.paramStyle ps ++ o.closing ∧
      (∀ t', ReadAs ps t' ↔ t' = t) ∧
      List.Forall₂ (Core.Within o.choices) q.cores (Operands.read 0 ps).all ∧
      ((∀ rows : Nat → Multiset α, t.rows rows = q.combined rows) ↔
        SetTree.IntersectsFirst (q.cores.filterMap (·.setOp))) := by
  obtain ⟨-, ps, hps, rfl⟩ := (outcome_compile_iff hlayout).mp h
  obtain ⟨first, cs, hcores, hfirst, hoperators, hwithin⟩ := Select.read_emit hd hps
  -- The operators that are read are those of the cores, in order.
  have hops : q.cores.filterMap (·.setOp) = (Operands.read 0 ps).operators := by
    have := congrArg (List.filterMap id) hoperators
    rw [List.filterMap_map, List.filterMap_map] at this
    rw [hcores, List.filterMap_cons_none hfirst]
    exact this.symm.trans List.filterMap_some
  have hcombined : ∀ rows : Nat → Multiset α, q.combined rows
      = SetTree.leftRows rows (rows 0) 1 (Operands.read 0 ps).operators := by
    intro rows
    rw [Select.combined, hcores, List.zipIdx_cons, List.foldl_cons, foldl_combine rows hoperators,
      Core.combine, hfirst]
  refine ⟨ps, _, hps, rfl, fun t' => SetTree.isQuery_iff, hwithin, ?_⟩
  simp only [hcombined]
  rw [hops]
  exact SetTree.rows_eq_leftRows_iff (SetTree.isQuery_iff.mpr rfl)

/-- An intersection and a union after it are read from the left, also where a projection holds a
query with a union of its own. -/
theorem setOperations_of_intersect_union :
    let o : Options := { format := false, target := ⟨some .generic⟩, signatureComment := false }
    let inner : Select := (Select.fromTable "v" [.col "b"]).combine .union true
      (.fromTable "w" [.col "b"])
    let q : Select := ((Select.fromTable "t" [.col "a", .subquery inner]).combine .intersect false
      (.fromTable "u" [.col "a", .col "b"])).combine .union true
      (.fromTable "v" [.col "a", .col "b"])
    ∃ ps t, (q.emit o.choices).outcome = .ok ps ∧ ReadAs ps t ∧
      ∀ rows : Nat → Multiset Nat, t.rows rows = q.combined rows := by
  intro o inner q
  obtain ⟨c, hc⟩ : ∃ c, (compile o (.select q)).outcome = .ok c := ⟨_, rfl⟩
  obtain ⟨ps, t, hps, -, hread, -, hrows⟩ :=
    compile_setOperations_iff (α := Nat) rfl (Options.keeps_of_unformatted rfl _) hc
  exact ⟨ps, t, hps, (hread t).mpr rfl, hrows.mpr (by decide)⟩

set_option maxRecDepth 2000 in
/-- With an intersection after a union, the text is read with the intersection first. One row in the
first core is then kept, though it is in none of the others. -/
theorem not_combined_of_union_intersect :
    let o : Options := { format := false, target := ⟨some .generic⟩, signatureComment := false }
    let q : Select := ((Select.fromTable "t" [.col "a"]).combine .union false
      (.fromTable "u" [.col "a"])).combine .intersect false (.fromTable "v" [.col "a"])
    let rows : Nat → Multiset Nat := fun i => if i = 0 then {7} else 0
    (compile o (.select q)).outcome
      = .ok ⟨"SELECT a FROM t UNION SELECT a FROM u INTERSECT SELECT a FROM v", []⟩ ∧
    ∃ ps t, (q.emit o.choices).outcome = .ok ps ∧ ReadAs ps t ∧
      t.rows rows = {7} ∧ q.combined rows = 0 := by
  intro o q rows
  constructor
  · cbv
  · obtain ⟨ps, hps⟩ : ∃ ps, (q.emit o.choices).outcome = .ok ps := ⟨_, rfl⟩
    obtain ⟨c, cs, hcores, -, hoperators, -⟩ := Select.read_emit rfl hps
    obtain ⟨rfl, rfl⟩ := List.cons.inj hcores
    have hops : (Operands.read 0 ps).operators = [⟨.union, false⟩, ⟨.intersect, false⟩] :=
      List.map_injective_iff.mpr (Option.some_injective _) hoperators
    refine ⟨ps, SetTree.group [⟨.union, false⟩, ⟨.intersect, false⟩], hps, ?_, by decide, by decide⟩
    rw [ReadAs, hops]
    exact SetTree.isQuery_iff.mpr rfl

end SqlCompiler
