import SqlCompiler.Proofs.Reading.Grouping

/-!
# Operations on integers

The value of an operation on integers, and what its text evaluates to. The text has the value of the
regrouped operation. That is the value of the operation if the operators that are regrouped are
associative (`IsRegroupable`), and for two operators only then (`operation_keepsValue_iff`).
-/

namespace SqlCompiler.Reading

/-- What an infix operator gives on integers. Division truncates, and there is none by zero;
comparisons and logic give one or zero. -/
def operate (x : Int) (op : BinaryOp) (y : Int) : Option Int :=
  match op with
  | .add => some (x + y)
  | .sub => some (x - y)
  | .mul => some (x * y)
  | .div => if y = 0 then none else some (x.tdiv y)
  | .mod => if y = 0 then none else some (x.tmod y)
  | .eq => some (decide (x = y)).toInt
  | .notEq => some (decide (x ≠ y)).toInt
  | .lt => some (decide (x < y)).toInt
  | .ltEq => some (decide (x ≤ y)).toInt
  | .gt => some (decide (y < x)).toInt
  | .gtEq => some (decide (y ≤ x)).toInt
  | .and => some (decide (x ≠ 0 ∧ y ≠ 0)).toInt
  | .or => some (decide (x ≠ 0 ∨ y ≠ 0)).toInt
  | .concat | .like | .notLike => none

/-- A row of integers. -/
abbrev IntegerRow := Option String → String → Int

/-- The meaning that operations have on integers; there is none for what is no operation. -/
def arithmetic (row : IntegerRow) : Meaning (Option Int) where
  column relation name := some (row relation name)
  integer n := some n
  string _ := none
  null := none
  rowNumber := none
  param _ _ := none
  call _ _ _ := none
  binary v op w := v.bind fun x => w.bind fun y => operate x op y
  unary op v :=
    match op with
    | .neg => v.map fun x => -x
    | .not => v.map fun x => (decide (x = 0)).toInt
  isNull _ _ := none
  between _ _ _ _ := none
  among _ _ _ := none

/-- The value of an operation in a row. -/
def value (row : IntegerRow) (e : Expr) : Option Int :=
  mean (arithmetic row) e

/-- The operators of equal strength that may be grouped from the left or from the right. -/
def IsRegroupable (op o : BinaryOp) : Prop :=
  (op, o) ∈ [(BinaryOp.add, BinaryOp.add), (.add, .sub), (.mul, .mul), (.and, .and), (.or, .or)]

instance (op o : BinaryOp) : Decidable (IsRegroupable op o) :=
  inferInstanceAs (Decidable ((op, o) ∈ _))

/-- On integers those operators associate. -/
theorem associates_of_isRegroupable (row : IntegerRow) {op o : BinaryOp} (h : IsRegroupable op o) :
    Associates (arithmetic row) op o := by
  rintro (_ | x) (_ | y) (_ | z)
  case some.some.some =>
    show (operate x op y).bind (fun v => operate v o z) = (operate y o z).bind (operate x op)
    simp only [IsRegroupable, List.mem_cons, List.not_mem_nil, or_false, Prod.mk.injEq] at h
    -- For `AND` and `OR` it only matters which integers are zero.
    rcases h with ⟨rfl, rfl⟩ | ⟨rfl, rfl⟩ | ⟨rfl, rfl⟩ | ⟨rfl, rfl⟩ | ⟨rfl, rfl⟩
    · exact congrArg some (Int.add_assoc x y z)
    · exact congrArg some (Int.add_sub_assoc x y z)
    · exact congrArg some (Int.mul_assoc x y z)
    · by_cases hx : x = 0 <;> by_cases hy : y = 0 <;> by_cases hz : z = 0 <;>
        simp [operate, hx, hy, hz]
    · by_cases hx : x = 0 <;> by_cases hy : y = 0 <;> by_cases hz : z = 0 <;>
        simp [operate, hx, hy, hz]
  -- Without one of the operands there is no value either way.
  all_goals simp [arithmetic]

/-- Integers that tell apart how operators of equal strength are grouped. -/
def distinguishing : List (Int × Int × Int) :=
  [(2, 1, 2), (-1, -1, -1), (-1, -1, 0), (-1, -1, 1), (1, -1, 0)]

/-- Other operators of equal strength may not be regrouped. -/
theorem exists_distinguishing : ∀ op ∈ operators, ∀ o ∈ operators, op.associativity = .both →
    o.strength = op.strength → ¬ IsRegroupable op o → ∃ t ∈ distinguishing,
      (operate t.1 op t.2.1).bind (fun v => operate v o t.2.2)
        ≠ (operate t.2.1 o t.2.2).bind (operate t.1 op) := by
  decide

/-- The right operand of an operator, written without parentheses, is regrouped. -/
theorem regroup_two {op o : BinaryOp} (hboth : op.associativity = .both)
    (hsame : o.strength = op.strength) (x y z : String) :
    regroup (.binary (.col x) op (.binary (.col y) o (.col z)))
      = .binary (.binary (.col x) op (.col y)) o (.col z) := by
  have hinner : regroup (.binary (.col y) o (.col z)) = .binary (.col y) o (.col z) := by
    rw [regroup]
    split
    · rfl
    · rfl
  rw [regroup, if_pos hboth, hinner, graft, if_pos hsame]
  rfl

/-- Operators of equal strength on columns may be regrouped if the value never changes. -/
theorem isRegroupable_of_value {op o : BinaryOp} (hop : op ∈ operators) (ho : o ∈ operators)
    (hboth : op.associativity = .both) (hsame : o.strength = op.strength) {x y z : String}
    (hnodup : [x, y, z].Nodup)
    (h : ∀ row, value row (.binary (.binary (.col x) op (.col y)) o (.col z))
      = value row (.binary (.col x) op (.binary (.col y) o (.col z)))) : IsRegroupable op o := by
  refine Decidable.byContradiction fun hnot => ?_
  obtain ⟨⟨a, b, c⟩, _, hne⟩ := exists_distinguishing op hop o ho hboth hsame hnot
  -- The row has the integers that tell the groupings apart in the three columns.
  let row : IntegerRow := fun _ name => if name = x then a else if name = y then b else c
  simp only [List.nodup_cons, List.mem_cons, List.not_mem_nil, or_false, not_or] at hnodup
  obtain ⟨⟨hxy, hxz⟩, hyz, _⟩ := hnodup
  have hx : row none x = a := if_pos rfl
  have hy : row none y = b := (if_neg (Ne.symm hxy)).trans (if_pos rfl)
  have hz : row none z = c := (if_neg (Ne.symm hxz)).trans (if_neg (Ne.symm hyz))
  have hrow : (operate (row none x) op (row none y)).bind (fun v => operate v o (row none z))
      = (operate (row none y) o (row none z)).bind (operate (row none x) op) := h row
  rw [hx, hy, hz] at hrow
  exact hne hrow

/-- The text of an operation has the value of the operation in every row of integers. -/
def KeepsValue (st : Settings) (e : Expr) : Prop :=
  ∃ ps, (e.emit st).outcome = .ok ps ∧ ∀ row,
    read (arithmetic row) .questionMark (Piece.render st.paramStyle ps) [] = some (value row e)

/-- The text of an operation has the value of the regrouped operation in every row of integers. -/
theorem read_value {e : Expr} (h : IsOperation e) (st : Settings) :
    ∃ ps, (e.emit st).outcome = .ok ps ∧ ∀ row,
      read (arithmetic row) .questionMark (Piece.render st.paramStyle ps) []
        = some (value row (regroup e)) := by
  obtain ⟨ps, _, hps⟩ := fixed_operation h
  refine ⟨ps, hps st, fun row => ?_⟩
  obtain ⟨qs, hqs, hread⟩ := read_regroup (M := arithmetic row) h st
  obtain rfl : ps = qs := Except.ok.inj ((hps st).symm.trans hqs)
  exact hread

/-- The text keeps the value of an operation if regrouping does. -/
theorem keepsValue_iff_regroup {e : Expr} (h : IsOperation e) (st : Settings) :
    KeepsValue st e ↔ ∀ row, value row (regroup e) = value row e := by
  obtain ⟨ps, hps, hread⟩ := read_value h st
  constructor
  · rintro ⟨qs, hqs, hvalue⟩ row
    obtain rfl : ps = qs := Except.ok.inj (hps.symm.trans hqs)
    exact Option.some.inj ((hread row).symm.trans (hvalue row))
  · intro hvalue
    refine ⟨ps, hps, fun row => ?_⟩
    rw [hread row, hvalue row]

/-- The text of an operation has the value of the regrouped operation, so it keeps the value of the
operation exactly if regrouping does. Regrouping does if only operators are regrouped that
associate, and for operations of two operators on columns only then. -/
theorem operation_keepsValue_iff (st : Settings) {e : Expr} (h : IsOperation e) :
    (∃ ps, (e.emit st).outcome = .ok ps ∧ ∀ row,
      read (arithmetic row) .questionMark (Piece.render st.paramStyle ps) []
        = some (value row (regroup e))) ∧
    (KeepsValue st e ↔ ∀ row, value row (regroup e) = value row e) ∧
    (Grouped IsRegroupable e → KeepsValue st e) ∧
    ∀ (op o : BinaryOp) (x y z : String), [x, y, z].Nodup →
      e = .binary (.col x) op (.binary (.col y) o (.col z)) →
      KeepsValue st e → Grouped IsRegroupable e := by
  have hiff := keepsValue_iff_regroup h st
  refine ⟨read_value h st, hiff, fun hgrouped => hiff.mpr fun row => ?_, ?_⟩
  · exact mean_regroup h (hgrouped.mono (fun _ _ => associates_of_isRegroupable row) _)
  · rintro op o x y z hnodup rfl hkeeps
    have hvalue := hiff.mp hkeeps
    obtain ⟨hop, ho⟩ : op ∈ operators ∧ o ∈ operators := by
      cases h with
      | binary hop _ hright =>
        cases hright with
        | binary ho _ _ => exact ⟨hop, ho⟩
    -- Only the inner operation can be regrouped, and it has one operator.
    refine ⟨trivial, ⟨trivial, trivial, fun _ _ _ ho => absurd ho List.not_mem_nil⟩,
      fun hsame hboth o' ho' => ?_⟩
    obtain rfl : o' = o := by simpa [spine, Expr.col] using ho'
    exact isRegroupable_of_value hop ho hboth hsame hnodup fun row =>
      (congrArg (value row) (regroup_two hboth hsame x y z)).symm.trans (hvalue row)

/-- A test of a sum with a difference on its right and of a product with a product on its right: the
text is `a + b - c <= 2 * d * -a AND NOT b = c`. -/
theorem operation_keepsValue_of_test :
    let e : Expr :=
      .binary
        (.binary (.binary (.col "a") .add (.binary (.col "b") .sub (.col "c"))) .ltEq
          (.binary (.int 2) .mul (.binary (.col "d") .mul (.unary .neg (.col "a")))))
        .and (.unary .not (.eq (.col "b") (.col "c")))
    IsOperation e ∧ Grouped IsRegroupable e ∧ ∀ st, KeepsValue st e := by
  intro e
  have hcolumn : ∀ name, IsOperation (.col name) := fun name => .column none name
  have hsum : IsOperation (.binary (.col "a") .add (.binary (.col "b") .sub (.col "c"))) :=
    .binary (by decide) (hcolumn _) (.binary (by decide) (hcolumn _) (hcolumn _))
  have hproduct : IsOperation
      (.binary (.int 2) .mul (.binary (.col "d") .mul (.unary .neg (.col "a")))) :=
    .binary (by decide) (.integer (by decide))
      (.binary (by decide) (hcolumn _) (.unary _ (hcolumn _)))
  have he : IsOperation e :=
    .binary (by decide) (.binary (by decide) hsum hproduct)
      (.unary _ (.binary (by decide) (hcolumn _) (hcolumn _)))
  have hgrouped : Grouped IsRegroupable e := by
    simp [e, Grouped, spine, Expr.col, Expr.int, Expr.eq, Expr.strength, BinaryOp.strength,
      UnaryOp.strength, IsRegroupable]
  exact ⟨he, hgrouped, fun st => (operation_keepsValue_iff st he).2.2.1 hgrouped⟩

/-- The product of a number and a quotient is written `a * b / c`, which is read as the quotient of
a product. -/
theorem not_keepsValue_quotient :
    let o : Options := { format := false, target := ⟨some .generic⟩, signatureComment := false }
    let e : Expr := .binary (.col "a") .mul (.binary (.col "b") .div (.col "c"))
    let row : IntegerRow := fun _ name => if name = "b" then 1 else 2
    (compile o (.select (.fromTable "t" [e]))).outcome = .ok ⟨"SELECT a * b / c FROM t", []⟩ ∧
    read (arithmetic row) .questionMark "a * b / c" [] = some (some 1) ∧
    value row e = some 0 ∧ ∀ st, ¬ KeepsValue st e := by
  intro o e row
  have hread : read (arithmetic row) .questionMark "a * b / c" [] = some (some 1) := rfl
  have hvalue : value row e = some 0 := rfl
  refine ⟨rfl, hread, hvalue, ?_⟩
  rintro st ⟨ps, hps, hkeeps⟩
  obtain rfl : ps = [.ident "a", .sql " * ", .ident "b", .sql " / ", .ident "c"] :=
    Except.ok.inj (hps.symm.trans rfl)
  have htext := hkeeps row
  rw [hvalue] at htext
  cases hread.symm.trans htext

end SqlCompiler.Reading
