import SqlCompiler.Proofs.Reading.Tree

/-!
# How operations are grouped

Operations are columns and numbers with the arithmetic, comparison and logic operators
(`IsOperation`). A right operand as strong as its operator is written without parentheses unless the
operator is a difference, a quotient or a remainder, and operators of equal strength are read from
the left. So the text of an operation means the operation with such operands regrouped (`regroup`),
whatever the operators mean (`read_regroup`). Where the operators that are regrouped associate, that
is what the operation means (`mean_regroup`).
-/

namespace SqlCompiler.Reading

variable {α : Type} {M : Meaning α} {st : Settings}

/-- The infix operators of operations. -/
def operators : List BinaryOp :=
  [.add, .sub, .mul, .div, .mod, .eq, .notEq, .lt, .ltEq, .gt, .gtEq, .and, .or]

/-- An expression of columns, numbers without a sign and operators. -/
inductive IsOperation : Expr → Prop where
  | column (relation : Option String) (name : String) : IsOperation (.column relation name)
  | integer {n : Int64} (h : ¬ n < 0) : IsOperation (.literal (.integer n))
  | binary {left right : Expr} {op : BinaryOp} (hop : op ∈ operators) (hl : IsOperation left)
      (hr : IsOperation right) : IsOperation (.binary left op right)
  | unary (op : UnaryOp) {e : Expr} (h : IsOperation e) : IsOperation (.unary op e)

/-- Each right operand that is as strong as its operator and stands without parentheses has only
operators that may be regrouped with it. -/
def Grouped (may : BinaryOp → BinaryOp → Prop) : Expr → Prop
  | .binary left op right =>
    Grouped may left ∧ Grouped may right ∧
      (right.strength = op.strength → op.associativity = .both → ∀ o ∈ spine right, may op o)
  | .unary _ operand => Grouped may operand
  | _ => True

/-- What has no operator at its top has nothing to regroup. -/
theorem grouped_of_atom {may : BinaryOp → BinaryOp → Prop} {e : Expr}
    (hbinary : ∀ left op right, e ≠ .binary left op right)
    (hunary : ∀ op operand, e ≠ .unary op operand) : Grouped may e := by
  unfold Grouped
  split
  · exact absurd rfl (hbinary _ _ _)
  · exact absurd rfl (hunary _ _)
  · trivial

/-- More operators may be regrouped. -/
theorem Grouped.mono {may may' : BinaryOp → BinaryOp → Prop} (hmay : ∀ op o, may op o → may' op o)
    (e : Expr) (h : Grouped may e) : Grouped may' e := by
  fun_induction Grouped may e with
  | case1 left op right ihl ihr =>
    exact ⟨ihl h.1, ihr h.2.1, fun hs hb o ho => hmay op o (h.2.2 hs hb o ho)⟩
  | case2 op operand ih => exact ih h
  | case3 e hbinary hunary => exact grouped_of_atom hbinary hunary

/-- An operation binds as strong as an infix operator only if it is an infix operation. -/
theorem IsOperation.strong {e : Expr} (h : IsOperation e) :
    level e = e.strength ∧ ∀ op : BinaryOp, op.strength ≤ e.strength →
      op.strength < level e ∨ IsBinary e := by
  -- No operator binds as strongly as a column or a number.
  have hatom : ∀ op : BinaryOp, op.strength < 20 := fun op =>
    Nat.lt_of_le_of_lt (strength_le_mul op) (by decide)
  cases h with
  | column relation name => exact ⟨rfl, fun op _ => .inl (hatom op)⟩
  | @integer n h =>
    have hlevel : level (.literal (.integer n)) = 20 := if_neg h
    exact ⟨rfl, fun op _ => .inl (hlevel ▸ hatom op)⟩
  | binary hop hl hr => exact ⟨rfl, fun _ _ => .inr ⟨_, _, _, rfl⟩⟩
  | unary op' h =>
    exact ⟨rfl, fun op hle => .inl (Nat.lt_of_le_of_ne hle (strength_ne_unary op op'))⟩

/-- An operation is read back, where it has no names that spell placeholders and what may be
regrouped associates. -/
theorem reads_operation (hstyle : st.paramStyle ≠ .dollar) {e : Expr} (h : IsOperation e)
    (hgrouped : Grouped (Associates M) e) : Reads M st e := by
  -- Along the operation, since each operator is read after its operands.
  induction h with
  | column relation name =>
    exact reads_column (fun r _ => isNumbered_of_ne_dollar hstyle _)
      (isNumbered_of_ne_dollar hstyle _)
  | integer hsign => exact reads_integer _ fun hneg => absurd hneg hsign
  | @binary left right op hop hl hr ihl ihr =>
    obtain ⟨hgl, hgr, hassoc⟩ := hgrouped
    have hconcat : op ≠ .concat := by
      rintro rfl
      exact absurd hop (by decide)
    exact reads_binary hconcat (ihl hgl) (ihr hgr) (hl.strong.2 op) (hr.strong.2 op) hassoc
  | unary op h ih => exact reads_unary op (ih hgrouped) (.inr h.strong.1)

/-- An operator and its left operand before an operand as strong: they go to the first operand of
it. -/
def graft (left : Expr) (op : BinaryOp) : Expr → Expr
  | .binary a o b =>
    if o.strength = op.strength then .binary (graft left op a) o b
    else .binary left op (.binary a o b)
  | right => .binary left op right

/-- An operation with right operands that stand without parentheses grouped from the left. -/
def regroup : Expr → Expr
  | .binary left op right =>
    if op.associativity = .both then graft (regroup left) op (regroup right)
    else .binary (regroup left) op (regroup right)
  | .unary op operand => .unary op (regroup operand)
  | e => e

/-- Grafting keeps the strength of the operator. -/
@[simp]
theorem strength_graft (left : Expr) (op : BinaryOp) (right : Expr) :
    (graft left op right).strength = op.strength := by
  unfold graft
  split
  · split
    · next hsame => exact hsame
    · rfl
  · rfl

/-- Regrouping keeps the strength. -/
@[simp]
theorem strength_regroup (e : Expr) : (regroup e).strength = e.strength := by
  unfold regroup
  split
  · split
    · rw [strength_graft]
      rfl
    · rfl
  · rfl
  · rfl

/-- Next to operators of one strength, an operand on a side without parentheses for that strength
is written alike. -/
theorem operand_congr (r : Rendered) {strength : Nat} {side side' : Side}
    {associativity associativity' : Associativity} (h : associativity.covers side = true)
    (h' : associativity'.covers side' = true) :
    r.operand side strength associativity = r.operand side' strength associativity' := by
  rw [Rendered.operand, Rendered.operand, needsParens, needsParens, h, h']

/-- An operand as strong as its operator, on a side without parentheses for that. -/
theorem operand_of_strength {r : Rendered} {strength : Nat} {side : Side}
    {associativity : Associativity} (hr : r.expr.strength = strength)
    (h : associativity.covers side = true) :
    r.operand side strength associativity = r.emission := by
  simp [Rendered.operand, needsParens, hr, h]

/-- All operators take a left operand as strong as they are without parentheses. -/
theorem covers_left (op : BinaryOp) : op.associativity.covers .left = true := by
  cases op <;> rfl

/-- Grafting does not change the text. -/
theorem emit_graft {op : BinaryOp} (hop : op.associativity = .both) (left right : Expr) :
    (graft left op right).emit st = (Expr.binary left op right).emit st := by
  fun_induction graft left op right with
  | case1 a o b hsame ih =>
    -- Both texts are the one of `left op a o b`, where only `a` changes its side.
    have hright : op.associativity.covers .right = true := by rw [hop]; rfl
    have ha : ∀ r : Rendered, r.operand .right op.strength op.associativity
        = r.operand .left o.strength o.associativity := by
      intro r
      rw [hsame]
      exact operand_congr r hright (covers_left o)
    have hgraft : Rendered.operand ⟨graft left op a, (Expr.binary left op a).emit st⟩ .left
        o.strength o.associativity = (Expr.binary left op a).emit st :=
      operand_of_strength ((strength_graft left op a).trans hsame.symm) (covers_left o)
    have hbare : Rendered.operand ⟨.binary a o b, (Expr.binary a o b).emit st⟩ .right
        op.strength op.associativity = (Expr.binary a o b).emit st :=
      operand_of_strength hsame hright
    rw [emit_binary st (graft left op a) o b, ih, hgraft, emit_binary st left op (.binary a o b),
      hbare, emit_binary st left op a, emit_binary st a o b, ha]
    simp only [Emission.append_assoc]
  | case2 a o b hdiffer => rfl
  | case3 right hbinary => rfl

/-- An operand with the text that it had is in parentheses as it was. -/
theorem operand_regroup {e : Expr} (h : (regroup e).emit st = e.emit st) (side : Side)
    (strength : Nat) (associativity : Associativity) :
    Rendered.operand ⟨regroup e, (regroup e).emit st⟩ side strength associativity
      = Rendered.operand ⟨e, e.emit st⟩ side strength associativity := by
  rw [Rendered.operand, Rendered.operand, strength_regroup, h]

/-- Regrouping does not change the text. -/
theorem emit_regroup (st : Settings) (e : Expr) : (regroup e).emit st = e.emit st := by
  fun_induction regroup e with
  | case1 left op right hboth ihl ihr =>
    rw [emit_graft hboth, emit_binary, emit_binary, operand_regroup ihl, operand_regroup ihr]
  | case2 left op right hleft ihl ihr =>
    rw [emit_binary, emit_binary, operand_regroup ihl, operand_regroup ihr]
  | case3 op operand ih =>
    exact congrArg (Emission.sql op.text ++ ·) (operand_regroup ih .right _ _)
  | case4 e hbinary hunary => rfl

/-- Grafting makes operations of operations. -/
theorem isOperation_graft {op : BinaryOp} (hop : op ∈ operators) {left right : Expr}
    (hl : IsOperation left) (hr : IsOperation right) : IsOperation (graft left op right) := by
  fun_induction graft left op right with
  | case1 a o b hsame ih =>
    cases hr with
    | binary ho ha hb => exact .binary ho (ih ha) hb
  | case2 a o b hdiffer => exact .binary hop hl hr
  | case3 right hbinary => exact .binary hop hl hr

/-- Regrouping makes operations of operations. -/
theorem isOperation_regroup {e : Expr} (h : IsOperation e) : IsOperation (regroup e) := by
  induction h with
  | column relation name => exact .column relation name
  | integer h => exact .integer h
  | binary hop hl hr ihl ihr =>
    rw [regroup]
    split
    · exact isOperation_graft hop ihl ihr
    · exact .binary hop ihl ihr
  | unary op h ih => exact .unary op ih

/-- Grafting leaves nothing to regroup. -/
theorem grouped_graft {may : BinaryOp → BinaryOp → Prop} (op : BinaryOp) {left right : Expr}
    (hl : Grouped may left) (hr : Grouped may right) : Grouped may (graft left op right) := by
  fun_induction graft left op right with
  | case1 a o b hsame ih => exact ⟨ih hr.1, hr.2.1, hr.2.2⟩
  | case2 a o b hdiffer => exact ⟨hl, hr, fun hsame => absurd hsame hdiffer⟩
  | case3 right hbinary =>
    -- What is no infix operation has no operator to regroup.
    refine ⟨hl, hr, fun _ _ o ho => ?_⟩
    rw [spine] at ho
    · cases ho
    · exact hbinary

/-- Regrouping leaves nothing to regroup. -/
theorem grouped_regroup (may : BinaryOp → BinaryOp → Prop) (e : Expr) :
    Grouped may (regroup e) := by
  fun_induction regroup e with
  | case1 left op right hboth ihl ihr => exact grouped_graft op ihl ihr
  | case2 left op right hleft ihl ihr => exact ⟨ihl, ihr, fun _ hboth => absurd hboth hleft⟩
  | case3 op operand ih => exact ih
  | case4 e hbinary hunary => exact grouped_of_atom hbinary hunary

/-- The same pieces under all settings, and no parameter among them. -/
def Fixed (emission : Settings → Emission) : Prop :=
  ∃ ps, Piece.paramCount ps = 0 ∧ ∀ st, (emission st).outcome = .ok ps

/-- Texts that are the same under all settings are so one after the other. -/
theorem Fixed.append {f g : Settings → Emission} (hf : Fixed f) (hg : Fixed g) :
    Fixed fun st => f st ++ g st := by
  obtain ⟨ps, hps, hf⟩ := hf
  obtain ⟨qs, hqs, hg⟩ := hg
  refine ⟨ps ++ qs, ?_, fun st => Emission.outcome_append_of_ok (hf st) (hg st)⟩
  rw [Piece.paramCount_append, hps, hqs]

/-- A fixed text is the same under all settings. -/
theorem fixed_sql (text : String) : Fixed fun _ => .sql text :=
  ⟨[.sql text], rfl, fun _ => rfl⟩

/-- An operand is the same under all settings if its expression is. -/
theorem Fixed.operand {e : Expr} (h : Fixed e.emit) (side : Side) (strength : Nat)
    (associativity : Associativity) :
    Fixed fun st => Rendered.operand ⟨e, e.emit st⟩ side strength associativity := by
  cases hparens : needsParens e.strength strength side associativity with
  | true =>
    simp only [Rendered.operand, hparens, if_true]
    exact ((fixed_sql "(").append h).append (fixed_sql ")")
  | false => simpa only [Rendered.operand, hparens, Bool.false_eq_true, if_false] using h

/-- Operations are written alike under all settings. -/
theorem fixed_operation {e : Expr} (h : IsOperation e) : Fixed e.emit := by
  induction h with
  | column relation name =>
    cases relation with
    | none => exact ⟨[.ident name], rfl, fun _ => rfl⟩
    | some relation => exact ⟨[.ident relation, .sql ".", .ident name], rfl, fun _ => rfl⟩
  | @integer n h => exact ⟨[.sql (toString n.toInt)], rfl, fun _ => rfl⟩
  | binary hop hl hr ihl ihr =>
    exact ((ihl.operand _ _ _).append (fixed_sql _)).append (ihr.operand _ _ _)
  | unary op h ih => exact (fixed_sql _).append (ih.operand _ _ _)

/-- An operation is read back from its text, where what may be regrouped associates. -/
theorem read_grouped {e : Expr} (h : IsOperation e) (hgrouped : Grouped (Associates M) e)
    (st : Settings) :
    ∃ ps, (e.emit st).outcome = .ok ps ∧
      read M .questionMark (Piece.render st.paramStyle ps) [] = some (mean M e) := by
  -- No parameter is written, so the text is the same in a style where no name spells a placeholder.
  have hreads : Reads M (st.withStyle .questionMark) e :=
    reads_operation (show ParamStyle.questionMark ≠ .dollar by decide) h hgrouped
  obtain ⟨ps, hps, hread, _⟩ := hreads
  obtain ⟨qs, hcount, hqs⟩ := fixed_operation h
  obtain rfl : ps = qs := Except.ok.inj (hps.symm.trans (hqs _))
  have htext := read_of_readsAs hread (fits_of_settled trivial (Nat.le_refl _)) 1
  rw [Piece.params_of_paramCount hcount,
    Piece.renderFrom_of_paramCount hcount _ st.paramStyle 1 1] at htext
  exact ⟨ps, hqs st, htext⟩

/-- The text of an operation means the regrouped operation, whatever the operators mean. -/
theorem read_regroup {e : Expr} (h : IsOperation e) (st : Settings) :
    ∃ ps, (e.emit st).outcome = .ok ps ∧
      read M .questionMark (Piece.render st.paramStyle ps) [] = some (mean M (regroup e)) := by
  rw [← emit_regroup st e]
  exact read_grouped (isOperation_regroup h) (grouped_regroup _ e) st

/-- Regrouping what associates does not change the meaning. -/
theorem mean_regroup {e : Expr} (h : IsOperation e) (hgrouped : Grouped (Associates M) e) :
    mean M (regroup e) = mean M e := by
  -- Both are what one text is read as.
  obtain ⟨ps, hps, hread⟩ := read_grouped h hgrouped ⟨.generic, {}, .questionMark, false⟩
  obtain ⟨qs, hqs, hread'⟩ := read_regroup (M := M) h ⟨.generic, {}, .questionMark, false⟩
  obtain rfl : ps = qs := Except.ok.inj (hps.symm.trans hqs)
  exact Option.some.inj (hread'.symm.trans hread)

end SqlCompiler.Reading
