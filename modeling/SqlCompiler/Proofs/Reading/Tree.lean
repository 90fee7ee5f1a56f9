import SqlCompiler.Proofs.Reading.Sequence

/-!
# Reading expressions back

What the emission of an expression is read as. An expression means something by itself (`mean`), and
it is read back if its text is read as an operand with that meaning (`Reads`). Operands are written
in parentheses if they bind too weak, and what is written without is read on a stack that it fits
on (`Fits`). There is one lemma for each form of an expression; the only one that asks for more than
that the parts are read back is the one for infix operators: a right operand of equal strength
without parentheses has to associate with the operator (`reads_binary`).
-/

namespace SqlCompiler.Reading

variable {α : Type} {M : Meaning α} {st : Settings}

mutual

/-- What an expression means. Forms that no condition has in it mean null. -/
def mean (M : Meaning α) : Expr → α
  | .column relation name => M.column relation name
  | .literal (.integer n) => M.integer n.toInt
  | .literal (.string s) => M.string s
  | .literal .null => M.null
  | .param name value => M.param name value
  | .raw text => if text = "ROWNUM" then M.rowNumber else M.null
  | .binary left op right => M.binary (mean M left) op (mean M right)
  | .unary op operand => M.unary op (mean M operand)
  | .isNull operand negated => M.isNull (mean M operand) negated
  | .between operand low high negated =>
    M.between (mean M operand) (mean M low) (mean M high) negated
  | .inList operand list negated => M.among (mean M operand) (meanEach M list) negated
  | .inValues operand values negated => M.among (mean M operand) (meanEach M values) negated
  | .function name args distinct => M.call name distinct (meanEach M args)
  | .grouping inner => mean M inner
  | _ => M.null

/-- What expressions mean. -/
def meanEach (M : Meaning α) : List Expr → List α
  | [] => []
  | e :: es => mean M e :: meanEach M es

end

/-- The expressions of a list mean what each of them means. -/
theorem meanEach_eq_map (M : Meaning α) (es : List Expr) : meanEach M es = es.map (mean M) := by
  induction es with
  | nil => rfl
  | cons e es ih => rw [meanEach, ih, List.map_cons]

/-- An infix operation is written between its operands. -/
theorem emit_binary (st : Settings) (left : Expr) (op : BinaryOp) (right : Expr) :
    (Expr.binary left op right).emit st
      = Rendered.operand ⟨left, left.emit st⟩ .left op.strength op.associativity
        ++ (.sql (" " ++ op.text ++ " ")
          ++ Rendered.operand ⟨right, right.emit st⟩ .right op.strength op.associativity) :=
  Emission.append_assoc _ _ _

/-- Operators are written by the levels that they are read by. -/
theorem strength_eq_infixLevel (op : BinaryOp) : op.strength = infixLevel op := by
  cases op <;> rfl

/-- Operators are written by the levels that they are read by. -/
theorem unary_strength_eq_prefixLevel (op : UnaryOp) : op.strength = prefixLevel op := by
  cases op <;> rfl

/-- No infix operator is as strong as an operator before its operand. -/
theorem strength_ne_unary (op : BinaryOp) (op' : UnaryOp) : op.strength ≠ op'.strength := by
  cases op <;> cases op' <;> decide

/-- No infix operator is stronger than a product. -/
theorem strength_le_mul (op : BinaryOp) : op.strength ≤ BinaryOp.mul.strength := by
  cases op <;> decide

/-- The level that an expression is read at. Nothing is in an empty list, which is written as a
comparison. -/
def level : Expr → Nat
  | .inList _ [] _ => infixLevel .eq
  | e => e.strength

/-- The operators that are read at the level of an expression before its last operand. -/
def spine : Expr → List BinaryOp
  | .binary left op _ => op :: if left.strength = op.strength then spine left else []
  | _ => []

/-- Those operators are as strong as the expression. -/
theorem strength_of_mem_spine (e : Expr) : ∀ o ∈ spine e, o.strength = e.strength := by
  fun_induction spine e with
  | case1 left op right ih =>
    intro o ho
    obtain rfl | ho := List.mem_cons.mp ho
    · rfl
    · split at ho
      · next hsame => exact (ih o ho).trans hsame
      · cases ho
  | case2 e hbinary =>
    intro o ho
    cases ho

/-- An expression may be read on a stack. -/
def Fits (M : Meaning α) (e : Expr) (fs : List (Frame α)) : Prop :=
  match e with
  | .binary _ op _ => Admits M (infixLevel op) (spine e) fs
  | .unary _ _ => True
  | .literal _ => True
  | e => Settled (level e) fs

/-- The text of an expression is read as an operand that means the expression. Where it is no
operation, it does not start with a minus sign. -/
def Reads (M : Meaning α) (st : Settings) (e : Expr) : Prop :=
  ∃ ps, (e.emit st).outcome = .ok ps ∧ ReadsAs M st.paramStyle (Fits M e) ps (level e) (mean M e) ∧
    (UnaryOp.neg.strength < e.strength → ∀ position rest,
      startsPlain ((Piece.renderFrom st.paramStyle position ps).toList ++ rest) = true)

/-- Where nothing that waits binds as strong, an expression may be read. -/
theorem fits_of_settled {p : Nat} {e : Expr} {fs : List (Frame α)} (h : Settled p fs)
    (hp : p ≤ level e) : Fits M e fs := by
  unfold Fits
  split
  · next left op right =>
    left
    rw [← strength_eq_infixLevel]
    exact h.mono hp
  · trivial
  · trivial
  · exact h.mono hp

/-- Behind an opened parenthesis an expression may be read. -/
theorem fits_of_isOpen {f : Frame α} (h : f.IsOpen) (e : Expr) (fs : List (Frame α)) :
    Fits M e (f :: fs) :=
  fits_of_settled (h.settled (level e) fs) (Nat.le_refl _)

/-- An operand is read back in parentheses, and without them where it may be read. -/
theorem readsAs_operand {e : Expr} (h : Reads M st e) (side : Side) (strength : Nat)
    (associativity : Associativity) {F : List (Frame α) → Prop} {p : Nat}
    (hbare : needsParens e.strength strength side associativity = false →
      p ≤ level e ∧ ∀ fs, F fs → Fits M e fs) :
    ∃ ps, (Rendered.operand ⟨e, e.emit st⟩ side strength associativity).outcome = .ok ps ∧
      ReadsAs M st.paramStyle F ps p (mean M e) ∧
      (needsParens e.strength strength side associativity = true ∨
        UnaryOp.neg.strength < e.strength → ∀ position rest,
          startsPlain ((Piece.renderFrom st.paramStyle position ps).toList ++ rest) = true) := by
  obtain ⟨ps, hps, hread, hplain⟩ := h
  rw [Rendered.operand]
  split
  · next hparens =>
    -- Inside of parentheses nothing waits, so the operand may be of any level.
    have hinside : ReadsInside M st.paramStyle ps (mean M e) :=
      hread.inside fun f fs hf => fits_of_isOpen hf e fs
    refine ⟨_, Emission.outcome_parens hps, hinside.parens.readsAs F p, fun _ position rest => ?_⟩
    rw [Piece.renderFrom_sql, String.toList_append, List.append_assoc]
    rfl
  · next hparens =>
    rw [Bool.not_eq_true] at hparens
    obtain ⟨hp, hF⟩ := hbare hparens
    refine ⟨ps, hps, hread.mono hF hp, ?_⟩
    rintro (htrue | hstrong)
    · rw [hparens] at htrue
      cases htrue
    · exact hplain hstrong

/-- Fewer operators have to associate. -/
theorem Admits.mono {p : Nat} {ops ops' : List BinaryOp} {fs : List (Frame α)}
    (h : Admits M p ops fs) (hops : ∀ o ∈ ops', o ∈ ops) : Admits M p ops' fs := by
  obtain hsettled | ⟨x, op, fs', rfl, hlevel, hsettled, hassoc⟩ := h
  · exact .inl hsettled
  · exact .inr ⟨x, op, fs', rfl, hlevel, hsettled, fun o ho => hassoc o (hops o ho)⟩

/-- What admits operators of a level is settled for every stronger level. -/
theorem Admits.settled {p q : Nat} {ops : List BinaryOp} {fs : List (Frame α)}
    (h : Admits M p ops fs) (hpq : p < q) : Settled q fs := by
  obtain hsettled | ⟨x, op, fs', rfl, hlevel, _, _⟩ := h
  · exact hsettled.mono (Nat.le_of_lt hpq)
  · show infixLevel op < q
    omega

/-- An expression is an infix operation. -/
def IsBinary (e : Expr) : Prop :=
  ∃ left op right, e = .binary left op right

/-- The left operand may be read where its operation may. -/
theorem fits_left {left right : Expr} {op : BinaryOp} {fs : List (Frame α)}
    (h : Admits M (infixLevel op) (spine (.binary left op right)) fs)
    (hstrong : op.strength ≤ left.strength)
    (hleft : op.strength < level left ∨ IsBinary left) : Fits M left fs := by
  rw [← strength_eq_infixLevel] at h
  rcases Nat.lt_or_ge op.strength (level left) with hlt | hge
  · exact fits_of_settled (h.settled hlt) (Nat.le_refl _)
  · obtain hlt | ⟨a, o, b, rfl⟩ := hleft
    · omega
    · -- Of equal strength: what waits associates with the operators of both, so with the left
      -- one's.
      have heq : op.strength = o.strength := Nat.le_antisymm hstrong hge
      show Admits M (infixLevel o) (spine (.binary a o b)) fs
      rw [← strength_eq_infixLevel o, ← heq]
      refine h.mono fun x hx => ?_
      have hsame : (Expr.binary a o b).strength = op.strength := heq.symm
      rw [spine, if_pos hsame]
      exact List.mem_cons_of_mem op hx

/-- The right operand may be read behind its operator. -/
theorem fits_right {right : Expr} {op : BinaryOp} (x : α) {fs : List (Frame α)}
    (h : Settled (infixLevel op) fs) (hstrong : op.strength ≤ right.strength)
    (hright : op.strength < level right ∨
      IsBinary right ∧ (right.strength = op.strength → ∀ o ∈ spine right, Associates M op o)) :
    Fits M right (.binary x op :: fs) := by
  rcases Nat.lt_or_ge op.strength (level right) with hlt | hge
  · rw [strength_eq_infixLevel] at hlt
    exact fits_of_settled (p := level right) hlt (Nat.le_refl _)
  · obtain hlt | ⟨⟨a, o, b, rfl⟩, hassoc⟩ := hright
    · omega
    · -- Of equal strength: the operator itself is what waits.
      have heq : o.strength = op.strength := Nat.le_antisymm hge hstrong
      have hlevel : infixLevel op = infixLevel o := by
        rw [← strength_eq_infixLevel, ← strength_eq_infixLevel, heq]
      exact .inr ⟨x, op, fs, rfl, hlevel, hlevel ▸ h, hassoc heq⟩

/-- An operand that is written without parentheses binds at least as strong as the operator. -/
theorem le_strength_of_bare {child parent : Nat} {side : Side} {associativity : Associativity}
    (h : needsParens child parent side associativity = false) : parent ≤ child := by
  simp only [needsParens, Bool.or_eq_false_iff, decide_eq_false_iff_not] at h
  omega

/-- An operand of equal strength that is written without parentheses stands on a side that the
operator associates to. -/
theorem covers_of_bare {strength : Nat} {side : Side} {associativity : Associativity}
    (h : needsParens strength strength side associativity = false) :
    associativity.covers side = true := by
  simpa [needsParens] using h

/-- An infix operation is read back. A right operand of equal strength that is written without
parentheses has to associate. -/
theorem reads_binary {left right : Expr} {op : BinaryOp} (hop : op ≠ .concat)
    (hl : Reads M st left) (hr : Reads M st right)
    (hleft : op.strength ≤ left.strength → op.strength < level left ∨ IsBinary left)
    (hright : op.strength ≤ right.strength → op.strength < level right ∨ IsBinary right)
    (hregroup : right.strength = op.strength → op.associativity = .both →
      ∀ o ∈ spine right, Associates M op o) :
    Reads M st (.binary left op right) := by
  -- Only an empty list is read at a level other than its strength, and it is no infix operation.
  have hlevel : ∀ e : Expr, op.strength ≤ e.strength → (op.strength < level e ∨ IsBinary e) →
      infixLevel op ≤ level e := by
    rintro e he (hlt | ⟨a, o, b, rfl⟩)
    · rw [← strength_eq_infixLevel]
      exact Nat.le_of_lt hlt
    · rw [← strength_eq_infixLevel]
      exact he
  obtain ⟨ps, hps, hreadl, _⟩ := readsAs_operand hl .left op.strength op.associativity
    (F := Admits M (infixLevel op) (spine (.binary left op right))) (p := infixLevel op)
    fun hbare =>
      have hle := le_strength_of_bare hbare
      ⟨hlevel left hle (hleft hle), fun fs hfs => fits_left hfs hle (hleft hle)⟩
  obtain ⟨qs, hqs, hreadr, _⟩ := readsAs_operand hr .right op.strength op.associativity
    (F := fun fs => ∃ x fs', fs = .binary x op :: fs' ∧ Settled (infixLevel op) fs')
    (p := infixLevel op)
    fun hbare =>
      have hle := le_strength_of_bare hbare
      have hassoc : right.strength = op.strength → ∀ o ∈ spine right, Associates M op o := by
        -- No parentheses on the right at equal strength: the operator is taken to associate to both
        -- sides.
        intro heq
        refine hregroup heq ?_
        rw [heq] at hbare
        have hcovers := covers_of_bare hbare
        cases op <;> first | rfl | cases hcovers
      ⟨hlevel right hle (hright hle), by
        rintro fs ⟨x, fs', rfl, hfs⟩
        exact fits_right x hfs hle ((hright hle).imp_right fun hbin => ⟨hbin, hassoc⟩)⟩
  refine ⟨ps ++ ([.sql (" " ++ op.text ++ " ")] ++ qs), ?_, ?_, ?_⟩
  · rw [emit_binary]
    exact Emission.outcome_append_of_ok hps
      (Emission.outcome_append_of_ok (Emission.outcome_sql _) hqs)
  · have hmem : op ∈ spine (.binary left op right) := List.mem_cons_self
    have hlevel : level (.binary left op right) = infixLevel op := strength_eq_infixLevel op
    rw [hlevel]
    exact hreadl.binary hreadr hop hmem (Nat.le_refl _) (Nat.le_refl _) (fun _ h => h)
      fun x fs hfs => ⟨x, fs, rfl, hfs⟩
  · intro hstrong
    exact absurd hstrong (Nat.not_lt.mpr (Nat.le_trans (strength_le_mul op) (by decide)))

/-- What is read by itself is read back. -/
theorem reads_of_atom {e : Expr} {ps : List Piece} (hps : (e.emit st).outcome = .ok ps)
    (hread : ReadsAtom M st.paramStyle ps (mean M e))
    (hplain : ∀ position rest,
      startsPlain ((Piece.renderFrom st.paramStyle position ps).toList ++ rest) = true) :
    Reads M st e :=
  ⟨ps, hps, hread.readsAs _ _, fun _ => hplain⟩

/-- An identifier does not start with a minus sign. -/
theorem startsPlain_ident (name : String) (rest : List Char) :
    startsPlain ((Identifier.text name).toList ++ rest) = true := by
  rw [Identifier.text]
  -- A bare name begins with a letter or a sign, a quoted one with a quote.
  split
  · next h =>
    rw [Identifier.isBare, Bool.and_eq_true, Identifier.isPlain] at h
    split at h
    · cases h.1
    · next c cs heq =>
      have hc : c ≠ '-' := by
        rintro rfl
        exact absurd h.1 (by simp [Identifier.startsBare])
      rw [heq]
      simpa [startsPlain] using hc
  · rw [Text.doubled, String.toList_ofList]
    rfl

/-- A column. -/
theorem reads_column {relation : Option String} {name : String}
    (hr : ∀ r ∈ relation, isNumbered st.paramStyle r.toList = false)
    (h : isNumbered st.paramStyle name.toList = false) : Reads M st (.column relation name) := by
  cases relation with
  | none =>
    have hps : ((Expr.column none name).emit st).outcome = .ok [.ident name] := rfl
    have hread : ReadsAtom M st.paramStyle [.ident name] (mean M (.column none name)) :=
      readsAtom_column h
    refine reads_of_atom hps hread fun position rest => ?_
    rw [Piece.renderFrom_ident, String.toList_append, List.append_assoc]
    exact startsPlain_ident _ _
  | some relation =>
    have hps : ((Expr.column (some relation) name).emit st).outcome
        = .ok ([.ident relation, .sql "."] ++ [.ident name]) := rfl
    have hread : ReadsAtom M st.paramStyle ([.ident relation, .sql "."] ++ [.ident name])
        (mean M (.column (some relation) name)) :=
      readsAtom_qualified (hr relation rfl) h
    refine reads_of_atom hps hread fun position rest => ?_
    rw [List.cons_append, Piece.renderFrom_ident, String.toList_append, List.append_assoc]
    exact startsPlain_ident _ _

/-- A string. -/
theorem reads_string (s : String) : Reads M st (.literal (.string s)) := by
  have hps : ((Expr.literal (.string s)).emit st).outcome = .ok [.string s] := rfl
  have hread : ReadsAtom M st.paramStyle [.string s] (mean M (.literal (.string s))) :=
    readsAtom_string s
  refine reads_of_atom hps hread fun position rest => ?_
  rw [Piece.renderFrom_string, String.toList_append, Text.doubled, String.toList_ofList]
  rfl

/-- Null. -/
theorem reads_null : Reads M st (.literal .null) := by
  have hps : ((Expr.literal .null).emit st).outcome = .ok [.sql "NULL"] := rfl
  have hread : ReadsAtom M st.paramStyle [.sql "NULL"] (mean M (.literal .null)) :=
    readsAtom_null
  refine reads_of_atom hps hread fun position rest => ?_
  rw [Piece.renderFrom_sql, String.toList_append]
  rfl

/-- The row number. -/
theorem reads_rowNumber : Reads M st (.raw "ROWNUM") := by
  have hps : ((Expr.raw "ROWNUM").emit st).outcome = .ok [.verbatim "ROWNUM"] := rfl
  have hread : ReadsAtom M st.paramStyle [.verbatim "ROWNUM"] (mean M (.raw "ROWNUM")) := by
    show ReadsAtom M _ _ (if "ROWNUM" = "ROWNUM" then M.rowNumber else M.null)
    rw [if_pos rfl]
    exact readsAtom_rowNumber
  refine reads_of_atom hps hread fun position rest => ?_
  rw [Piece.renderFrom_verbatim, String.toList_append]
  rfl

/-- A parameter, where parameters are written as placeholders. -/
theorem reads_param (hstyle : st.paramStyle ≠ .inline) (name : String) (value : Option Literal) :
    Reads M st (.param name value) := by
  have hps : ((Expr.param name value).emit st).outcome = .ok [.param name value] := by
    show (emitParam st name value).outcome = _
    simp only [emitParam, if_neg hstyle]
    rfl
  have hread : ReadsAtom M st.paramStyle [.param name value] (mean M (.param name value)) :=
    readsAtom_param name value
  refine reads_of_atom hps hread fun position rest => ?_
  rw [Piece.renderFrom_param, String.toList_append, List.append_assoc]
  -- A numbered placeholder is written with its number.
  cases st.paramStyle with
  | inline | questionMark =>
    rw [ParamStyle.marker]
    rfl
  | colon | dollar =>
    rw [ParamStyle.marker, String.toList_append]
    rfl

/-- An expression is read back inside of parentheses. -/
theorem Reads.inside {e : Expr} (h : Reads M st e) :
    ∃ ps, (e.emit st).outcome = .ok ps ∧ ReadsInside M st.paramStyle ps (mean M e) := by
  obtain ⟨ps, hps, hread, _⟩ := h
  exact ⟨ps, hps, hread.inside fun f fs hf => fits_of_isOpen hf e fs⟩

/-- Parentheses. -/
theorem reads_grouping {e : Expr} (h : Reads M st e) : Reads M st (.grouping e) := by
  obtain ⟨ps, hps, hinside⟩ := h.inside
  have hparens : ((Expr.grouping e).emit st).outcome = .ok (.sql "(" :: (ps ++ [.sql ")"])) :=
    Emission.outcome_parens hps
  have hatom : ReadsAtom M st.paramStyle (.sql "(" :: (ps ++ [.sql ")"]))
      (mean M (.grouping e)) :=
    hinside.parens
  refine reads_of_atom hparens hatom fun position rest => ?_
  rw [Piece.renderFrom_sql, String.toList_append]
  rfl

/-- A name does not start with a minus sign. -/
theorem startsPlain_of_readsAsName {style : ParamStyle} {cs : List Char}
    (h : readsAsName style cs = true) (rest : List Char) : startsPlain (cs ++ rest) = true := by
  cases cs with
  | nil => cases h
  | cons c cs =>
    simp only [readsAsName, Bool.and_eq_true, List.all_cons] at h
    have hc : c ≠ '-' := by
      rintro rfl
      exact absurd h.1.1.1.1 (by decide)
    simpa [startsPlain] using hc

/-- A call. -/
theorem reads_function {name : String} (hname : readsAsName st.paramStyle name.toList = true)
    (distinct : Bool) {args : List Expr} (hargs : ∀ e ∈ args, Reads M st e) :
    Reads M st (.function name args distinct) := by
  obtain ⟨ps, hps, hread⟩ := readsAtom_call (M := M) (·.emit st) (mean M) hname distinct
    fun e he => (hargs e he).inside
  rw [← emitEach_eq_map] at hps
  rw [← meanEach_eq_map] at hread
  have hemit : ((Expr.function name args distinct).emit st).outcome
      = .ok (.verbatim name :: ps) :=
    hps
  have hatom : ReadsAtom M st.paramStyle (.verbatim name :: ps)
      (mean M (.function name args distinct)) :=
    hread
  refine reads_of_atom hemit hatom fun position rest => ?_
  rw [Piece.renderFrom_verbatim, String.toList_append, List.append_assoc]
  exact startsPlain_of_readsAsName hname _

/-- What is read depends on the text and the parameters of pieces only. -/
theorem ReadsAs.congr {style : ParamStyle} {F : List (Frame α) → Prop} {ps qs : List Piece}
    {p : Nat} {v : α} (h : ReadsAs M style F ps p v)
    (htext : ∀ position, Piece.renderFrom style position qs = Piece.renderFrom style position ps)
    (hparams : ∀ position, Piece.params style position qs = Piece.params style position ps) :
    ReadsAs M style F qs p v := by
  intro fs hfs
  obtain ⟨fs', t, hpass, hreduce⟩ := h fs hfs
  refine ⟨fs', t, fun position more rest hrest => ?_, hreduce⟩
  rw [htext, hparams]
  exact hpass position more rest hrest

/-- Digits do not start with a minus sign. -/
theorem startsPlain_toString (n : Nat) (rest : List Char) :
    startsPlain ((toString n).toList ++ rest) = true := by
  have hdigit := List.all_eq_true.mp (all_isDigit_toDigits n)
  rw [Nat.toString_eq_repr, Nat.toList_repr]
  cases hds : Nat.toDigits 10 n with
  | nil => exact absurd hds Nat.toDigits_ne_nil
  | cons c cs =>
    have hc : c ≠ '-' := by
      rintro rfl
      rw [hds] at hdigit
      exact absurd (hdigit '-' List.mem_cons_self) (by decide)
    simpa [startsPlain] using hc

/-- An integer. A negative one is read as the negative of its amount. -/
theorem reads_integer (n : Int64)
    (hneg : n < 0 → ∀ m : Nat, M.unary .neg (M.integer m) = M.integer (-m)) :
    Reads M st (.literal (.integer n)) := by
  have hps : ((Expr.literal (.integer n)).emit st).outcome = .ok [.sql (toString n.toInt)] := rfl
  refine ⟨_, hps, ?_⟩
  show ReadsAs M st.paramStyle (fun _ => True) _ (if n < 0 then UnaryOp.neg.strength else 20)
      (M.integer n.toInt) ∧
    (UnaryOp.neg.strength < (if n < 0 then UnaryOp.neg.strength else 20) → _)
  by_cases hsign : n < 0
  · -- The sign stands before the digits of the amount.
    obtain ⟨m, hm⟩ : ∃ m : Nat, n.toInt = Int.negSucc m :=
      Int.eq_negSucc_of_lt_zero (Int64.lt_iff_toInt_lt.mp hsign)
    have hread : ReadsAs M st.paramStyle (fun _ => True)
        ([.sql UnaryOp.neg.text] ++ [.sql (toString (m + 1))]) (prefixLevel .neg)
        (M.unary .neg (M.integer (m + 1 : Nat))) := by
      refine ((readsAtom_integer (m + 1)).readsAs (fun _ => True) (prefixLevel .neg)).unary .neg
        (Nat.le_refl _) (fun _ => trivial) fun _ position rest => ?_
      rw [Piece.renderFrom_sql, Piece.renderFrom_nil, String.append_empty]
      exact startsPlain_toString (m + 1) rest
    rw [if_pos hsign, hm]
    refine ⟨?_, fun h => absurd h (Nat.lt_irrefl _)⟩
    rw [hneg hsign] at hread
    exact hread.congr (fun position => by simp; rfl) fun position => rfl
  · obtain ⟨m, hm⟩ : ∃ m : Nat, n.toInt = (m : Int) :=
      Int.eq_ofNat_of_zero_le (Int64.le_iff_toInt_le.mp (Int64.not_lt.mp hsign))
    rw [if_neg hsign, hm]
    refine ⟨(readsAtom_integer m).readsAs _ _, fun _ position rest => ?_⟩
    rw [Piece.renderFrom_sql, Piece.renderFrom_nil, String.append_empty]
    exact startsPlain_toString m rest

/-- What binds as strong as an operator before its operand has such an operator, or a sign. -/
theorem fits_of_strength_eq {e : Expr} (op : UnaryOp) (h : e.strength = op.strength)
    (fs : List (Frame α)) : Fits M e fs := by
  cases e with
  | unary op' operand | literal value => trivial
  | binary left op' right => exact absurd h (strength_ne_unary op' op)
  | _ => cases op <;> cases h

/-- An operator before its operand. -/
theorem reads_unary {e : Expr} (op : UnaryOp) (h : Reads M st e)
    (hlevel : op.strength < level e ∨ level e = e.strength) : Reads M st (.unary op e) := by
  obtain ⟨ps, hps, hread, hplain⟩ := readsAs_operand h .right op.strength op.associativity
    (F := fun fs => ∃ fs', fs = .unary op :: fs') (p := prefixLevel op) (by
      intro hbare
      have hle := le_strength_of_bare hbare
      have hlevel' : op.strength ≤ level e := by omega
      rw [unary_strength_eq_prefixLevel] at hlevel'
      refine ⟨hlevel', ?_⟩
      rintro fs ⟨fs', rfl⟩
      rcases Nat.lt_or_eq_of_le hlevel' with hlt | heq
      · exact fits_of_settled (p := level e) hlt (Nat.le_refl _)
      · rw [← unary_strength_eq_prefixLevel] at heq
        exact fits_of_strength_eq op (by omega) _)
  have hread' := hread.unary op (Nat.le_refl _) (fun fs => ⟨fs, rfl⟩) (by
    -- A minus sign before another one would start a comment, so the operand must not start with
    -- one.
    rintro rfl position rest
    refine hplain ?_ position rest
    rcases Nat.lt_or_ge UnaryOp.neg.strength e.strength with hlt | hge
    · exact .inr hlt
    · left
      simp only [needsParens, Bool.or_eq_true, Bool.and_eq_true, decide_eq_true_eq, beq_iff_eq]
      rcases Nat.lt_or_eq_of_le hge with hlt | heq
      · exact .inl hlt
      · exact .inr ⟨heq, rfl⟩)
  refine ⟨[.sql op.text] ++ ps, ?_, ?_, ?_⟩
  · exact Emission.outcome_append_of_ok (Emission.outcome_sql _) hps
  · have hstrength : level (.unary op e) = prefixLevel op := unary_strength_eq_prefixLevel op
    rw [hstrength]
    exact hread'
  · intro hstrong
    have hweak : ¬ 13 < op.strength := by cases op <;> decide
    exact absurd hstrong hweak

end SqlCompiler.Reading
