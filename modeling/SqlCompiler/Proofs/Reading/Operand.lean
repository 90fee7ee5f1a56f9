import SqlCompiler.Proofs.Reading.Passage

/-!
# Operands

`ReadsAs` says that pieces are an operand of a certain level and a certain value: what the reader
keeps waiting after them is, to any operator that binds no stronger than that level, the same as the
value alone. Which stacks an operand may be read on is a part of the statement, since an operator
that waits may bind as strong as the operand.

There is one lemma for each form of an operation. Operators of equal level are read from the left,
so an operand that is written without parentheses to the right of an operator of its own level is
read right only if the two associate (`Associates`, `ReadsAs.binary`).
-/

namespace SqlCompiler.Reading

variable {α : Type} {M : Meaning α} {style : ParamStyle}

/-- Pieces are read as an operand of level `p` and a value, on the stacks that `F` admits: to what
binds no stronger than the operand, all that waits after it is the value on the stack before. -/
def ReadsAs (M : Meaning α) (style : ParamStyle) (F : List (Frame α) → Prop) (ps : List Piece)
    (p : Nat) (v : α) : Prop :=
  ∀ fs, F fs → ∃ fs' t, Passes M style endsOperand ps fs .operand fs' (.operator t) ∧
    ∀ q ≤ p, reduce M q fs' t = reduce M q fs v

/-- What is read by itself is an operand of any level, on any stack. -/
theorem ReadsAtom.readsAs {ps : List Piece} {v : α} (h : ReadsAtom M style ps v)
    (F : List (Frame α) → Prop) (p : Nat) : ReadsAs M style F ps p v :=
  fun fs _ => ⟨fs, v, h fs, fun _ _ => rfl⟩

/-- An operand of a level is one of each weaker level, on fewer stacks. -/
theorem ReadsAs.mono {F G : List (Frame α) → Prop} {ps : List Piece} {p q : Nat} {v : α}
    (h : ReadsAs M style F ps p v) (hF : ∀ fs, G fs → F fs) (hp : q ≤ p) :
    ReadsAs M style G ps q v := by
  intro fs hfs
  obtain ⟨fs', t, hpass, hreduce⟩ := h fs (hF fs hfs)
  exact ⟨fs', t, hpass, fun q' hq' => hreduce q' (Nat.le_trans hq' hp)⟩

/-- The tokens of an infix operator. -/
def opTokens : BinaryOp → List Token
  | .and => [.keyword .and]
  | .or => [.keyword .or]
  | .like => [.keyword .like]
  | .notLike => [.keyword .not, .keyword .like]
  | op => [.operator op]

/-- An infix operator between blanks. -/
theorem scan_op {op : BinaryOp} (h : op ≠ .concat) (rest : List Char) :
    scan style ((" " ++ op.text ++ " ").toList ++ rest) = opTokens op ++ scan style rest := by
  cases op with
  | concat => exact absurd rfl h
  | _ => rfl

/-- What follows an infix operator cannot be taken for the rest of an operand. -/
theorem endsOperand_op {op : BinaryOp} (h : op ≠ .concat) (rest : List Char) :
    endsOperand ((" " ++ op.text ++ " ").toList ++ rest) = true := by
  cases op with
  | concat => exact absurd rfl h
  | _ => rfl

/-- An infix operator waits after it has closed what binds as strong. -/
theorem foldl_opTokens {op : BinaryOp} (h : op ≠ .concat) {fs fs' : List (Frame α)} {v v' : α}
    (hreduce : reduce M (infixLevel op) fs v = (fs', v')) (hsettled : Settled (infixLevel op) fs')
    (more : List BoundParam) :
    (opTokens op).foldl (Reader.step M) ⟨more, fs, .operator v⟩
      = ⟨more, .binary v' op :: fs', .operand⟩ := by
  have hpush : Reader.push M more fs v op = ⟨more, .binary v' op :: fs', .operand⟩ := by
    rw [Reader.push, hreduce]
  cases op with
  | concat => exact absurd rfl h
  | and =>
    -- No `BETWEEN` is waiting for this `AND`.
    show Reader.afterOperand M more fs v (.keyword .and) = _
    rw [Reader.afterOperand, hreduce]
    match fs', hsettled with
    | [], _ => rfl
    | .between _ _ :: _, hlt => exact absurd (show 7 < 3 from hlt) (by decide)
    | .binary _ _ :: _, _ => rfl
    | .unary _ :: _, _ => rfl
    | .betweenAnd _ _ _ :: _, _ => rfl
    | .group :: _, _ => rfl
    | .call _ _ _ :: _, _ => rfl
    | .among _ _ _ :: _, _ => rfl
  | _ => exact hpush

/-- The reader passes over an infix operator. -/
theorem passes_op {op : BinaryOp} (h : op ≠ .concat) {fs fs' : List (Frame α)} {v v' : α}
    (hreduce : reduce M (infixLevel op) fs v = (fs', v'))
    (hsettled : Settled (infixLevel op) fs') :
    Passes M style anything [.sql (" " ++ op.text ++ " ")] fs (.operator v)
      (.binary v' op :: fs') .operand :=
  passes_sql (opTokens op) (fun rest _ => scan_op h rest) (foldl_opTokens h hreduce hsettled)

/-- Operators of equal level mean the same grouped to the left and to the right. -/
def Associates (M : Meaning α) (op op' : BinaryOp) : Prop :=
  ∀ x y z, M.binary (M.binary x op y) op' z = M.binary x op (M.binary y op' z)

/-- A stack on which operators of level `p` may be read: nothing on it binds as strong, or only the
operator on top does, and it associates with each of them. -/
def Admits (M : Meaning α) (p : Nat) (ops : List BinaryOp) (fs : List (Frame α)) : Prop :=
  Settled p fs ∨ ∃ x op fs', fs = .binary x op :: fs' ∧ infixLevel op = p ∧ Settled p fs' ∧
    ∀ o ∈ ops, Associates M op o

/-- On such a stack an operator takes over what binds as strong, and the whole means the same. -/
theorem Admits.regroup {p : Nat} {ops : List BinaryOp} {fs : List (Frame α)}
    (h : Admits M p ops fs) :
    ∃ (fs' : List (Frame α)) (f : α → α), Settled p fs' ∧ (∀ v, reduce M p fs v = (fs', f v)) ∧
      ∀ o ∈ ops, ∀ q ≤ p, ∀ v w,
        reduce M q fs' (M.binary (f v) o w) = reduce M q fs (M.binary v o w) := by
  obtain hsettled | ⟨x, op, fs', rfl, hlevel, hsettled, hassoc⟩ := h
  · -- Nothing on the stack is as strong, so nothing is closed.
    exact ⟨fs, id, hsettled, reduce_of_settled hsettled, fun _ _ _ _ _ _ => rfl⟩
  · -- The operator on top takes the operand, which by associativity changes no value.
    refine ⟨fs', M.binary x op, hsettled, ?_, ?_⟩
    · intro v
      rw [reduce_binary (Nat.le_of_eq hlevel.symm), reduce_of_settled hsettled]
    · intro o ho q hq v w
      rw [reduce_binary (hlevel ▸ hq), hassoc o ho]

/-- An infix operator between its operands. The right operand is read on the stack with the operator
on top. -/
theorem ReadsAs.binary {F G : List (Frame α) → Prop} {ps qs : List Piece} {p p' : Nat} {v w : α}
    (hl : ReadsAs M style F ps p v) (hr : ReadsAs M style G qs p' w) {op : BinaryOp}
    (hop : op ≠ .concat) {ops : List BinaryOp} (hmem : op ∈ ops) (hp : infixLevel op ≤ p)
    (hp' : infixLevel op ≤ p') (hF : ∀ fs, Admits M (infixLevel op) ops fs → F fs)
    (hG : ∀ x fs, Settled (infixLevel op) fs → G (.binary x op :: fs)) :
    ReadsAs M style (Admits M (infixLevel op) ops)
      (ps ++ ([.sql (" " ++ op.text ++ " ")] ++ qs)) (infixLevel op) (M.binary v op w) := by
  intro fs hfs
  -- The states after the left operand, after the operator, and after the right operand.
  obtain ⟨fs₁, t₁, hpass₁, hreduce₁⟩ := hl fs (hF fs hfs)
  obtain ⟨fs₂, f, hsettled, hclose, hregroup⟩ := hfs.regroup
  obtain ⟨fs₃, t₃, hpass₃, hreduce₃⟩ := hr _ (hG (f v) fs₂ hsettled)
  have hop₁ : reduce M (infixLevel op) fs₁ t₁ = (fs₂, f v) :=
    (hreduce₁ _ hp).trans (hclose v)
  refine ⟨fs₃, t₃, ?_, ?_⟩
  · exact hpass₁.append_sql ((passes_op hop hop₁ hsettled).append hpass₃ fun _ _ _ => rfl)
      (endsOperand_op hop)
  · intro q hq
    rw [hreduce₃ q (Nat.le_trans hq hp'), reduce_binary hq, hregroup op hmem q hq]

/-- A parenthesis that has been opened. -/
def Frame.IsOpen : Frame α → Prop
  | .group => True
  | .call _ _ _ => True
  | .among _ _ _ => True
  | _ => False

/-- Behind an opened parenthesis everything may be read. -/
theorem Frame.IsOpen.settled {f : Frame α} (h : f.IsOpen) (p : Nat) (fs : List (Frame α)) :
    Settled p (f :: fs) := by
  cases f with
  | group | call name distinct args | among operand negated items => trivial
  | _ => cases h

/-- Pieces are read as a value inside of parentheses. -/
def ReadsInside (M : Meaning α) (style : ParamStyle) (ps : List Piece) (v : α) : Prop :=
  ∀ (f : Frame α) fs, f.IsOpen → ∃ fs' t,
    Passes M style endsOperand ps (f :: fs) .operand fs' (.operator t) ∧
      reduce M 0 fs' t = (f :: fs, v)

/-- An operand may be read inside of parentheses. -/
theorem ReadsAs.inside {F : List (Frame α) → Prop} {ps : List Piece} {p : Nat} {v : α}
    (h : ReadsAs M style F ps p v) (hF : ∀ f fs, f.IsOpen → F (f :: fs)) :
    ReadsInside M style ps v := by
  intro f fs hf
  obtain ⟨fs', t, hpass, hreduce⟩ := h (f :: fs) (hF f fs hf)
  exact ⟨fs', t, hpass, (hreduce 0 (Nat.zero_le p)).trans (reduce_of_settled (hf.settled 0 fs) v)⟩

/-- Parentheses around an operand. -/
theorem ReadsInside.parens {ps : List Piece} {v : α} (h : ReadsInside M style ps v) :
    ReadsAtom M style (.sql "(" :: (ps ++ [.sql ")"])) v := by
  intro fs
  obtain ⟨fs', t, hpass, hreduce⟩ := h .group fs trivial
  have hopen : Passes M style anything [.sql "("] fs .operand (.group :: fs) .operand :=
    passes_sql [.opening] (fun rest _ => rfl) fun more => rfl
  have hclose : Passes M style endsOperand [.sql ")"] fs' (.operator t) fs (.operator v) := by
    refine passes_sql [.closing] (fun rest _ => rfl) fun more => ?_
    show Reader.afterOperand M more fs' t .closing = _
    rw [Reader.afterOperand, hreduce]
  exact hopen.append (hpass.append_sql hclose fun _ => rfl) fun _ _ _ => rfl

/-- A text does not start with a minus sign. -/
def startsPlain (rest : List Char) : Bool :=
  rest.head? != some '-'

/-- A minus sign that no other one follows. -/
theorem scan_minus {rest : List Char} (h : startsPlain rest = true) :
    scan style ('-' :: rest) = .operator .sub :: scan style rest := by
  cases rest with
  | nil => rfl
  | cons c cs =>
    -- A second minus sign would make the pair the start of a comment.
    have hc : c ≠ '-' := by simpa [startsPlain] using h
    have hpair : pairToken? '-' c = none := by
      unfold pairToken?
      split <;> simp_all
    have hstep : (Scan.symbol '-').step style c
        = (.operator .sub :: (Scan.begin c).1, (Scan.begin c).2) := by
      simp only [Scan.step, hpair]
      rfl
    show ((Scan.symbol '-').step style c).1 ++ ((Scan.symbol '-').step style c).2.run style cs = _
    rw [hstep]
    rfl

/-- The token of an operator before its operand. -/
def unaryToken : UnaryOp → Token
  | .neg => .operator .sub
  | .not => .keyword .not

/-- An operator before its operand. It may be read on any stack. A minus sign must not stand before
another one. -/
theorem ReadsAs.unary {F : List (Frame α) → Prop} {ps : List Piece} {p : Nat} {v : α}
    (h : ReadsAs M style F ps p v) (op : UnaryOp) (hp : prefixLevel op ≤ p)
    (hF : ∀ fs, F (.unary op :: fs))
    (hplain : op = .neg → ∀ position rest,
      startsPlain ((Piece.renderFrom style position ps).toList ++ rest) = true) :
    ReadsAs M style (fun _ => True) ([.sql op.text] ++ ps) (prefixLevel op) (M.unary op v) := by
  intro fs _
  obtain ⟨fs', t, hpass, hreduce⟩ := h _ (hF fs)
  refine ⟨fs', t, ?_, ?_⟩
  · have hstep : ∀ more : List BoundParam, [unaryToken op].foldl (Reader.step M)
        ⟨more, fs, .operand⟩ = ⟨more, .unary op :: fs, .operand⟩ := by
      intro more
      cases op <;> rfl
    cases op with
    | neg =>
      have hminus : Passes M style startsPlain [.sql UnaryOp.neg.text] fs .operand
          (.unary .neg :: fs) .operand :=
        passes_sql [unaryToken .neg] (fun rest hrest => scan_minus hrest) hstep
      exact hminus.append hpass fun position rest _ => hplain rfl position rest
    | not =>
      have hnot : Passes M style anything [.sql UnaryOp.not.text] fs .operand
          (.unary .not :: fs) .operand :=
        passes_sql [unaryToken .not] (fun rest _ => rfl) hstep
      exact hnot.append hpass fun _ _ _ => rfl
  · intro q hq
    rw [hreduce q (Nat.le_trans hq hp), reduce_unary hq]

/-- A test for null. -/
theorem ReadsAs.isNull {F : List (Frame α) → Prop} {ps : List Piece} {p : Nat} {v : α}
    (h : ReadsAs M style F ps p v) (negated : Bool) (hp : isLevel ≤ p)
    (hF : ∀ fs, Settled isLevel fs → F fs) :
    ReadsAs M style (Settled isLevel)
      (ps ++ [.sql (if negated then " IS NOT NULL" else " IS NULL")]) isLevel
      (M.isNull v negated) := by
  intro fs hfs
  obtain ⟨fs', t, hpass, hreduce⟩ := h fs (hF fs hfs)
  have hclose : reduce M isLevel fs' t = (fs, v) :=
    (hreduce _ hp).trans (reduce_of_settled hfs v)
  have his : ∀ more : List BoundParam, Reader.step M ⟨more, fs', .operator t⟩ (.keyword .is)
      = ⟨more, fs, .is v false⟩ := by
    intro more
    show Reader.afterOperand M more fs' t (.keyword .is) = _
    rw [Reader.afterOperand, hclose]
  -- The last word ends only by what follows, so it is scanned with the rest.
  have hnull : ∀ rest, endsOperand rest = true →
      scan style (['N', 'U', 'L', 'L'] ++ rest) = .keyword .null :: scan style rest :=
    fun rest hrest => scan_word style (by decide) (by decide) (endsWord_of_endsOperand hrest)
  refine ⟨fs, M.isNull v negated, ?_, fun _ _ => rfl⟩
  cases negated with
  | false =>
    refine hpass.append_sql (passes_sql [.keyword .is, .keyword .null] ?_ ?_) fun _ => rfl
    · exact fun rest hrest => congrArg (Token.keyword .is :: ·) (hnull rest hrest)
    · intro more
      rw [List.foldl_cons, his]
      rfl
  | true =>
    refine hpass.append_sql
      (passes_sql [.keyword .is, .keyword .not, .keyword .null] ?_ ?_) fun _ => rfl
    · exact fun rest hrest =>
        congrArg (Token.keyword .is :: Token.keyword .not :: ·) (hnull rest hrest)
    · intro more
      rw [List.foldl_cons, his]
      rfl

/-- A test for a range. The `AND` between its ends is not taken for the connective. -/
theorem ReadsAs.between {F G H : List (Frame α) → Prop} {ps qs rs : List Piece} {p p' p'' : Nat}
    {v low high : α} (hv : ReadsAs M style F ps p v) (hlow : ReadsAs M style G qs p' low)
    (hhigh : ReadsAs M style H rs p'' high) (negated : Bool) (hp : membershipLevel ≤ p)
    (hp' : infixLevel .and ≤ p') (hp'' : membershipLevel ≤ p'')
    (hF : ∀ fs, Settled membershipLevel fs → F fs) (hG : ∀ fs, G (.between v negated :: fs))
    (hH : ∀ fs, H (.betweenAnd v low negated :: fs)) :
    ReadsAs M style (Settled membershipLevel)
      (ps ++ .sql (if negated then " NOT BETWEEN " else " BETWEEN ") :: (qs ++ .sql " AND " :: rs))
      membershipLevel (M.between v low high negated) := by
  intro fs hfs
  obtain ⟨fs₁, t₁, hpass₁, hreduce₁⟩ := hv fs (hF fs hfs)
  obtain ⟨fs₂, t₂, hpass₂, hreduce₂⟩ := hlow _ (hG fs)
  obtain ⟨fs₃, t₃, hpass₃, hreduce₃⟩ := hhigh _ (hH fs)
  have hclose₁ : reduce M membershipLevel fs₁ t₁ = (fs, v) :=
    (hreduce₁ _ hp).trans (reduce_of_settled hfs v)
  have hclose₂ : reduce M (infixLevel .and) fs₂ t₂ = (.between v negated :: fs, low) :=
    hreduce₂ _ hp'
  have hbetween : Passes M style anything
      [.sql (if negated then " NOT BETWEEN " else " BETWEEN ")] fs₁ (.operator t₁)
      (.between v negated :: fs) .operand := by
    cases negated with
    | false =>
      refine passes_sql [.keyword .between] (fun rest _ => rfl) fun more => ?_
      show Reader.afterOperand M more fs₁ t₁ (.keyword .between) = _
      rw [Reader.afterOperand, hclose₁]
    | true =>
      refine passes_sql [.keyword .not, .keyword .between] (fun rest _ => rfl) fun more => ?_
      show Reader.step M ⟨more, fs₁, .negated t₁⟩ (.keyword .between) = _
      simp only [Reader.step, hclose₁]
  -- The lower end closes nothing below it, so the range on top takes the `AND`.
  have hand : Passes M style anything [.sql " AND "] fs₂ (.operator t₂)
      (.betweenAnd v low negated :: fs) .operand := by
    refine passes_sql [.keyword .and] (fun rest _ => rfl) fun more => ?_
    show Reader.afterOperand M more fs₂ t₂ (.keyword .and) = _
    rw [Reader.afterOperand, hclose₂]
  have hends : ∀ cs : List Char,
      endsOperand ((if negated then " NOT BETWEEN " else " BETWEEN ").toList ++ cs) = true := by
    intro cs
    cases negated <;> rfl
  refine ⟨fs₃, t₃, ?_, ?_⟩
  · exact hpass₁.append_sql (hbetween.append
      (hpass₂.append_sql (hand.append hpass₃ fun _ _ _ => rfl) fun _ => rfl) fun _ _ _ => rfl) hends
  · intro q hq
    rw [hreduce₃ q (Nat.le_trans hq hp''), reduce_betweenAnd hq]

end SqlCompiler.Reading
