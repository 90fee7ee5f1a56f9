import Mathlib
import SqlCompiler.Proofs.Strength.Emission

/-!
# Operators that an expression shows

An expression shows its own operators and those of its operands that are written without
parentheses (`Expr.exposed`). These are exactly the operators that are read in its text, if that
holds of its operands (`Expr.reads_of_parts`), the caller's texts that stand outside parentheses are
read as operands (`Expr.IsTerm`), and those inside parentheses match their quotes and parentheses.
-/

namespace SqlCompiler

open Strength

/-! ## Own operators and bare operands -/

/-- The operator as it is read. -/
def BinaryOp.operator : BinaryOp → Operator
  | .mul | .div | .mod => .multiplicative
  | .add | .sub => .additive
  | .concat => .concat
  | .like | .notLike => .membership
  | .eq | .notEq | .lt | .ltEq | .gt | .gtEq => .comparison
  | .and => .and
  | .or => .or

/-- The operator as it is read. -/
def UnaryOp.operator : UnaryOp → Operator
  | .neg => .sign
  | .not => .not

/-- The operators that an operand shows beside an operator: none in parentheses. -/
def Expr.shown (e : Expr) (ops : List Operator) (side : Side) (strength : Nat)
    (assoc : Associativity) : List Operator :=
  if needsParens e.strength strength side assoc then [] else ops

/-- The operand, if it is written without parentheses beside an operator. -/
def Expr.bare (e : Expr) (side : Side) (strength : Nat) (assoc : Associativity) : List Expr :=
  if needsParens e.strength strength side assoc then [] else [e]

/-- The operators that an expression shows outside quotes, parentheses and `CASE` expressions, in
the order of its text. The `AND` of `BETWEEN` is among them. -/
def Expr.exposed (s : Settings) : Expr → List Operator
  | .literal l => signs l.isNegative
  | .param _ value => signs (s.paramStyle = .inline && value.any Literal.isNegative)
  | .raw text => operators text.toList
  | .function name _ _ => operators name.toList
  | .binary left op right =>
    left.shown (left.exposed s) .left op.strength op.associativity ++ [op.operator]
      ++ right.shown (right.exposed s) .right op.strength op.associativity
  | .unary op operand =>
    [op.operator] ++ operand.shown (operand.exposed s) .right op.strength op.associativity
  | .isNull operand _ => operand.shown (operand.exposed s) .left isStrength .left ++ [.is]
  | .isDistinctFrom left right _ =>
    if s.dialect = .generic then
      left.shown (left.exposed s) .left isStrength .left ++ [.is]
        ++ right.shown (right.exposed s) .right isStrength .left
    else [.comparison]
  | .between operand low high _ =>
    operand.shown (operand.exposed s) .left membershipStrength .left ++ [.between]
      ++ low.shown (low.exposed s) .right membershipStrength .left ++ [.and]
      ++ high.shown (high.exposed s) .right membershipStrength .left
  | .inList operand list _ =>
    if list.isEmpty then [.comparison]
    else operand.shown (operand.exposed s) .left membershipStrength .left ++ [.membership]
  | .inValues operand values negated =>
    if values.isEmpty && negated then [.comparison]
    else if s.splits values.length then []
    else operand.shown (operand.exposed s) .left membershipStrength .left ++ [.membership]
  | .inSubquery operand _ _ =>
    operand.shown (operand.exposed s) .left membershipStrength .left ++ [.membership]
  | .exists _ negated => if negated then [.not] else []
  | .window f _ _ => f.exposed s
  | .named inner _ => inner.exposed s
  | _ => []

/-- The operands that an expression is written with outside parentheses and `CASE` expressions. -/
def Expr.bareOperands (s : Settings) : Expr → List Expr
  | .binary left op right =>
    left.bare .left op.strength op.associativity ++ right.bare .right op.strength op.associativity
  | .unary op operand => operand.bare .right op.strength op.associativity
  | .isNull operand _ => operand.bare .left isStrength .left
  | .isDistinctFrom left right _ =>
    if s.dialect = .generic then
      left.bare .left isStrength .left ++ right.bare .right isStrength .left
    else []
  | .between operand low high _ =>
    operand.bare .left membershipStrength .left ++ low.bare .right membershipStrength .left
      ++ high.bare .right membershipStrength .left
  | .inList operand list _ =>
    if list.isEmpty then [] else operand.bare .left membershipStrength .left
  | .inValues operand values negated =>
    if (values.isEmpty && negated) || s.splits values.length then []
    else operand.bare .left membershipStrength .left
  | .inSubquery operand _ _ => operand.bare .left membershipStrength .left
  | .window f _ _ => [f]
  | .named inner _ => [inner]
  | _ => []

/-- The expressions that a `CASE` expression is written with. -/
def Expr.caseParts : Expr → List Expr
  | .case operand branches default =>
    operand.toList ++ branches.flatMap (fun b => [b.condition, b.value]) ++ default.toList
  | _ => []

/-- A text of the caller that stands for an operand: it is read from where an operand is due to
where one has been read, wherever it stands, and has an `AND` for each `BETWEEN`. -/
structure Strength.IsTerm (text : String) : Prop where
  passes : Passes .due .done (operators text.toList) text.toList
  balanced : (operators text.toList).count .between ≤ (operators text.toList).count .and

/-- The text of the caller that an expression is written with outside parentheses stands for an
operand. -/
def Expr.IsTerm : Expr → Prop
  | .raw text => Strength.IsTerm text
  | .function name _ _ => Strength.IsTerm name
  | _ => True

/-! ## Reading an expression -/

/-- An operand is shown if it needs no parentheses. -/
@[simp]
theorem Expr.mem_bare {e c : Expr} {side : Side} {strength : Nat} {assoc : Associativity} :
    c ∈ e.bare side strength assoc
      ↔ needsParens e.strength strength side assoc = false ∧ c = e := by
  unfold bare
  split <;> simp_all

/-- What an expression is written with outside parentheses are children of it. -/
theorem Expr.mem_children_of_bare {s : Settings} {e c : Expr}
    (h : c ∈ e.bareOperands s ++ e.caseParts) : .expr c ∈ e.children := by
  -- Only a case distinction has parts that are shown without being operands.
  cases e with
  | case operand branches default =>
    simp only [bareOperands, caseParts, List.nil_append, List.mem_append, Option.mem_toList,
      List.mem_flatMap] at h
    simp only [children, List.mem_append, List.mem_map, List.mem_flatMap, Option.mem_toList]
    obtain (h | ⟨b, hb, hc⟩) | h := h
    · exact .inl (.inl ⟨c, h, rfl⟩)
    · refine .inl (.inr ⟨b, hb, ?_⟩)
      simpa using hc
    · exact .inr ⟨c, h, rfl⟩
  | _ =>
    simp only [bareOperands, caseParts, List.append_nil] at h
    grind [children, mem_bare]

section Parts

variable {s : Settings}

/-- An operand shows its operators unless it is in parentheses. -/
theorem Strength.Reads.operand {e : Expr} {side : Side} {strength : Nat} {assoc : Associativity}
    (h : ∀ c ∈ e.bare side strength assoc, Reads s .due .done (c.exposed s) (c.emit s))
    (hc : Closes s (e.emit s)) :
    Reads s .due .done (e.shown (e.exposed s) side strength assoc)
      (Rendered.operand ⟨e, e.emit s⟩ side strength assoc) := by
  unfold Rendered.operand Expr.shown
  split
  · exact .parens hc
  · next hparens => exact h e (Expr.mem_bare.mpr ⟨by simpa using hparens, rfl⟩)

/-- A literal closes its quotes. -/
theorem Strength.closes_literal (l : Literal) : Closes s (l.emit s) := by
  refine (nodeLaw_cross s.paramStyle).keeps_literal fun p hp position => ?_
  obtain ⟨content, rfl⟩ := l.exists_string hp
  rw [Piece.renderFrom_singleton]
  exact (leads_doubled .string content 0).crosses

/-- A list of expressions closes what it opens if each of them does. -/
theorem Strength.closes_each {es : List Expr} (h : ∀ x ∈ es, Closes s (x.emit s)) :
    Closes s (.join ", " (emitEach s es)) := by
  rw [emitEach_eq_map]
  exact (nodeLaw_cross s.paramStyle).keeps_join (by decide) (List.forall_mem_map.mpr h)

/-- An operand stays one behind the name of a relation. -/
theorem Strength.Reads.qualified (relation : Option String) {e : Emission} {xs : List Operator}
    (h : Reads s .due .done xs e) : Reads s .due .done xs (qualifier relation ++ e) := by
  cases relation with
  | none => rwa [qualifier, Emission.empty_append]
  | some name =>
    have hdot : Link "." .done .due [] := by decide
    exact ((Reads.ident name .operand).link hdot).append h

/-- Null counts as a value in a comparison that is one of `IS`, or of a decoded number. -/
theorem Strength.Reads.distinctFrom {left right : Rendered} {xs ys : List Operator}
    (hl : s.dialect = .generic → Reads s .due .done xs (left.operand .left isStrength .left))
    (hr : s.dialect = .generic → Reads s .due .done ys (right.operand .right isStrength .left))
    (hleft : Closes s left.emission) (hright : Closes s right.emission) (negated : Bool) :
    Reads s .due .done (if s.dialect = .generic then xs ++ [.is] ++ ys else [.comparison])
      (emitDistinctFrom s left right negated) := by
  unfold emitDistinctFrom
  -- For Oracle the sides are hidden in a call, and a comparison stands behind it.
  cases hd : s.dialect with
  | generic =>
    have hlink : Link (if negated then " IS NOT DISTINCT FROM " else " IS DISTINCT FROM ")
        .done .due [.is] := by
      cases negated <;> decide
    exact ((hl hd).link hlink).append (hr hd)
  | oracle =>
    have hopen : Lead "DECODE(" .due .hidden [] := by decide
    have hcomma : Link ", " .hidden .hidden [] := by decide
    have hend : Tail (if negated then ", 0, 1) = 0" else ", 0, 1) = 1") .hidden .done
        [.comparison] := by
      cases negated <;> decide
    have hfirst := (Trails.lead hopen).append (.enclosed hleft)
    exact ((hfirst.link hcomma).append (.enclosed hright)).tail hend

/-- A membership test in what stands in parentheses. -/
theorem Strength.Reads.membership {operand list : Emission} {xs : List Operator}
    (h : Reads s .due .done xs operand) (negated : Bool) (hlist : Closes s list) :
    Reads s .due .done (xs ++ [.membership])
      (operand ++ .sql (if negated then " NOT IN (" else " IN (") ++ list ++ .sql ")") := by
  have hopen : Link (if negated then " NOT IN (" else " IN (") .done .hidden [.membership] := by
    cases negated <;> decide
  exact (h.link hopen).enclose hlist

/-- A membership test in one list. -/
theorem Strength.Reads.single {operand : Emission} {xs : List Operator}
    (h : Reads s .due .done xs operand) (negated : Bool) (values : List Literal) :
    Reads s .due .done (xs ++ [.membership]) (InValues.single s operand negated values) :=
  h.membership negated ((nodeLaw_cross s.paramStyle).keeps_join (by decide)
    (List.forall_mem_map.mpr fun l _ => closes_literal l))

/-- An empty list is not split. -/
theorem Settings.splits_zero : s.splits 0 = false := by
  rw [splits]
  cases s.capabilities.maxInList <;> simp

/-- A membership test in as many lists as are needed. Several of them stand in parentheses. -/
theorem Strength.Reads.inLiterals {operand : Emission} {xs : List Operator} {negated : Bool}
    {values : List Literal}
    (h : ((values.isEmpty && negated) || s.splits values.length) = false →
      Reads s .due .done xs operand)
    (hc : (values.isEmpty && negated) = false → Closes s operand) :
    Reads s .due .done
      (if values.isEmpty && negated then [.comparison]
        else if s.splits values.length then [] else xs ++ [.membership])
      (InValues.emit s operand negated values) := by
  have law := nodeLaw_cross s.paramStyle
  unfold InValues.emit
  -- A negated test of no literals is a constant, and a list that is split is hidden.
  cases values with
  | nil =>
    cases negated with
    | true =>
      have hequal : FixedText "1=1".toList .due .done [.comparison] := by decide
      exact .fixed hequal
    | false =>
      have hnull : Tail " IN (NULL)" .done .done [.membership] := by decide
      simpa [Settings.splits_zero] using (h Settings.splits_zero).tail hnull
  | cons l ls =>
    simp only [List.isEmpty_cons, Bool.false_and, Bool.false_or, Bool.false_eq_true, if_false]
      at h hc ⊢
    cases hmax : s.capabilities.maxInList with
    | none =>
      have hsplits : s.splits (l :: ls).length = false := by simp [Settings.splits, hmax]
      rw [hsplits]
      exact (h hsplits).single negated _
    | some max =>
      by_cases hlt : max < (l :: ls).length
      · have hsplits : s.splits (l :: ls).length = true := by
          rw [Settings.splits, hmax]
          simpa using hlt
        have hword : Bridges (if negated then " AND " else " OR ") 0 0 := by
          cases negated <;> decide
        have hparts : Closes s (.join (if negated then " AND " else " OR ")
            ((InValues.chunks max (l :: ls)).map (InValues.single s operand negated))) :=
          law.keeps_join hword (List.forall_mem_map.mpr fun part _ =>
            law.keeps_single (hc trivial) negated fun l _ => closes_literal l)
        rw [hsplits]
        simp only [hlt, if_true]
        exact Writes.of_outcome_eq (Emission.outcome_note_append _ _) (Reads.parens hparts)
      · have hsplits : s.splits (l :: ls).length = false := by
          rw [Settings.splits, hmax]
          simpa using hlt
        rw [hsplits]
        simp only [hlt, if_false]
        exact (h hsplits).single negated _

/-- A window stands in parentheses behind its function. -/
theorem Strength.Reads.window {f : Emission} {xs : List Operator} (h : Reads s .due .done xs f)
    {ps os : List Emission} (hps : ∀ e ∈ ps, Closes s e) (hos : ∀ e ∈ os, Closes s e) :
    Reads s .due .done xs (f ++ emitWindow ps os) := by
  have hover : Link " OVER (" .done .hidden [] := by decide
  have hclauses := (nodeLaw_cross s.paramStyle).keeps_windowClauses hps hos
  simpa [emitWindow, Emission.append_assoc] using (h.link hover).enclose hclauses

/-- A word with an expression behind it, if there is one, behind an operand. -/
theorem Strength.Reads.optional {xs : List Operator} {a : Emission} (ha : Reads s .due .done xs a)
    {word : String} (hword : Link word .done .due []) {x : Option Expr}
    (h : ∀ e ∈ x, Reads s .due .done (e.exposed s) (e.emit s)) :
    ∃ ops, Reads s .due .done ops (a ++ after word (emitOption s x)) := by
  cases x with
  | none => exact ⟨xs, by rwa [emitOption, after, Emission.append_empty]⟩
  | some e =>
    have hbehind := (ha.link hword).append (h e rfl)
    rw [Emission.append_assoc] at hbehind
    exact ⟨_, hbehind⟩

/-- A `CASE` expression shows no operators. -/
theorem Strength.Reads.case {operand default : Option Expr} {b : Branch} {bs : List Branch}
    (h : ∀ c ∈ (Expr.case operand (b :: bs) default).caseParts,
      Reads s .due .done (c.exposed s) (c.emit s)) :
    Reads s .due .done [] ((Expr.case operand (b :: bs) default).emit s) := by
  simp only [Expr.caseParts, List.forall_mem_append, Option.mem_toList] at h
  obtain ⟨⟨hoperand, hbranches⟩, hdefault⟩ := h
  have hbranch : ∀ b' ∈ b :: bs, Reads s .due .done (b'.condition.exposed s) (b'.condition.emit s) ∧
      Reads s .due .done (b'.value.exposed s) (b'.value.emit s) := fun b' hb' =>
    ⟨hbranches _ (List.mem_flatMap.mpr ⟨b', hb', by simp⟩),
      hbranches _ (List.mem_flatMap.mpr ⟨b', hb', by simp⟩)⟩
  obtain ⟨⟨hcondition, hvalue⟩, hbs⟩ := List.forall_mem_cons.mp hbranch
  -- What stands before the first branch leaves an operand due, or has been one.
  have hfirst : ∃ m xs, Reads s .due ⟨0, m⟩ xs (after " " (emitOption s operand)) := by
    cases operand with
    | none => exact ⟨.operand, [], .empty⟩
    | some e =>
      have hblank : Lead " " .due .due [] := by decide
      exact ⟨.operator, _, (Trails.lead hblank).append (hoperand e rfl)⟩
  obtain ⟨m, xs, hfirst⟩ := hfirst
  obtain ⟨f, heq, hf⟩ := hfirst.branch hcondition hvalue bs
  obtain ⟨ys, hwhens⟩ := hf.branches fun b' hb' => ⟨⟨_, (hbs b' hb').1⟩, _, (hbs b' hb').2⟩
  rw [← heq] at hwhens
  obtain ⟨zs, hbody⟩ := hwhens.optional (by decide : Link " ELSE " .done .due []) hdefault
  have hstarts : Starts s (after " " (emitOption s operand) ++ emitBranches s (b :: bs)) := by
    cases operand with
    | none =>
      obtain ⟨condition, value⟩ := b
      rw [emitOption, after, Emission.empty_append, emitBranches]
      exact ((((Starts.sql (by decide)).append _).append _).append _).append _
    | some e => exact ((Starts.sql (by decide)).append _).append _
  have hcase := hbody.caseEnd (hstarts.append _)
  simpa [Expr.emit, Emission.append_assoc] using hcase

/-- The operators that are read in an expression are those that it shows, if that holds of its
parts that are written outside parentheses. -/
theorem Expr.reads_of_parts {e : Expr} (hterm : e.IsTerm)
    (hcaller : ∀ text ∈ e.callerText, Crosses 0 0 text.toList)
    (hclosed : ∀ c ∈ e.children, Closes s (c.emit s))
    (h : ∀ c ∈ e.bareOperands s ++ e.caseParts, Reads s .due .done (c.exposed s) (c.emit s)) :
    Reads s .due .done (e.exposed s) (e.emit s) := by
  have law := nodeLaw_cross s.paramStyle
  have hexpr : ∀ c : Expr, .expr c ∈ e.children → Closes s (c.emit s) := fun c hc => hclosed _ hc
  have hquery : ∀ q : Select, .query q ∈ e.children → Closes s (q.emit s) :=
    fun q hq => hclosed _ hq
  -- An operand is read as its expression, or hidden in parentheses.
  have hoperand : ∀ (c : Expr) (side strength assoc),
      c.bare side strength assoc ⊆ e.bareOperands s → .expr c ∈ e.children →
      Reads s .due .done (c.shown (c.exposed s) side strength assoc)
        (Rendered.operand ⟨c, c.emit s⟩ side strength assoc) := fun c _ _ _ hbare hmem =>
    .operand (fun c hc => h c (List.mem_append_left _ (hbare hc))) (hexpr c hmem)
  cases e with
  | column relation name => exact .qualified relation (.ident name .operand)
  | star relation =>
    have hstar : FixedText "*".toList .due .done [] := by decide
    exact .qualified relation (.fixed hstar)
  | literal l => exact .literal l
  | param name value => exact .param name value
  | raw text => exact Writes.piece fun _ => hterm.passes
  | binary left op right =>
    have hlink : Link (" " ++ op.text ++ " ") .done .due [op.operator] := by cases op <;> decide
    rw [Expr.emit, exposed]
    exact ((hoperand left .left op.strength op.associativity (List.subset_append_left _ _)
      (by simp [children])).link hlink).append (hoperand right .right op.strength op.associativity
      (List.subset_append_right _ _) (by simp [children]))
  | unary op operand =>
    have hlead : Lead op.text .due .due [op.operator] := by cases op <;> decide
    rw [Expr.emit, exposed]
    exact (Trails.lead hlead).append (hoperand operand .right op.strength op.associativity
      (List.Subset.refl _) (by simp [children]))
  | isNull operand negated =>
    have htail : Tail (if negated then " IS NOT NULL" else " IS NULL") .done .done [.is] := by
      cases negated <;> decide
    rw [Expr.emit, exposed]
    exact (hoperand operand .left isStrength .left (List.Subset.refl _) (by simp [children])).tail
      htail
  | isDistinctFrom left right negated =>
    have hleft : .expr left ∈ (isDistinctFrom left right negated).children := by simp [children]
    have hright : .expr right ∈ (isDistinctFrom left right negated).children := by simp [children]
    rw [bareOperands] at hoperand
    refine .distinctFrom (fun hd => ?_) (fun hd => ?_) (hexpr left hleft) (hexpr right hright)
      negated
    · rw [if_pos hd] at hoperand
      exact hoperand left .left isStrength .left (List.subset_append_left _ _) hleft
    · rw [if_pos hd] at hoperand
      exact hoperand right .right isStrength .left (List.subset_append_right _ _) hright
  | between operand low high negated =>
    -- Two operators are read here, and the second is the `AND` of the first.
    have hbetween : Link (if negated then " NOT BETWEEN " else " BETWEEN ") .done .due
        [.between] := by
      cases negated <;> decide
    have hand : Link " AND " .done .due [.and] := by decide
    have htested := hoperand operand .left membershipStrength .left
      (List.Subset.trans (List.subset_append_left _ _) (List.subset_append_left _ _))
      (by simp [children])
    have hlow := hoperand low .right membershipStrength .left
      (List.Subset.trans (List.subset_append_right _ _) (List.subset_append_left _ _))
      (by simp [children])
    have hhigh := hoperand high .right membershipStrength .left (List.subset_append_right _ _)
      (by simp [children])
    rw [Expr.emit, exposed]
    exact (((htested.link hbetween).append hlow).link hand).append hhigh
  | inList operand list negated =>
    rw [Expr.emit, exposed]
    rw [bareOperands] at hoperand
    split
    · have hequal : FixedText (if negated then "1=1" else "1=0" : String).toList .due .done
          [.comparison] := by
        cases negated <;> decide
      exact .fixed hequal
    · next hlist =>
      rw [if_neg hlist] at hoperand
      have htested := hoperand operand .left membershipStrength .left (List.Subset.refl _)
        (by simp [children, hlist])
      exact htested.membership negated (closes_each fun x hx => hexpr x (by simp_all [children]))
  | inValues operand values negated =>
    -- Whether the operand is shown depends on the literals.
    rw [Expr.emit, exposed, emitInValues]
    refine Writes.bind fun literals hliterals => ?_
    obtain rfl := literals_eq_ok_iff.mp hliterals
    rw [bareOperands] at hoperand
    simp only [List.isEmpty_map, List.length_map] at hoperand ⊢
    refine Reads.inLiterals (fun hshown => ?_) fun hempty => ?_
    · have hempty : (literals.isEmpty && negated) = false := (Bool.or_eq_false_iff.mp hshown).1
      rw [if_neg (by simp [hshown])] at hoperand
      exact hoperand operand .left membershipStrength .left (List.Subset.refl _)
        (by simp [children, hempty])
    · exact law.keeps_operand (hexpr operand (by simp [children, hempty]))
  | inSubquery operand query negated =>
    have htested := hoperand operand .left membershipStrength .left (List.Subset.refl _)
      (by simp [children])
    exact htested.membership negated (hquery query (by simp [children]))
  | «exists» query negated =>
    have hopen : Lead (if negated then "NOT EXISTS (" else "EXISTS (") .due .hidden
        (if negated then [.not] else []) := by
      cases negated <;> decide
    rw [Expr.emit, exposed]
    exact (Trails.lead hopen).enclose (hquery query (by simp [children]))
  | function name args distinct =>
    -- The arguments are hidden, and the name is a text of the caller.
    have hname : Reads s .due .done (operators name.toList) (.verbatim name) :=
      Writes.piece fun _ => hterm.passes
    have hopen : Link (if distinct then "(DISTINCT " else "(") .done .hidden [] := by
      cases distinct <;> decide
    have hargs : Closes s (.join ", " (emitEach s args)) :=
      closes_each fun x hx => hexpr x (by simpa [children] using hx)
    simpa [Expr.emit, exposed] using (hname.link hopen).enclose hargs
  | window f partitionBy orderBy =>
    rw [Expr.emit, exposed, emitEach_eq_map, emitOrders_eq_map]
    refine (h f (by simp [bareOperands])).window
      (List.forall_mem_map.mpr fun x hx => hexpr x (by simp [children, hx]))
      (List.forall_mem_map.mpr fun o ho => law.keeps_order (hexpr o.expr ?_))
    simp only [children, List.mem_cons, List.mem_append, List.mem_map]
    exact .inr (.inr ⟨o, ho, rfl⟩)
  | case operand branches default =>
    cases branches with
    | nil => exact .fail _
    | cons b bs => exact .case fun c hc => h c (List.mem_append_right _ hc)
  | cast operand dataType =>
    have hopen : Lead "CAST(" .due .hidden [] := by decide
    have has : Link " AS " .hidden .hidden [] := by decide
    have htype : Closes s (.verbatim dataType) := Keeps.piece fun position => by
      rw [Piece.renderFrom_singleton]
      exact hcaller dataType rfl
    have hoperand := (Trails.lead hopen).append (.enclosed (hexpr operand (by simp [children])))
    exact (hoperand.link has).enclose htype
  | grouping inner => exact .parens (hexpr inner (by simp [children]))
  | named inner name =>
    have has : Link " AS " .done .done [] := by decide
    have hinner := h inner (by simp [bareOperands])
    simpa [Expr.emit, exposed] using (hinner.link has).append (.ident name .operator)
  | subquery query => exact .parens (hquery query (by simp [children]))

end Parts

end SqlCompiler
