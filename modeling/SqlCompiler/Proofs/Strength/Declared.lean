import Mathlib
import SqlCompiler.Proofs.Strength.Exposed

/-!
# Declared strength

An expression declares how strong it binds, and is written without parentheses beside operators that
bind weaker. That keeps it together if every operator that its text shows binds at least as strong.
Most kinds of expressions see to it: their own operator is the one that they declare, and an operand
that binds weaker stands in parentheses. Some do not (`Expr.isDeclared`): `NOT EXISTS`, membership
in an empty list, a negative number in a parameter's place, and what the strength is not looked at
for, the caller's text and what is named or has a window. The declared strength is right exactly if
no such part shows an operator that binds weaker (`Expr.strength_le_iff`). The declaration is
`binding_strength`, and `needs_parentheses` looks at it.
-/

namespace SqlCompiler

open Strength

/-! ## Operators that count -/

namespace Strength

/-- There is an `AND` for each `BETWEEN`. -/
def Paired (ops : List Operator) : Prop :=
  ops.count .between ≤ ops.count .and

instance (ops : List Operator) : Decidable (Paired ops) :=
  inferInstanceAs (Decidable (_ ≤ _))

/-- Lists in which every `BETWEEN` has its `AND` have so one after the other. -/
theorem Paired.append {xs ys : List Operator} (hxs : Paired xs) (hys : Paired ys) :
    Paired (xs ++ ys) := by
  unfold Paired at hxs hys ⊢
  rw [List.count_append, List.count_append]
  omega

/-- The order does not matter to whether every `BETWEEN` has its `AND`. -/
theorem Paired.perm {xs ys : List Operator} (h : xs.Perm ys) (hys : Paired ys) :
    Paired xs := by
  unfold Paired at hys ⊢
  rwa [h.count_eq, h.count_eq]

/-- The order does not matter to what counts. -/
theorem counts_perm {xs ys : List Operator} (h : xs.Perm ys) (op : Operator) :
    Counts xs op ↔ Counts ys op := by
  unfold Counts
  rw [h.mem_iff, h.count_eq, h.count_eq]

/-- An operator counts in one of two lists. -/
theorem counts_append {xs ys : List Operator} (hxs : Paired xs) (hys : Paired ys)
    (op : Operator) : Counts (xs ++ ys) op ↔ Counts xs op ∨ Counts ys op := by
  unfold Paired at hxs hys
  unfold Counts
  rw [List.mem_append, List.count_append, List.count_append]
  by_cases hop : op = .and
  · -- Where more `AND`s than `BETWEEN`s stand, there is one.
    subst hop
    have hmem : ∀ {zs : List Operator}, zs.count .between < zs.count .and → .and ∈ zs :=
      fun h => List.count_pos_iff.mp (by omega)
    constructor
    · rintro ⟨-, hlt⟩
      have hlt := hlt rfl
      by_cases hleft : xs.count .between < xs.count .and
      · exact .inl ⟨hmem hleft, fun _ => hleft⟩
      · have hright : ys.count .between < ys.count .and := by omega
        exact .inr ⟨hmem hright, fun _ => hright⟩
    · rintro (⟨hin, hlt⟩ | ⟨hin, hlt⟩)
      · have hlt := hlt rfl
        exact ⟨.inl hin, fun _ => by omega⟩
      · have hlt := hlt rfl
        exact ⟨.inr hin, fun _ => by omega⟩
  · simp [hop]

/-- Lists in which every `BETWEEN` has its `AND` have so all together. -/
theorem paired_flatMap {α : Type} {f : α → List Operator} {xs : List α}
    (h : ∀ x ∈ xs, Paired (f x)) : Paired (xs.flatMap f) := by
  induction xs with
  | nil => exact le_refl 0
  | cons x xs ih =>
    obtain ⟨hx, hxs⟩ := List.forall_mem_cons.mp h
    rw [List.flatMap_cons]
    exact hx.append (ih hxs)

/-- Of several such lists, what counts in one of them counts. -/
theorem counts_flatMap {α : Type} {f : α → List Operator} {xs : List α}
    (h : ∀ x ∈ xs, Paired (f x)) (op : Operator) :
    Counts (xs.flatMap f) op ↔ ∃ x ∈ xs, Counts (f x) op := by
  induction xs with
  | nil => simp [Counts]
  | cons x xs ih =>
    obtain ⟨hx, hxs⟩ := List.forall_mem_cons.mp h
    rw [List.flatMap_cons, counts_append hx (paired_flatMap hxs), ih hxs]
    simp

end Strength

/-! ## Own operators -/

/-- The operators that an expression writes itself, outside parentheses. -/
def Expr.written (s : Settings) : Expr → List Operator
  | .literal l => signs l.isNegative
  | .param _ value => signs (s.paramStyle = .inline && value.any Literal.isNegative)
  | .raw text => operators text.toList
  | .function name _ _ => operators name.toList
  | .binary _ op _ => [op.operator]
  | .unary op _ => [op.operator]
  | .isNull _ _ => [.is]
  | .isDistinctFrom _ _ _ => if s.dialect = .generic then [.is] else [.comparison]
  | .between _ _ _ _ => [.between, .and]
  | .inList _ list _ => if list.isEmpty then [.comparison] else [.membership]
  | .inValues _ values negated =>
    if values.isEmpty && negated then [.comparison]
    else if s.splits values.length then [] else [.membership]
  | .inSubquery _ _ _ => [.membership]
  | .exists _ negated => if negated then [.not] else []
  | _ => []

/-- The operators of an operand are shown if it stands without parentheses. -/
theorem Expr.flatMap_bare (e : Expr) (f : Expr → List Operator) (side : Side) (strength : Nat)
    (assoc : Associativity) :
    (e.bare side strength assoc).flatMap f = e.shown (f e) side strength assoc := by
  unfold bare shown
  split
  · rfl
  · exact List.flatMap_singleton f e

/-- An expression shows its own operators and those of its bare operands. -/
theorem Expr.exposed_perm (s : Settings) (e : Expr) :
    (e.exposed s).Perm (e.written s ++ (e.bareOperands s).flatMap (exposed s)) := by
  refine List.perm_iff_count.mpr fun op => ?_
  -- Only the order differs: an operator is written between its operands.
  cases e with
  | between operand low high negated =>
    have hown : [Operator.between, .and] = [.between] ++ [.and] := rfl
    simp only [exposed, written, bareOperands, hown, List.flatMap_append, flatMap_bare,
      List.count_append]
    omega
  | isDistinctFrom left right negated =>
    simp only [exposed, written, bareOperands]
    split
    · simp only [List.flatMap_append, flatMap_bare, List.count_append]
      omega
    · simp
  | inList operand list negated =>
    simp only [exposed, written, bareOperands]
    split
    · simp
    · simp only [flatMap_bare, List.count_append]
      omega
  | inValues operand values negated =>
    simp only [exposed, written, bareOperands]
    cases values.isEmpty && negated <;> cases s.splits values.length
    · simp only [Bool.or_self, Bool.false_eq_true, if_false, flatMap_bare, List.count_append]
      omega
    all_goals simp
  | binary left op' right =>
    simp only [exposed, written, bareOperands, List.flatMap_append, flatMap_bare, List.count_append]
    omega
  | unary op' operand => rw [exposed, written, bareOperands, flatMap_bare]
  | isNull operand negated =>
    rw [exposed, written, bareOperands, flatMap_bare, List.count_append, List.count_append,
      Nat.add_comm]
  | inSubquery operand query negated =>
    rw [exposed, written, bareOperands, flatMap_bare, List.count_append, List.count_append,
      Nat.add_comm]
  | window f partitionBy orderBy => simp [exposed, written, bareOperands]
  | named inner name => simp [exposed, written, bareOperands]
  | _ => simp [exposed, written, bareOperands]

/-! ## Kinds that declare their strength -/

/-- The strength of the expression covers what it writes and its bare operands. -/
def Expr.isDeclared (s : Settings) : Expr → Bool
  | .param _ value => !(s.paramStyle = .inline && value.any Literal.isNegative)
  | .exists _ negated => !negated
  | .inList _ list _ => !list.isEmpty
  | .inValues _ values negated => !(values.isEmpty && negated)
  | .raw _ => false
  | .function name _ _ => (operators name.toList).isEmpty
  | .window _ _ _ => false
  | .named _ _ => false
  | _ => true

/-- What stands without parentheses binds at least as strong. -/
theorem le_strength_of_needsParens {child parent : Nat} {side : Side} {assoc : Associativity}
    (h : needsParens child parent side assoc = false) : parent ≤ child := by
  simp only [needsParens, Bool.or_eq_false_iff, decide_eq_false_iff_not] at h
  omega

/-- A bare operand binds at least as strong. -/
theorem Expr.strength_le_of_bare {s : Settings} {e c : Expr} (h : e.isDeclared s = true)
    (hc : c ∈ e.bareOperands s) : e.strength ≤ c.strength := by
  -- Without parentheses an operand binds as strong as its place asks for.
  have hbare : ∀ {c' : Expr} {side assoc strength}, c ∈ c'.bare side strength assoc →
      strength ≤ c.strength := by
    intro c' side assoc strength hmem
    obtain ⟨hparens, rfl⟩ := mem_bare.mp hmem
    exact le_strength_of_needsParens hparens
  cases e with
  | binary left op right =>
    rw [bareOperands, List.mem_append] at hc
    exact hc.elim hbare hbare
  | unary op operand => exact hbare hc
  | isNull operand negated => exact hbare hc
  | isDistinctFrom left right negated =>
    rw [bareOperands] at hc
    split at hc
    · exact (List.mem_append.mp hc).elim hbare hbare
    · cases hc
  | between operand low high negated =>
    rw [bareOperands, List.mem_append, List.mem_append] at hc
    exact hc.elim (fun hc => hc.elim hbare hbare) hbare
  | inList operand list negated =>
    rw [bareOperands] at hc
    split at hc
    · cases hc
    · exact hbare hc
  | inValues operand values negated =>
    rw [bareOperands] at hc
    split at hc
    · cases hc
    · exact hbare hc
  | inSubquery operand query negated => exact hbare hc
  | window f partitionBy orderBy => cases h
  | named inner name => cases h
  | _ => cases hc

/-- An infix operator is read with the strength that it declares. -/
theorem BinaryOp.strength_operator (op : BinaryOp) : op.operator.strength = op.strength := by
  cases op <;> rfl

/-- A prefix operator is read with the strength that it declares. -/
theorem UnaryOp.strength_operator (op : UnaryOp) : op.operator.strength = op.strength := by
  cases op <;> rfl

/-- A negative literal declares the strength of its sign. -/
theorem Literal.strength_of_isNegative {l : Literal} (h : l.isNegative = true) :
    (Expr.literal l).strength = UnaryOp.neg.strength := by
  cases l with
  | integer n => exact if_pos (of_decide_eq_true h)
  | float x => exact if_pos h
  | _ => cases h

/-- The own operators bind at least as strong as is declared. -/
theorem Expr.strength_le_of_written {s : Settings} {e : Expr} (h : e.isDeclared s = true)
    {op : Operator} (hop : Counts (e.written s) op) : e.strength ≤ op.strength := by
  have hsingle : ∀ {op' : Operator}, op ∈ [op'] → op = op' := List.mem_singleton.mp
  obtain ⟨hmem, hand⟩ := hop
  cases e with
  | literal l =>
    -- A sign is shown by negative numbers only, which declare its strength.
    rw [written, signs] at hmem
    split at hmem
    · next hnegative =>
      obtain rfl := hsingle hmem
      exact (Literal.strength_of_isNegative hnegative).le
    · cases hmem
  | param name value =>
    rw [isDeclared, Bool.not_eq_true'] at h
    rw [written, h] at hmem
    cases hmem
  | raw text => cases h
  | function name args distinct =>
    rw [written, List.isEmpty_iff.mp h] at hmem
    cases hmem
  | binary left op' right =>
    obtain rfl := hsingle hmem
    exact op'.strength_operator.ge
  | unary op' operand =>
    obtain rfl := hsingle hmem
    exact op'.strength_operator.ge
  | isNull operand negated =>
    obtain rfl := hsingle hmem
    exact le_refl _
  | isDistinctFrom left right negated =>
    rw [written] at hmem
    split at hmem
    · obtain rfl := hsingle hmem
      exact le_refl _
    · obtain rfl := hsingle hmem
      exact (by decide : isStrength ≤ Operator.comparison.strength)
  | between operand low high negated =>
    -- There is one `AND`, and it belongs to `BETWEEN`.
    obtain rfl | hmem := List.mem_cons.mp hmem
    · exact le_refl _
    · obtain rfl := hsingle hmem
      have hlt := hand rfl
      rw [written] at hlt
      exact absurd hlt (by decide)
  | inList operand list negated =>
    rw [isDeclared, Bool.not_eq_true'] at h
    rw [written, h, if_neg Bool.false_ne_true] at hmem
    obtain rfl := hsingle hmem
    exact le_refl _
  | inValues operand values negated =>
    -- An empty list that is negated is a comparison of constants, which is undeclared.
    rw [isDeclared, Bool.not_eq_true'] at h
    rw [written, h, if_neg Bool.false_ne_true] at hmem
    split at hmem
    · cases hmem
    · obtain rfl := hsingle hmem
      exact le_refl _
  | inSubquery operand query negated =>
    obtain rfl := hsingle hmem
    exact le_refl _
  | «exists» query negated =>
    rw [isDeclared, Bool.not_eq_true'] at h
    rw [written, h, if_neg Bool.false_ne_true] at hmem
    cases hmem
  | _ => cases hmem

/-! ## Expressions -/

/-- An expression is written outside parentheses and `CASE` expressions of another one, or is it. -/
def Expr.Exposes (s : Settings) : Expr → Expr → Prop :=
  Relation.ReflTransGen fun e c => c ∈ e.bareOperands s

/-- An expression is written outside parentheses of another one, or is it. -/
def Expr.Shows (s : Settings) : Expr → Expr → Prop :=
  Relation.ReflTransGen fun e c => c ∈ e.bareOperands s ++ e.caseParts

/-- What an expression exposes it shows. -/
theorem Expr.Exposes.shows {s : Settings} {e n : Expr} (h : e.Exposes s n) : e.Shows s n :=
  Relation.ReflTransGen.mono (fun _ _ hc => List.mem_append_left _ hc) _ _ h

/-- What an expression shows it visits. -/
theorem Expr.Shows.visits {s : Settings} {e n : Expr} (h : e.Shows s n) :
    (Node.expr e).Visits (.expr n) :=
  Relation.ReflTransGen.lift Node.expr (fun _ _ hc => mem_children_of_bare hc) _ _ h

/-- What holds of an expression if it holds of its parts outside parentheses holds of all. -/
theorem Expr.induction_shown {s : Settings} {P : Expr → Prop}
    (step : ∀ e, (∀ c ∈ e.bareOperands s ++ e.caseParts, P c) → P e) (e : Expr) : P e := by
  have hnode : ∀ m : Node, ∀ e, m = .expr e → P e := by
    intro m
    induction m using Node.induction with
    | step m ih =>
      rintro e rfl
      exact step e fun c hc => ih (.expr c) (mem_children_of_bare hc) c rfl
  exact hnode (.expr e) e rfl

section Expressions

variable {s : Settings} {e : Expr}

/-- The operators that are read in an expression are those that it shows, if the caller's texts
match their quotes and parentheses and, outside parentheses, stand for operands. -/
theorem Expr.reads_emit
    (hcaller : ∀ n, (Node.expr e).Visits n → ∀ text ∈ n.callerText, Crosses 0 0 text.toList)
    (hterms : ∀ n, e.Shows s n → n.IsTerm) : Reads s .due .done (e.exposed s) (e.emit s) := by
  induction e using Expr.induction_shown (s := s) with
  | step e ih =>
    refine e.reads_of_parts (hterms e .refl) (hcaller (.expr e) .refl) (fun c hc => ?_)
      fun c hc => ?_
    · exact Node.crosses_emit fun n hn => hcaller n (.head hc hn)
    · exact ih c hc (fun n hn => hcaller n (.head (mem_children_of_bare hc) hn))
        fun n hn => hterms n (.head hc hn)

/-- In what an expression writes itself every `BETWEEN` has its `AND`. -/
theorem Expr.paired_written (h : e.IsTerm) : Paired (e.written s) := by
  have hsigns : ∀ negative : Bool, Paired (signs negative) := by decide
  have hown : ∀ op : BinaryOp, Paired [op.operator] := by
    intro op
    cases op <;> decide
  cases e with
  | literal l => exact hsigns _
  | param name value => exact hsigns _
  | raw text => exact h.balanced
  | function name args distinct => exact h.balanced
  | binary left op right => exact hown op
  | unary op operand => cases op <;> exact le_refl 0
  | isDistinctFrom left right negated =>
    rw [written]
    split <;> decide
  | inList operand list negated =>
    rw [written]
    split <;> decide
  | inValues operand values negated =>
    rw [written]
    split
    · decide
    · split <;> decide
  | «exists» query negated =>
    rw [written]
    split <;> decide
  -- The only expression that writes both words.
  | between operand low high negated => exact le_refl 1
  | _ => exact le_refl 0

/-- Each `BETWEEN` that an expression shows has its `AND`. -/
theorem Expr.paired_exposed (hterms : ∀ n, e.Exposes s n → n.IsTerm) :
    Paired (e.exposed s) := by
  induction e using Expr.induction_shown (s := s) with
  | step e ih =>
    refine .perm (e.exposed_perm s) ((paired_written (hterms e .refl)).append ?_)
    exact paired_flatMap fun c hc => ih c (List.mem_append_left _ hc) fun n hn =>
      hterms n (.head hc hn)

/-- An operator that an expression shows is its own or one of a bare operand. -/
theorem Expr.counts_exposed_iff (hterms : ∀ n, e.Exposes s n → n.IsTerm) (op : Operator) :
    Counts (e.exposed s) op
      ↔ Counts (e.written s) op ∨ ∃ c ∈ e.bareOperands s, Counts (c.exposed s) op := by
  have hoperands : ∀ c ∈ e.bareOperands s, Paired (c.exposed s) := fun c hc =>
    paired_exposed fun n hn => hterms n (.head hc hn)
  rw [counts_perm (e.exposed_perm s), counts_append (paired_written (hterms e .refl))
    (paired_flatMap hoperands), counts_flatMap hoperands]

/-- What a part shows, the expression shows. -/
theorem Expr.counts_of_exposes (hterms : ∀ n, e.Exposes s n → n.IsTerm) {n : Expr}
    (hn : e.Exposes s n) {op : Operator} (hop : Counts (n.exposed s) op) :
    Counts (e.exposed s) op := by
  induction hn using Relation.ReflTransGen.head_induction_on with
  | refl => exact hop
  | head hc hn ih =>
    exact (counts_exposed_iff hterms op).mpr (.inr ⟨_, hc, ih fun n hn => hterms n (.head hc hn)⟩)

/-- No operator of an expression binds weaker than a bound that its strength keeps to, if none
does in the parts that do not declare their strength. -/
theorem Expr.le_strength_of_undeclared (hterms : ∀ n, e.Exposes s n → n.IsTerm) {bound : Nat}
    (hbound : bound ≤ e.strength)
    (h : ∀ n, e.Exposes s n → n.isDeclared s = false →
      ∀ op, Counts (n.exposed s) op → bound ≤ op.strength) :
    ∀ op, Counts (e.exposed s) op → bound ≤ op.strength := by
  -- From the parts that an expression shows to the expression.
  induction e using Expr.induction_shown (s := s) with
  | step e ih =>
    intro op hop
    cases hdeclared : e.isDeclared s with
    | false => exact h e .refl hdeclared op hop
    | true =>
      obtain hop | ⟨c, hc, hop⟩ := (counts_exposed_iff hterms op).mp hop
      · exact hbound.trans (strength_le_of_written hdeclared hop)
      · exact ih c (List.mem_append_left _ hc) (fun n hn => hterms n (.head hc hn))
          (hbound.trans (strength_le_of_bare hdeclared hc)) (fun n hn => h n (.head hc hn)) op hop

/-! ## Words of the caller -/

/-- The text is one word that is not reserved. -/
def Strength.isName (text : String) : Bool :=
  !text.toList.isEmpty && text.toList.all isTermChar && wordLexeme text.toList == .atom

/-- A name is read as an operand without operators. -/
theorem Strength.isTerm_of_isName {text : String} (h : isName text = true) : IsTerm text := by
  simp only [isName, Bool.and_eq_true, Bool.not_eq_true', List.isEmpty_eq_false_iff,
    List.all_eq_true, beq_iff_eq] at h
  obtain ⟨⟨hne, hchars⟩, hatom⟩ := h
  have hpasses := passes_word hne hchars hatom .operand
  have hnone : operators text.toList = [] := hpasses.operators_eq
  exact ⟨hnone ▸ hpasses, by rw [hnone]; exact le_refl 0⟩

/-- A name has no parentheses and quotes. -/
theorem Strength.crosses_of_isName {text : String} (h : isName text = true) :
    Crosses 0 0 text.toList := by
  simp only [isName, Bool.and_eq_true, List.all_eq_true] at h
  exact (leads_of_neutral (fun c hc => isNeutral_of_class (by decide) (h.1.2 c hc)) 0).crosses

/-- An expression whose own text of the caller is a name is read as an operand. -/
theorem Expr.isTerm_of_isName (h : e.callerText.all isName = true) : e.IsTerm := by
  cases e with
  | raw text => exact Strength.isTerm_of_isName h
  | function name args distinct => exact Strength.isTerm_of_isName h
  | _ => trivial

/-! ## The declared strength -/

/-- The operators that are read in the text of an expression are those that it shows. They all bind
at least as strong as the expression declares exactly if those of its parts do that do not declare
their strength. -/
theorem Expr.strength_le_iff {ps : List Piece} (h : (e.emit s).outcome = .ok ps)
    (hcaller : ∀ n, (Node.expr e).Visits n → ∀ text ∈ n.callerText, Crosses 0 0 text.toList)
    (hterms : ∀ n, e.Shows s n → n.IsTerm) (position : Nat) :
    operators (Piece.renderFrom s.paramStyle position ps).toList = e.exposed s ∧
    ((∀ op, Counts (operators (Piece.renderFrom s.paramStyle position ps).toList) op →
        e.strength ≤ op.strength)
      ↔ ∀ n, e.Exposes s n → n.isDeclared s = false →
        ∀ op, Counts (n.exposed s) op → e.strength ≤ op.strength) := by
  have hread : operators (Piece.renderFrom s.paramStyle position ps).toList = e.exposed s :=
    (reads_emit hcaller hterms ps h position).operators_eq
  have hexposed : ∀ n, e.Exposes s n → n.IsTerm := fun n hn => hterms n hn.shows
  refine ⟨hread, ?_⟩
  rw [hread]
  constructor
  · -- What a part shows is shown by the whole, and read in its text.
    intro hall n hn _ op hop
    exact hall op (counts_of_exposes hexposed hn hop)
  · exact le_strength_of_undeclared hexposed (le_refl _)

end Expressions

/-- `NOT EXISTS` beside an `AND`, which binds weaker, behind a test between a negative number and a
sum with a call. -/
theorem strength_le_of_between_and :
    let s : Settings := ({} : Options).choices
    let q : Select := .ofCore { Core.empty with
      projections := [.col "a"], source := some (.ofTable { name := "t" }) }
    let sum : Expr := .binary (.raw "sysdate") .add
      (.function "coalesce" [.binary (.col "b") .or (.col "c"), .param "p" none] false)
    let e : Expr := .binary (.between (.col "x") (.literal (.integer (-5))) sum false) .and
      (.exists q true)
    ∃ ps, (e.emit s).outcome = .ok ps ∧
      Piece.renderFrom s.paramStyle 1 ps = "x BETWEEN -5 AND sysdate + coalesce(b OR c, ?) AND "
        ++ "NOT EXISTS (SELECT a FROM t)" ∧
      operators (Piece.renderFrom s.paramStyle 1 ps).toList
        = [.between, .sign, .and, .additive, .and, .not] ∧
      ∀ n, e.Exposes s n → n.isDeclared s = false →
        ∀ op, Counts (n.exposed s) op → e.strength ≤ op.strength := by
  intro s q sum e
  let ps : List Piece := [.ident "x", .sql " BETWEEN ", .sql "-5", .sql " AND ",
    .verbatim "sysdate", .sql " + ", .verbatim "coalesce", .sql "(", .ident "b", .sql " OR ",
    .ident "c", .sql ", ", .param "p" none, .sql ")", .sql " AND ", .sql "NOT EXISTS (",
    .sql "SELECT ", .ident "a", .sql " FROM ", .ident "t", .sql ")"]
  have hps : (e.emit s).outcome = .ok ps := by cbv
  have hnames : Node.allVisited (fun n => n.callerText.all isName) 6 (.expr e) = true := by cbv
  have hvisited := Node.forall_visits_of_allVisited hnames
  have hcaller : ∀ n, (Node.expr e).Visits n → ∀ text ∈ n.callerText, Crosses 0 0 text.toList :=
    fun n hn text htext => crosses_of_isName ((Option.all_eq_true ..).mp (hvisited n hn) text htext)
  have hexposed : e.exposed s = [.between, .sign, .and, .additive, .and, .not] := by cbv
  obtain ⟨hread, hiff⟩ := Expr.strength_le_iff hps hcaller
    (fun n hn => n.isTerm_of_isName (hvisited _ hn.visits)) 1
  refine ⟨ps, hps, by cbv, hread.trans hexposed, hiff.mp fun op hop => ?_⟩
  rw [hread, hexposed] at hop
  exact (by decide : ∀ op ∈ [Operator.between, .sign, .and, .additive, .and, .not],
    BinaryOp.and.strength ≤ op.strength) op hop.1

/-- `NOT EXISTS` is written bare before `IS NULL`, which binds stronger than `NOT`. -/
theorem not_strength_le_of_not_exists :
    let s : Settings := ({} : Options).choices
    let q : Select := .ofCore { Core.empty with
      projections := [.col "a"], source := some (.ofTable { name := "u" }) }
    let e : Expr := .isNull (.exists q true) false
    ∃ ps, (e.emit s).outcome = .ok ps ∧
      Piece.renderFrom s.paramStyle 1 ps = "NOT EXISTS (SELECT a FROM u) IS NULL" ∧
      ¬∀ op, Counts (operators (Piece.renderFrom s.paramStyle 1 ps).toList) op →
        e.strength ≤ op.strength := by
  intro s q e
  let ps : List Piece := [.sql "NOT EXISTS (", .sql "SELECT ", .ident "a", .sql " FROM ",
    .ident "u", .sql ")", .sql " IS NULL"]
  have htext : Piece.renderFrom s.paramStyle 1 ps = "NOT EXISTS (SELECT a FROM u) IS NULL" := by cbv
  refine ⟨ps, by cbv, htext, fun h => ?_⟩
  have hcounts : Counts (operators "NOT EXISTS (SELECT a FROM u) IS NULL".toList) .not := by decide
  rw [htext] at h
  exact absurd (h .not hcounts) (by decide)

end SqlCompiler
