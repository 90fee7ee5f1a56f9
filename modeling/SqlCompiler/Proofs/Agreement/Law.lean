import SqlCompiler.Proofs.Agreement.Tree
import SqlCompiler.Proofs.QueryParts

/-!
# Relations that the grammar keeps

An emission is put together from fixed texts, names, literals and parameters. A relation between
emissions that holds of these and is kept when emissions are put one after the other is a
`GrammarLaw`. It then holds of everything that the grammar builds: lists, operands, conditions and
queries in standard form or with counted rows.

A law may depend on parentheses. `R i j` relates emissions that begin inside `i` parentheses and end
inside `j`, counted from where an expression stands, and a fixed text takes part only as its
parentheses allow (`Fits`). An expression stays outside (`R 0 0`), and a query, which always stands
in parentheses, inside one pair (`R 1 1`).
-/

namespace SqlCompiler

open Emission (sql ident)

/-- The depth of parentheses after one more character. There is none if a parenthesis closes that
was not opened, or if a comma stands outside all of them. -/
def nest : Option Nat → Char → Option Nat
  | none, _ => none
  | some depth, c =>
    if c = '(' then some (depth + 1)
    else if c = ')' then if depth = 0 then none else some (depth - 1)
    else if c = ',' then if depth = 0 then none else some depth
    else some depth

/-- Once the depth is lost, it stays lost. -/
theorem foldl_nest_none (cs : List Char) : cs.foldl nest none = none := by
  induction cs with
  | nil => rfl
  | cons c cs ih => exact ih

/-- Characters that lead to a depth do so one after the other. -/
theorem foldl_nest_cons {c : Char} {cs : List Char} {i j : Nat}
    (h : (c :: cs).foldl nest (some i) = some j) :
    ∃ k, nest (some i) c = some k ∧ cs.foldl nest (some k) = some j := by
  rw [List.foldl_cons] at h
  cases hk : nest (some i) c with
  | none =>
    rw [hk, foldl_nest_none] at h
    cases h
  | some k =>
    rw [hk] at h
    exact ⟨k, rfl, h⟩

/-- What a character does that leads from one depth to another. -/
theorem nest_inversion {c : Char} {i k : Nat} (h : nest (some i) c = some k) :
    (c = '(' ∧ k = i + 1) ∨ (c = ')' ∧ i = k + 1) ∨ (c = ',' ∧ 0 < i ∧ k = i) ∨
    (c ≠ '(' ∧ c ≠ ')' ∧ c ≠ ',' ∧ k = i) := by
  simp only [nest] at h
  -- The depth is lost in two of the branches, and the others are the four cases.
  split_ifs at h with hopen hclose hzero hcomma hzero
  all_goals simp only [Option.some.injEq] at h
  · exact .inl ⟨hopen, h.symm⟩
  · exact .inr (.inl ⟨hclose, by omega⟩)
  · exact .inr (.inr (.inl ⟨hcomma, by omega, h.symm⟩))
  · exact .inr (.inr (.inr ⟨hopen, hclose, hcomma, h.symm⟩))

/-- A reading whose states stand for depths, and which follows every character that leads from one
depth to another, follows all of them. -/
theorem foldl_of_nest {σ : Type} {step : σ → Char → σ} (state : Nat → σ)
    (hstep : ∀ {i k c}, nest (some i) c = some k → step (state i) c = state k) {cs : List Char}
    {i j : Nat} (h : cs.foldl nest (some i) = some j) : cs.foldl step (state i) = state j := by
  -- The reading is in the state of the depth all along.
  induction cs generalizing i with
  | nil =>
    obtain rfl := Option.some.inj h
    rfl
  | cons c cs ih =>
    obtain ⟨k, hk, hrest⟩ := foldl_nest_cons h
    rw [List.foldl_cons, hstep hk]
    exact ih hrest

/-- The texts that end a list of projections: the words of the clauses and the set operators. -/
def clauseTexts : List String :=
  [" FROM ", " WHERE ", " GROUP BY ", " HAVING ", " ORDER BY ", "UNION", "UNION ALL", "INTERSECT",
   "INTERSECT ALL", "EXCEPT", "EXCEPT ALL", "MINUS"]

/-- A fixed text leads from depth `i` to depth `j`. Outside parentheses it is no part of a list and
ends none. -/
def Fits (text : String) (i j : Nat) : Prop :=
  text.toList.foldl nest (some i) = some j ∧ (i = 0 → text ∉ clauseTexts)

instance (text : String) (i j : Nat) : Decidable (Fits text i j) :=
  inferInstanceAs (Decidable (_ ∧ _))

/-- The expressions agree, and their emissions are related outside parentheses. -/
structure Rendered.Agree (Z : Literal → Literal → Prop) (R : Nat → Nat → Emission → Emission → Prop)
    (r r' : Rendered) : Prop where
  expr : r.expr.Agree Z r'.expr
  emission : R 0 0 r.emission r'.emission

/-- The parts of two cores are related one by one. -/
structure CoreParts.Agree (Z : Literal → Literal → Prop)
    (R : Nat → Nat → Emission → Emission → Prop) (c c' : CoreParts) : Prop where
  setOp : c'.setOp = c.setOp
  distinct : c'.distinct = c.distinct
  projections : List.Forall₂ (R 0 0) c.projections c'.projections
  source : Option.Rel (R 0 0) c.source c'.source
  wheres : List.Forall₂ (Rendered.Agree Z R) c.wheres c'.wheres
  groups : List.Forall₂ (R 0 0) c.groups c'.groups
  havings : List.Forall₂ (Rendered.Agree Z R) c.havings c'.havings

/-- The parts of two queries are related one by one. -/
structure QueryParts.Agree (Z : Literal → Literal → Prop)
    (R : Nat → Nat → Emission → Emission → Prop) (q q' : QueryParts) : Prop where
  cores : List.Forall₂ (CoreParts.Agree Z R) q.cores q'.cores
  orders : List.Forall₂ (R 0 0) q.orders q'.orders
  limit : Option.Rel (Rendered.Agree Z R) q.limit q'.limit
  offset : Option.Rel (Rendered.Agree Z R) q.offset q'.offset
  lock : q'.lock = q.lock

/-- What is looked at for an ordering by aliases is related one by one. -/
structure Probe.Agree (R : Nat → Nat → Emission → Emission → Prop) (p p' : Probe) : Prop where
  projections : List.Forall₂ (R 0 0) p.projections p'.projections
  orders : List.Forall₂ (R 0 0) p.orders p'.orders

/-- A relation between the emissions of two trees under two settings that the grammar keeps. The
literals of the trees are related by `Z`. -/
structure GrammarLaw (Z : Literal → Literal → Prop) (s s' : Settings)
    (R : Nat → Nat → Emission → Emission → Prop) : Prop where
  dialect : s'.dialect = s.dialect
  capabilities : s'.capabilities = s.capabilities
  inline_iff : s'.paramStyle = .inline ↔ s.paramStyle = .inline
  /-- Related literals bind alike. -/
  strength : ∀ l l', Z l l' → (Expr.literal l').strength = (Expr.literal l).strength
  /-- Where row bounds are looked at, related literals are equal. -/
  eq_of_oracle : s.dialect = .oracle → ∀ l l', Z l l' → l = l'
  empty : R 0 0 .empty .empty
  note : ∀ n, R 0 0 (.note n) (.note n)
  sql : ∀ text i j, Fits text i j → R i j (.sql text) (.sql text)
  verbatim : ∀ text, R 0 0 (.verbatim text) (.verbatim text)
  ident : ∀ name, R 0 0 (.ident name) (.ident name)
  literal : ∀ l l', Z l l' → R 0 0 (l.emit s) (l'.emit s')
  param : ∀ name v v', Option.Rel Z v v' → R 0 0 (emitParam s name v) (emitParam s' name v')
  fail : ∀ i j f, R i j (.fail f) (.fail f)
  /-- The fault that names an expression names agreeing ones. -/
  failNotLiteral : ∀ i j e e', e.Agree Z e' →
    R i j (.fail (.valueNotLiteral e)) (.fail (.valueNotLiteral e'))
  append : ∀ {i j k a a' b b'}, R i j a a' → R j k b b' → R i k (a ++ b) (a' ++ b')
  /-- What holds outside parentheses holds inside them. -/
  lift : ∀ {i j a a'}, R i j a a' → R (i + 1) (j + 1) a a'
  /-- An ordering by aliases may come before what is made of a query. -/
  aliased : s.dialect = .oracle → ∀ {q q' : QueryParts} {p p' : Probe}
    {f f' : QueryParts → Emission}, q.Agree Z R q' → (s.paramStyle ≠ .inline → p.Agree R p') →
    (∀ t t', t.Agree Z R t' → R 1 1 (f t) (f' t')) →
    R 1 1 ((q.orderedByAlias p).bind f) ((q'.orderedByAlias p').bind f')

section Numbers

/-- A character of a number as it is written. -/
def isNumeric (c : Char) : Bool :=
  c.isDigit || c == '-' || c == '+' || c == '.' || c == 'e'

/-- A number has no parentheses and commas, and is no word. -/
theorem fits_of_numeric {text : String} (h : ∀ c ∈ text.toList, isNumeric c = true) (i : Nat) :
    Fits text i i := by
  have hnest : ∀ cs : List Char, (∀ c ∈ cs, isNumeric c = true) →
      cs.foldl nest (some i) = some i := by
    intro cs hcs
    induction cs with
    | nil => rfl
    | cons c cs ih =>
      have hopen : c ≠ '(' := by
        rintro rfl
        exact absurd (hcs _ List.mem_cons_self) (by decide)
      have hclose : c ≠ ')' := by
        rintro rfl
        exact absurd (hcs _ List.mem_cons_self) (by decide)
      have hcomma : c ≠ ',' := by
        rintro rfl
        exact absurd (hcs _ List.mem_cons_self) (by decide)
      rw [List.foldl_cons, nest, if_neg hopen, if_neg hclose, if_neg hcomma]
      exact ih fun d hd => hcs d (List.mem_cons_of_mem c hd)
  -- No word of a clause is a number, so a number is none of them.
  have hwords : clauseTexts.all (fun word => !word.toList.all isNumeric) = true := by decide
  refine ⟨hnest _ h, fun _ hmem => ?_⟩
  have hnot := List.all_eq_true.mp hwords text hmem
  rw [List.all_eq_true.mpr h] at hnot
  cases hnot

/-- The digits of a number are characters of it. -/
theorem numeric_toDigits (n : Nat) : ∀ c ∈ Nat.toDigits 10 n, isNumeric c = true := by
  intro c hc
  have hdigit : c.isDigit = true := Nat.isDigit_of_mem_toDigits (by decide) (by decide) hc
  rw [isNumeric, hdigit]
  rfl

/-- A number that is not negative is written in digits. -/
theorem toList_ofNat (n : Nat) : (toString (Int.ofNat n)).toList = Nat.toDigits 10 n := by
  rw [← Nat.toList_repr]
  rfl

/-- A negative number is written as a sign and digits. -/
theorem toList_negSucc (n : Nat) :
    (toString (Int.negSucc n)).toList = '-' :: Nat.toDigits 10 (n + 1) := by
  rw [← Nat.toList_repr]
  exact String.toList_append

/-- An integer is written in digits, with a sign if it is negative. -/
theorem numeric_toString (z : Int) : ∀ c ∈ (toString z).toList, isNumeric c = true := by
  cases z with
  | ofNat n =>
    rw [toList_ofNat]
    exact numeric_toDigits n
  | negSucc n =>
    rw [toList_negSucc]
    exact List.forall_mem_cons.mpr ⟨rfl, numeric_toDigits (n + 1)⟩

end Numbers

section Lists

variable {α β : Type} {r : α → β → Prop}

/-- Lists whose items correspond are both empty or both not. -/
theorem isEmpty_eq_of_forall₂ {xs : List α} {ys : List β} (h : List.Forall₂ r xs ys) :
    ys.isEmpty = xs.isEmpty := by
  cases h with
  | nil => rfl
  | cons _ _ => rfl

/-- Related options are both present or both absent. -/
theorem isSome_eq_of_rel {x : Option α} {y : Option β} (h : Option.Rel r x y) :
    y.isSome = x.isSome := by
  cases h with
  | none => rfl
  | some _ => rfl

/-- Related lists are cut into related parts. -/
theorem chunksUpTo_related (size fuel : Nat) {xs : List α} {ys : List β}
    (h : List.Forall₂ r xs ys) :
    List.Forall₂ (List.Forall₂ r) (InValues.chunksUpTo size fuel xs)
      (InValues.chunksUpTo size fuel ys) := by
  induction fuel generalizing xs ys with
  | zero => exact .nil
  | succ fuel ih =>
    cases h with
    | nil => exact .nil
    | cons hx hxs =>
      -- Both lists are cut at the same place.
      have h := List.Forall₂.cons hx hxs
      exact .cons (List.forall₂_take size h) (ih (List.forall₂_drop size h))

/-- Related lists are split into related parts. -/
theorem chunks_related (size : Nat) {xs : List α} {ys : List β} (h : List.Forall₂ r xs ys) :
    List.Forall₂ (List.Forall₂ r) (InValues.chunks size xs) (InValues.chunks size ys) := by
  unfold InValues.chunks
  rw [h.length_eq]
  exact chunksUpTo_related size _ h

end Lists

/-- The literals of agreeing value lists are related, or both lists hold something else. -/
theorem InValues.literals_agree {Z : Literal → Literal → Prop} {es es' : List Expr}
    (h : List.Forall₂ (Expr.Agree Z) es es') :
    (∃ ls ls', literals es = .ok ls ∧ literals es' = .ok ls' ∧ List.Forall₂ Z ls ls') ∨
    ∃ e e', e.Agree Z e' ∧ literals es = .error (.valueNotLiteral e) ∧
      literals es' = .error (.valueNotLiteral e') := by
  induction h with
  | nil => exact .inl ⟨[], [], rfl, rfl, .nil⟩
  | cons he hes ih =>
    have hagree := he
    cases he with
    | literal hl =>
      -- Both begin with a literal, so the rest of the lists decides.
      obtain ⟨ls, ls', hls, hls', hz⟩ | ⟨e, e', he, hls, hls'⟩ := ih
      · refine .inl ⟨_ :: ls, _ :: ls', ?_, ?_, .cons hl hz⟩
        · rw [literals, hls]
          rfl
        · rw [literals, hls']
          rfl
      · refine .inr ⟨e, e', he, ?_, ?_⟩
        · rw [literals, hls]
          rfl
        · rw [literals, hls']
          rfl
    -- Both begin with something else, which is what they are refused for.
    | _ => exact .inr ⟨_, _, hagree, rfl, rfl⟩

/-- A note before a computation is a note before its emission. -/
theorem Traced.note_bind (n : Note) (e : Emission) :
    ((Traced.note n).bind fun _ => e) = Emission.note n ++ e := by
  obtain ⟨notes, f | ps⟩ := e
  · rfl
  · simp [Emission.append_eq_bind, Emission.note, Traced.note, Traced.bind, Traced.ok]

namespace GrammarLaw

variable {Z : Literal → Literal → Prop} {s s' : Settings}
  {R : Nat → Nat → Emission → Emission → Prop}

/-- Agreeing expressions bind alike. -/
theorem strength_eq (law : GrammarLaw Z s s' R) {e e' : Expr} (h : e.Agree Z e') :
    e'.strength = e.strength := by
  cases h with
  | literal hl => exact law.strength _ _ hl
  | _ => rfl

/-! ## Lists and operands -/

/-- What an expression satisfies outside parentheses it satisfies inside a pair of them. -/
theorem inside (law : GrammarLaw Z s s' R) {a a' : Emission} (h : R 0 0 a a') : R 1 1 a a' :=
  law.lift h

/-- Parentheses stand around what is related inside them. -/
theorem inParens (law : GrammarLaw Z s s' R) {a a' : Emission} (h : R 1 1 a a') :
    R 0 0 (.parens a) (.parens a') :=
  law.append (law.append (law.sql "(" 0 1 (by decide)) h) (law.sql ")" 1 0 (by decide))

/-- Lists of related items are related inside parentheses, where their separator may stand. -/
theorem join (law : GrammarLaw Z s s' R) {separator : String} (hsep : Fits separator 1 1)
    {es es' : List Emission} (h : List.Forall₂ (R 1 1) es es') :
    R 1 1 (.join separator es) (.join separator es') := by
  induction h with
  | nil => exact law.inside law.empty
  | cons he hes ih =>
    -- A separator stands only before a further item.
    cases hes with
    | nil => exact he
    | cons _ _ => exact law.append he (law.append (law.sql separator 1 1 hsep) ih)

/-- Items that are related outside parentheses are related inside them, one by one. -/
theorem liftEach (law : GrammarLaw Z s s' R) {es es' : List Emission}
    (h : List.Forall₂ (R 0 0) es es') : List.Forall₂ (R 1 1) es es' :=
  h.imp fun _ _ => law.inside

/-- Clauses of related items are related. -/
theorem clause (law : GrammarLaw Z s s' R) {word separator : String} (hword : Fits word 1 1)
    (hsep : Fits separator 1 1) {es es' : List Emission} (h : List.Forall₂ (R 0 0) es es') :
    R 1 1 (.clause word separator es) (.clause word separator es') := by
  unfold Emission.clause
  rw [isEmpty_eq_of_forall₂ h]
  split
  · exact law.inside law.empty
  · exact law.append (law.sql word 1 1 hword) (law.join hsep (law.liftEach h))

/-- Operands that agree stand in parentheses on both sides or on neither. -/
theorem operand (law : GrammarLaw Z s s' R) {r r' : Rendered} (h : r.Agree Z R r') (side : Side)
    (strength : Nat) (associativity : Associativity) :
    R 0 0 (r.operand side strength associativity) (r'.operand side strength associativity) := by
  unfold Rendered.operand
  -- Agreeing expressions bind alike, so the same test decides on the parentheses.
  rw [law.strength_eq h.expr]
  split
  · exact law.inParens (law.inside h.emission)
  · exact h.emission

/-- Conditions that correspond have related conjunctions. -/
theorem conjunction (law : GrammarLaw Z s s' R) {rs rs' : List Rendered}
    (h : List.Forall₂ (Rendered.Agree Z R) rs rs') :
    R 1 1 (SqlCompiler.conjunction rs) (SqlCompiler.conjunction rs') := by
  have hmany : R 1 1
      (.join " AND " (rs.map fun r => r.operand .left BinaryOp.and.strength .both))
      (.join " AND " (rs'.map fun r => r.operand .left BinaryOp.and.strength .both)) := by
    refine law.join (by decide) ?_
    rw [List.forall₂_map_left_iff, List.forall₂_map_right_iff]
    exact h.imp fun _ _ hr => law.inside (law.operand hr _ _ _)
  -- One condition alone is written as it is.
  cases h with
  | nil => exact hmany
  | cons hr hrs =>
    cases hrs with
    | nil => exact law.inside hr.emission
    | cons _ _ => exact hmany

/-- Conditions that correspond are related after their word. -/
theorem conditions (law : GrammarLaw Z s s' R) {word : String} (hword : Fits word 1 1)
    {rs rs' : List Rendered} (h : List.Forall₂ (Rendered.Agree Z R) rs rs') :
    R 1 1 (SqlCompiler.conditions word rs) (SqlCompiler.conditions word rs') := by
  unfold SqlCompiler.conditions
  rw [isEmpty_eq_of_forall₂ h]
  split
  · exact law.inside law.empty
  · exact law.append (law.sql word 1 1 hword) (law.conjunction h)

/-! ## Queries -/

/-- Cores with related parts are related. -/
theorem core (law : GrammarLaw Z s s' R) {c c' : CoreParts} (h : c.Agree Z R c') :
    R 1 1 c.emit c'.emit := by
  have hselect : R 1 1 (.sql (if c.distinct then "SELECT DISTINCT " else "SELECT "))
      (.sql (if c'.distinct then "SELECT DISTINCT " else "SELECT ")) := by
    rw [h.distinct]
    split
    · exact law.sql _ _ _ (by decide)
    · exact law.sql _ _ _ (by decide)
  have hlist : R 1 1 (if c.projections.isEmpty then .sql "*" else .join ", " c.projections)
      (if c'.projections.isEmpty then .sql "*" else .join ", " c'.projections) := by
    rw [isEmpty_eq_of_forall₂ h.projections]
    split
    · exact law.sql _ _ _ (by decide)
    · exact law.join (by decide) (law.liftEach h.projections)
  refine law.append (law.append (law.append (law.append (law.append hselect hlist) ?_)
    (law.conditions (by decide) h.wheres)) (law.clause (by decide) (by decide) h.groups))
    (law.conditions (by decide) h.havings)
  -- A query without a source has no clause for it.
  have hsource := h.source
  generalize c.source = x at hsource ⊢
  generalize c'.source = x' at hsource ⊢
  cases hsource with
  | none => exact law.inside law.empty
  | some hsource => exact law.append (law.sql " FROM " 1 1 (by decide)) (law.inside hsource)

/-- The same set operator is related to itself. -/
theorem setOperator (law : GrammarLaw Z s s' R) (op : SetOperator) :
    R 1 1 (op.emit s) (op.emit s') := by
  unfold SetOperator.emit
  -- Two operators are refused for Oracle, one has another word there, and the rest is common.
  rw [law.dialect]
  split
  · exact law.fail _ _ _
  · exact law.fail _ _ _
  · exact law.sql _ _ _ (by decide)
  · refine law.sql _ _ _ ?_
    cases op.kind <;> cases op.all <;> decide

/-- The cores after the first are related if their parts are. -/
theorem laterCores (law : GrammarLaw Z s s' R) {cs cs' : List CoreParts}
    (h : List.Forall₂ (CoreParts.Agree Z R) cs cs') (index : Nat) :
    R 1 1 (SqlCompiler.laterCores s index cs) (SqlCompiler.laterCores s' index cs') := by
  induction h generalizing index with
  | nil => exact law.inside law.empty
  | @cons c c' cs cs' hc hcs ih =>
    refine law.append ?_ (ih (index + 1))
    rw [hc.setOp]
    cases c.setOp with
    -- A later core without an operator is refused.
    | none => exact law.fail _ _ _
    | some op =>
      have hblank := law.sql " " 1 1 (by decide)
      exact law.append (law.append (law.append hblank (law.setOperator op)) hblank) (law.core hc)

/-- The cores of a query are related if their parts are, or refused alike. -/
theorem cores (law : GrammarLaw Z s s' R) {cs cs' : List CoreParts}
    (h : List.Forall₂ (CoreParts.Agree Z R) cs cs') :
    R 1 1 (emitCoreParts s cs) (emitCoreParts s' cs') := by
  cases h with
  | nil => exact law.fail _ _ _
  | @cons c c' cs cs' hc hcs =>
    refine law.append ?_ (law.laterCores hcs 1)
    rw [hc.setOp]
    cases c.setOp with
    | none => exact law.core hc
    | some op => exact law.fail _ _ _

/-- A row bound is related to an agreeing one, or both are refused. -/
theorem bound (law : GrammarLaw Z s s' R) (kind : RowBound) {x x' : Option Rendered}
    (h : Option.Rel (Rendered.Agree Z R) x x') :
    R 1 1 (emitBound? s kind x) (emitBound? s' kind x') := by
  cases h with
  | none => exact law.inside law.empty
  | some hr =>
    have he := law.inside hr.emission
    unfold emitBound? emitBound
    rw [law.capabilities, law.dialect]
    -- The target has one of two clauses for the bound, or none.
    cases s.capabilities.pagination with
    | limitOffset =>
      cases kind with
      | limit => exact law.append (law.sql _ _ _ (by decide)) he
      | offset => exact law.append (law.sql _ _ _ (by decide)) he
    | fetchFirst =>
      cases kind with
      | limit =>
        exact law.append (law.append (law.sql " FETCH FIRST " 1 1 (by decide)) he)
          (law.sql _ _ _ (by decide))
      | offset =>
        exact law.append (law.append (law.sql " OFFSET " 1 1 (by decide)) he)
          (law.sql _ _ _ (by decide))
    | rowNumber => exact law.fail _ _ _

/-- The row bounds are related, in the order that the target has them in. -/
theorem bounds (law : GrammarLaw Z s s' R) {l l' o o' : Option Rendered}
    (hl : Option.Rel (Rendered.Agree Z R) l l') (ho : Option.Rel (Rendered.Agree Z R) o o') :
    R 1 1 (emitBounds s l o) (emitBounds s' l' o') := by
  unfold emitBounds
  rw [law.capabilities]
  split
  · exact law.append (law.bound .offset ho) (law.bound .limit hl)
  · exact law.append (law.bound .limit hl) (law.bound .offset ho)

/-- Queries in standard form are related if their parts are. -/
theorem standard (law : GrammarLaw Z s s' R) {q q' : QueryParts} (h : q.Agree Z R q') :
    R 1 1 (q.standard s) (q'.standard s') := by
  refine law.append (law.append (law.append (law.cores h.cores)
    (law.clause (by decide) (by decide) h.orders)) (law.bounds h.limit h.offset)) ?_
  rw [h.lock]
  cases q.lock with
  | none => exact law.inside law.empty
  | some lock =>
    refine law.sql _ _ _ ?_
    cases lock <;> decide

/-! ## Counted rows -/

/-- Where row bounds are looked at, agreeing ones are equal. -/
theorem bound_expr_eq (law : GrammarLaw Z s s' R) (hd : s.dialect = .oracle) {r r' : Rendered}
    (h : r.Agree Z R r') : r'.expr = r.expr :=
  (Expr.eq_of_agree (law.eq_of_oracle hd) r.expr r'.expr h.expr).symm

/-- Row bounds that agree pass the same check. -/
theorem checkBound_eq (law : GrammarLaw Z s s' R) (hd : s.dialect = .oracle) (kind : RowBound)
    {x x' : Option Rendered} (h : Option.Rel (Rendered.Agree Z R) x x') :
    checkBound kind x' = checkBound kind x := by
  cases h with
  | none => rfl
  | some hr =>
    simp only [checkBound, law.bound_expr_eq hd hr]

/-- A check that both sides share may come first: they fail alike, or go on. -/
theorem ofExcept_bind {α : Type} (x : Except Fault α) {f f' : α → Emission} {i j : Nat}
    (law : GrammarLaw Z s s' R) (h : ∀ a, x = .ok a → R i j (f a) (f' a)) :
    R i j ((Traced.ofExcept x).bind f) ((Traced.ofExcept x).bind f') := by
  cases x with
  | error e => exact law.fail i j e
  | ok a =>
    have hbind : ∀ g : α → Emission, (Traced.ofExcept (.ok a)).bind g = g a :=
      fun g => Traced.ok_bind a g
    rw [hbind, hbind]
    exact h a rfl

/-- The last row numbers of agreeing bounds are related. -/
theorem lastRow (law : GrammarLaw Z s s' R) (hd : s.dialect = .oracle) {o o' l l' : Rendered}
    (ho : o.Agree Z R o') (hl : l.Agree Z R l') : R 2 2 (emitLastRow o l) (emitLastRow o' l') := by
  have hsum : R 2 2 (.parens (o.emission ++ .sql " + " ++ l.emission))
      (.parens (o'.emission ++ .sql " + " ++ l'.emission)) :=
    law.lift (law.lift (law.inParens (law.append (law.append (law.inside ho.emission)
      (law.sql " + " 1 1 (by decide))) (law.inside hl.emission))))
  unfold emitLastRow
  rw [law.bound_expr_eq hd ho, law.bound_expr_eq hd hl]
  refine law.ofExcept_bind _ fun a _ => law.ofExcept_bind _ fun b _ => ?_
  -- Only two literals are added up; any other sum is left to the database.
  match a, b with
  | some a, some b =>
    show R 2 2 (ite _ _ _) (ite _ _ _)
    split
    · exact law.sql _ _ _ (fits_of_numeric (numeric_toString _) 2)
    · exact law.fail _ _ _
  | none, b => exact hsum
  | some a, none => exact hsum

/-- Queries around related ones are related. -/
theorem wrapped (law : GrammarLaw Z s s' R) (hd : s.dialect = .oracle) {q q' : QueryParts}
    (h : q.Agree Z R q') : R 1 1 (q.wrapped s) (q'.wrapped s') := by
  have hinner : R 1 1 (q.unbounded.standard s) (q'.unbounded.standard s') :=
    law.standard { cores := h.cores, orders := h.orders, limit := .none, offset := .none,
                   lock := h.lock }
  obtain ⟨cores, orders, limit, offset, lock⟩ := q
  obtain ⟨cores', orders', limit', offset', lock'⟩ := q'
  have hl : Option.Rel (Rendered.Agree Z R) limit limit' := h.limit
  have ho : Option.Rel (Rendered.Agree Z R) offset offset' := h.offset
  -- One form for each combination of bounds, with the inner query two or three parentheses deep.
  cases hl with
  | none =>
    cases ho with
    | none => exact law.standard h
    | some ho =>
      exact law.append (law.append (law.append (law.append (law.inside (law.note _))
        (law.sql _ 1 3 (by decide))) (law.lift (law.lift hinner))) (law.sql _ 3 1 (by decide)))
        (law.inside ho.emission)
  | some hl =>
    cases ho with
    | none =>
      exact law.append (law.append (law.append (law.append (law.inside (law.note _))
        (law.sql _ 1 2 (by decide))) (law.lift hinner)) (law.sql _ 2 1 (by decide)))
        (law.inside hl.emission)
    | some ho =>
      exact law.append (law.append (law.append (law.append (law.append (law.append
        (law.inside (law.note _)) (law.sql _ 1 3 (by decide))) (law.lift (law.lift hinner)))
        (law.sql _ 3 2 (by decide))) (law.lastRow hd ho hl)) (law.sql _ 2 1 (by decide)))
        (law.inside ho.emission)

/-- With the limit as a condition the parts of related queries stay related. -/
theorem pushed (law : GrammarLaw Z s s' R) {q q' : QueryParts} (h : q.Agree Z R q')
    {l l' : Rendered} (hl : l.Agree Z R l') : (q.pushLimit l).Agree Z R (q'.pushLimit l') := by
  -- The bound on the row number is the same comparison on both sides.
  have hcondition : (rowNumberAtMost l).Agree Z R (rowNumberAtMost l') :=
    { expr := .binary .ltEq (.raw "ROWNUM") hl.expr
      emission := law.append (law.append (law.verbatim "ROWNUM")
        (law.sql " <= " 0 0 (by decide))) (law.operand hl _ _ _) }
  refine { cores := ?_, orders := h.orders, limit := .none, offset := h.offset, lock := h.lock }
  show List.Forall₂ _ (q.cores.map _) (q'.cores.map _)
  rw [List.forall₂_map_left_iff, List.forall₂_map_right_iff]
  refine h.cores.imp fun c c' hc => ?_
  exact { hc with wheres := List.rel_append hc.wheres (.cons hcondition .nil) }

/-- A limit can become a condition in both of two related queries or in neither. -/
theorem canPushLimit_eq {q q' : QueryParts} (h : q.Agree Z R q') :
    q'.canPushLimit = q.canPushLimit := by
  have horders := isEmpty_eq_of_forall₂ h.orders
  have hcores := h.cores
  unfold QueryParts.canPushLimit
  rw [horders]
  generalize q.cores = cs at hcores ⊢
  generalize q'.cores = cs' at hcores ⊢
  cases hcores with
  | nil => rfl
  | cons hc hcs =>
    cases hcs with
    | nil =>
      simp only [isEmpty_eq_of_forall₂ hc.groups, isEmpty_eq_of_forall₂ hc.havings, hc.distinct]
    | cons _ _ => rfl

/-- Queries whose rows are counted are related if their parts are. -/
theorem byRowNumber (law : GrammarLaw Z s s' R) (hd : s.dialect = .oracle) {q q' : QueryParts}
    (h : q.Agree Z R q') : R 1 1 (q.byRowNumber s) (q'.byRowNumber s') := by
  have hwrapped : R 1 1
      (if q.lock.isSome then .fail (.lockedEmulation s.dialect) else q.wrapped s)
      (if q'.lock.isSome then .fail (.lockedEmulation s'.dialect) else q'.wrapped s') := by
    rw [h.lock, law.dialect]
    split
    · exact law.fail _ _ _
    · exact law.wrapped hd h
  unfold QueryParts.byRowNumber
  rw [law.checkBound_eq hd .limit h.limit, law.checkBound_eq hd .offset h.offset]
  refine law.ofExcept_bind _ fun _ _ => law.ofExcept_bind _ fun _ _ => ?_
  have hpush := canPushLimit_eq h
  have hstandard := law.standard h
  have hpushed : ∀ l l' : Rendered, l.Agree Z R l' →
      R 1 1 ((q.pushLimit l).standard s) ((q'.pushLimit l').standard s') :=
    fun _ _ hl => law.standard (law.pushed h hl)
  obtain ⟨cores, orders, limit, offset, lock⟩ := q
  obtain ⟨cores', orders', limit', offset', lock'⟩ := q'
  have hl : Option.Rel (Rendered.Agree Z R) limit limit' := h.limit
  have ho : Option.Rel (Rendered.Agree Z R) offset offset' := h.offset
  -- Which form is taken depends on the bounds that are there, which is the same for both.
  cases hl with
  | none =>
    cases ho with
    | none => exact hstandard
    | some ho => exact hwrapped
  | some hl =>
    cases ho with
    | some ho => exact hwrapped
    | none =>
      -- Only here the limit may become a condition.
      show R 1 1 (ite _ _ _) (ite _ _ _)
      rw [hpush]
      split
      · exact law.append (law.inside (law.note _)) (hpushed _ _ hl)
      · exact hwrapped

/-- Queries for Oracle are related if their parts are, whatever clause it has for row bounds. -/
theorem oracle (law : GrammarLaw Z s s' R) (hd : s.dialect = .oracle) {q q' : QueryParts}
    (h : q.Agree Z R q') : R 1 1 (q.oracle s) (q'.oracle s') := by
  unfold QueryParts.oracle
  rw [law.capabilities, law.dialect]
  cases s.capabilities.pagination with
  | rowNumber => exact law.byRowNumber hd h
  | limitOffset => exact law.standard h
  | fetchFirst =>
    simp only [isSome_eq_of_rel h.limit, isSome_eq_of_rel h.offset, h.lock]
    split
    · exact law.fail _ _ _
    · exact law.standard h

end GrammarLaw

end SqlCompiler
