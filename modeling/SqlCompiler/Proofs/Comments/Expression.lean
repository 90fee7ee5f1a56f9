import SqlCompiler.Proofs.Comments.Emission

/-!
# Comments in expressions

A minus that stands before a text that begins with one opens a comment. A negation puts its operand
in parentheses if the operand is a negation or a negative literal; what binds strongest is written
bare, also where its text begins with a minus (`Expr.doublesMinus`). Nothing else that an expression
writes around its parts opens a comment (`Expr.scans_emit`).
-/

namespace SqlCompiler

/-- A name that holds nothing but words, blanks and parentheses. -/
def isPlainName (name : String) : Bool :=
  name.toList.all fun c => Text.isWord c || c == ' ' || c == '(' || c == ')'

/-- An expression brings no text of the caller, apart from plain names. -/
def Expr.isPlain : Expr → Bool
  | .raw _ => false
  | .function name _ _ => isPlainName name
  | .cast _ dataType => isPlainName dataType
  | _ => true

/-- A node brings no text of the caller, apart from plain names. -/
def Node.isPlain : Node → Bool
  | .expr e => e.isPlain
  | .query _ => true

/-- A plain name has inert characters only. -/
theorem inert_of_isPlainName {name : String} (h : isPlainName name = true) :
    ∀ c ∈ name.toList, isInert c = true := by
  intro c hc
  have hplain := List.all_eq_true.mp h c hc
  simp only [Bool.or_eq_true, beq_iff_eq] at hplain
  obtain ((hword | rfl) | rfl) | rfl := hplain
  · exact inert_of_class (by decide +kernel) hword
  all_goals rfl

/-! ## Expressions that begin with a minus -/

/-- A list of values is split into several. -/
def Settings.splits (s : Settings) (length : Nat) : Bool :=
  s.capabilities.maxInList.any (· < length)

/-- The text of an expression begins with a minus: that of a negative number or a negation, or of
what stands first in it without parentheses. -/
def Expr.leads (s : Settings) : Expr → Bool
  | .literal l => l.isNegative
  | .param _ value => s.paramStyle = .inline && value.any Literal.isNegative
  | .unary .neg _ => true
  | .binary left op _ =>
    !needsParens left.strength op.strength .left op.associativity && left.leads s
  | .isNull operand _ => !needsParens operand.strength isStrength .left .left && operand.leads s
  | .isDistinctFrom left _ _ =>
    s.dialect = .generic && !needsParens left.strength isStrength .left .left && left.leads s
  | .between operand _ _ _ | .inSubquery operand _ _ =>
    !needsParens operand.strength membershipStrength .left .left && operand.leads s
  | .inList operand list _ =>
    !list.isEmpty && !needsParens operand.strength membershipStrength .left .left
      && operand.leads s
  | .inValues operand values negated =>
    !(values.isEmpty && negated) && !s.splits values.length
      && !needsParens operand.strength membershipStrength .left .left && operand.leads s
  | .window f _ _ => f.leads s
  | .named inner _ => inner.leads s
  | _ => false

/-- An expression writes a minus before a text that begins with one. -/
def Expr.doublesMinus (s : Settings) : Expr → Bool
  | .unary .neg operand =>
    !needsParens operand.strength UnaryOp.neg.strength .right UnaryOp.neg.associativity
      && operand.leads s
  | _ => false

/-- A node writes a minus before a text that begins with one. -/
def Node.doublesMinus (s : Settings) : Node → Bool
  | .expr e => e.doublesMinus s
  | .query _ => false

section Expressions

variable {s : Settings}

/-- How an operand begins. -/
theorem Expr.begins_operand {e : Expr} (h : Begins s (e.emit s) (e.leads s = true)) (side : Side)
    (strength : Nat) (a : Associativity) :
    Begins s (Rendered.operand ⟨e, e.emit s⟩ side strength a)
      ((!needsParens e.strength strength side a && e.leads s) = true) :=
  (Begins.operand (r := ⟨e, e.emit s⟩) h side strength a).congr (by simp)

/-- How a membership test begins: with its operand, unless it needs none or is in parentheses. -/
theorem Begins.inLiterals {operand : Emission} {P : Prop} {negated : Bool} {values : List Literal}
    (h : (values.isEmpty && negated) = false → Begins s operand P) :
    Begins s (InValues.emit s operand negated values)
      ((!(values.isEmpty && negated) && !s.splits values.length) = true ∧ P) := by
  unfold InValues.emit
  -- A negated test of no literals is a constant, and a list that is split stands in parentheses.
  split
  · next hempty =>
    cases negated with
    | true => exact (sql (P := False) (by decide)).congr (by simp [hempty])
    | false =>
      have hnone : s.splits values.length = false := by
        rw [List.isEmpty_iff.mp hempty, Settings.splits]
        cases s.capabilities.maxInList <;> simp
      exact ((h (by simp)).append _).congr (by simp [hnone])
  · next hvalues =>
    have hsingle : ∀ part, Begins s (InValues.single s operand negated part) P := fun part =>
      (((h (by simp [hvalues])).append _).append _).append _
    split
    · next max hmax =>
      split
      · next hlt =>
        refine Writes.of_outcome_eq (Emission.outcome_note_append _ _) ?_
        exact (parens _).congr (by simp [Settings.splits, hmax, hlt])
      · next hlt => exact (hsingle values).congr (by simp [Settings.splits, hmax, hlt, hvalues])
    · next hmax => exact (hsingle values).congr (by simp [Settings.splits, hmax, hvalues])

/-- A parameter begins with a minus only where it is written as a negative literal. -/
theorem Begins.param (name : String) (value : Option Literal) :
    Begins s (emitParam s name value)
      ((s.paramStyle = .inline && value.any Literal.isNegative) = true) := by
  unfold emitParam
  -- Inline the literal decides; a placeholder begins with its sign.
  split
  · next h =>
    cases value with
    | none => exact fail _
    | some l => exact (literal l).congr (by simp [h])
  · next h =>
    refine Writes.piece fun position => ?_
    have hne : (s.paramStyle.marker position).toList ≠ [] := by
      cases s.paramStyle <;> simp [ParamStyle.marker]
    obtain ⟨hne, hhead⟩ := begun_of_inert (inert_marker s.paramStyle position) hne
    exact ⟨hne, hhead.trans (by simp [h])⟩

/-- A plain name before a text, be it empty or not, does not begin with a minus. -/
theorem Begins.name {name : String} (hname : isPlainName name = true) {e : Emission}
    (he : Begins s e False) : Begins s (.verbatim name ++ e) False := by
  have hinert : Writes s (.verbatim name) fun cs => ∀ c ∈ cs, isInert c = true :=
    Writes.piece fun _ => inert_of_isPlainName hname
  refine Writes.append (fun cs ds hcs hds => ?_) hinert he
  cases cs with
  | nil => exact hds
  | cons c cs => exact ⟨List.cons_ne_nil _ _, (begun_of_inert hcs (List.cons_ne_nil c cs)).2⟩

/-- How the text of an expression begins. -/
theorem Expr.begins_emit : (e : Expr) → (∀ n, (Node.expr e).Visits n → n.isPlain = true) →
    Begins s (e.emit s) (e.leads s = true)
  | .column none name, _ => by
    rw [Expr.emit, qualifier, Emission.empty_append]
    exact (Begins.ident name).congr (by simp [leads])
  | .column (some relation) name, _ =>
    (((Begins.ident relation).append _).append _).congr (by simp [leads])
  | .star none, _ => by
    rw [Expr.emit, qualifier, Emission.empty_append]
    exact (Begins.sql (P := False) (by decide)).congr (by simp [leads])
  | .star (some relation), _ =>
    (((Begins.ident relation).append _).append _).congr (by simp [leads])
  | .literal l, _ => by
    rw [Expr.emit, leads]
    exact .literal l
  | .param name value, _ => by
    rw [Expr.emit, leads]
    exact .param name value
  | .raw text, h => absurd (h _ .refl) Bool.false_ne_true
  | .binary left op right, h => by
    have hleft := left.begins_emit fun n hn => h n (.head (by simp [Node.children, children]) hn)
    rw [Expr.emit]
    exact ((begins_operand hleft _ _ _).append _).append _
  -- The one expression that writes a minus in front of something.
  | .unary .neg operand, _ => by
    rw [Expr.emit]
    exact (Begins.sql (P := True) (by decide)).append _ |>.congr (by simp [leads])
  | .unary .not operand, _ =>
    ((Begins.sql (P := False) (by decide)).append _).congr (by simp [leads])
  | .isNull operand negated, h => by
    have hoperand := operand.begins_emit fun n hn =>
      h n (.head (by simp [Node.children, children]) hn)
    rw [Expr.emit, leads]
    exact (begins_operand hoperand _ _ _).append _
  | .isDistinctFrom left right negated, h => by
    have hleft := left.begins_emit fun n hn => h n (.head (by simp [Node.children, children]) hn)
    rw [Expr.emit, leads, emitDistinctFrom]
    -- For Oracle the comparison is wrapped in a call.
    cases hd : s.dialect with
    | generic => exact (((begins_operand hleft _ _ _).append _).append _).congr (by simp)
    | oracle =>
      exact (((((Begins.sql (P := False) (by decide)).append _).append _).append _).append _).congr
        (by simp)
  | .between operand low high negated, h => by
    have hoperand := operand.begins_emit fun n hn =>
      h n (.head (by simp [Node.children, children]) hn)
    rw [Expr.emit, leads]
    exact ((((begins_operand hoperand _ _ _).append _).append _).append _).append _
  -- A test of an empty list is a constant and does not begin with its operand.
  | .inList operand list negated, h => by
    rw [Expr.emit, leads]
    split
    · next hempty =>
      cases negated <;> exact (Begins.sql (P := False) (by decide)).congr (by simp [hempty])
    · next hlist =>
      have hoperand := operand.begins_emit fun n hn =>
        h n (.head (by simp [Node.children, children, hlist]) hn)
      exact ((((begins_operand hoperand _ _ _).append _).append _).append _).congr
        (by simp [hlist])
  | .inValues operand values negated, h => by
    rw [Expr.emit, leads, emitInValues]
    refine Writes.bind fun literals hliterals => ?_
    obtain rfl := literals_eq_ok_iff.mp hliterals
    rw [List.isEmpty_map, List.length_map]
    have hoperand := fun hempty : (literals.isEmpty && negated) = false =>
      begins_operand (operand.begins_emit fun n hn =>
        h n (.head (by simp [Node.children, children, hempty]) hn)) .left membershipStrength .left
    exact (Begins.inLiterals hoperand).congr (by simp [and_assoc])
  | .inSubquery operand query negated, h => by
    have hoperand := operand.begins_emit fun n hn =>
      h n (.head (by simp [Node.children, children]) hn)
    rw [Expr.emit, leads]
    exact (((begins_operand hoperand _ _ _).append _).append _).append _
  | .exists query negated, _ => by
    rw [Expr.emit]
    cases negated <;>
      exact (((Begins.sql (P := False) (by decide)).append _).append _).congr (by simp [leads])
  | .function name args distinct, h => by
    have hopen : Begins s (.sql (if distinct then "(DISTINCT " else "(")) False :=
      .sql (by cases distinct <;> decide)
    have hname : isPlainName name = true := h _ .refl
    exact (((Begins.name hname hopen).append _).append _).congr (by simp [leads])
  | .window f partitionBy orderBy, h => by
    have hf := f.begins_emit fun n hn => h n (.head (by simp [Node.children, children]) hn)
    rw [Expr.emit, leads]
    exact hf.append _
  | .case operand branches default, _ => by
    rw [Expr.emit]
    split
    · exact .fail _
    · exact (((((Begins.sql (P := False) (by decide)).append _).append _).append _).append _).congr
        (by simp [leads])
  | .cast operand dataType, _ =>
    (((((Begins.sql (P := False) (by decide)).append _).append _).append _).append _).congr
      (by simp [leads])
  | .grouping inner, _ => (Begins.parens _).congr (by simp [leads])
  | .named inner name, h => by
    have hinner := inner.begins_emit fun n hn => h n (.head (by simp [Node.children, children]) hn)
    rw [Expr.emit, leads]
    exact (hinner.append _).append _
  | .subquery query, _ => (Begins.parens _).congr (by simp [leads])

/-- A minus opens a comment before a text that begins with one. -/
theorem Scans.minus {e : Emission} {P Q : Prop} (hb : Begins s e P) (he : Scans s e Q) :
    Scans s (.sql "-" ++ e) (P ∨ Q) := by
  have hminus : Writes s (.sql "-") (· = ['-']) :=
    Writes.piece fun _ => (by decide : "-".toList = ['-'])
  have hboth : Writes s e fun cs => Begun P cs ∧ Scanned s Q cs :=
    fun ps hps position => ⟨hb ps hps position, he ps hps position⟩
  refine Writes.append (fun cs ds hcs hds => ?_) hminus hboth
  obtain ⟨⟨hne, hhead⟩, hscan⟩ := hds
  obtain ⟨d, ds, rfl⟩ := List.exists_cons_of_ne_nil hne
  -- The minus opens a comment with the first character behind it, or none opens here.
  have hopens : opensComment .code (cs ++ d :: ds) = true
      ↔ P ∨ opensComment .code (d :: ds) = true := by
    rw [← hhead, hcs]
    simp [opensComment, opensWith, Zone.next]
  subst hcs
  exact
    { closed := ⟨hscan.closed.zone, fun c hc => hscan.closed.ending c (by simpa using hc)⟩
      only := fun h => (hopens.mp h).imp_right hscan.only
      opens := fun hd h => hopens.mpr (h.imp_right (hscan.opens hd)) }

/-- A comparison under which null equals null is scanned from its sides. -/
theorem Scans.distinctFrom {left right : Rendered} {P Q : Prop} (hl : Scans s left.emission P)
    (hr : Scans s right.emission Q) (negated : Bool) :
    Scans s (emitDistinctFrom s left right negated) (P ∨ Q) := by
  unfold emitDistinctFrom
  split
  · exact .append (.behind hl.operand (.negatable negated (by decide) (by decide))) hr.operand
  · exact .behind (.append (.behind (.before (.sql (by decide)) hl) (.sql (by decide))) hr)
      (.negatable negated (by decide) (by decide))

/-- The text of an expression is scanned from what it is written from. -/
theorem Expr.scans_emit {P : Node → Prop} (hliteral : ∀ l, ¬P (.expr (.literal l))) {e : Expr}
    (hplain : ∀ n, (Node.expr e).Visits n → n.isPlain = true)
    (h : ∀ c ∈ e.children, Scans s (c.emit s) (P c)) :
    Scans s (e.emit s) (e.doublesMinus s = true ∨ ∃ c ∈ e.children, P c) := by
  have hchild : ∀ e' : Expr, .expr e' ∈ e.children → Scans s (e'.emit s) (P (.expr e')) :=
    fun e' he' => h _ he'
  have hquery : ∀ q : Select, .query q ∈ e.children → Scans s (q.emit s) (P (.query q)) :=
    fun q hq => h _ hq
  cases e with
  | column relation name =>
    rw [Expr.emit]
    exact (Scans.behind (.qualifier relation) (.ident name)).congr
      (by simp [doublesMinus, children])
  | star relation =>
    rw [Expr.emit]
    exact (Scans.behind (.qualifier relation) (.sql (by decide))).congr
      (by simp [doublesMinus, children])
  | literal l => exact (Scans.literal l).congr (by simp [doublesMinus, children])
  | param name value => exact (Scans.param name value).congr (by simp [doublesMinus, children])
  | raw text => exact absurd (hplain _ .refl) Bool.false_ne_true
  | binary left op right =>
    have hop : Tidy (" " ++ op.text ++ " ").toList := by cases op <;> decide
    rw [Expr.emit]
    refine .congr (.append (.behind (.operand (hchild left ?_)) (.sql hop))
      (.operand (hchild right ?_))) ?_
    all_goals simp [doublesMinus, children]
  | unary op operand =>
    have hoperand := hchild operand (by simp [children])
    cases op with
    | neg =>
      -- The only text of the grammar that can open a comment together with what stands behind it.
      have hbegins : Begins s (operand.emit s) (operand.leads s = true) :=
        operand.begins_emit fun n hn => hplain n (.head (by simp [Node.children, children]) hn)
      rw [Expr.emit]
      refine .congr (.minus (begins_operand hbegins _ _ _) (.operand hoperand)) ?_
      simp [doublesMinus, children]
    | not =>
      rw [Expr.emit]
      refine .congr (.before (.sql (by decide)) (.operand hoperand)) ?_
      simp [doublesMinus, children]
  | isNull operand negated =>
    rw [Expr.emit]
    refine .congr (.behind (.operand (hchild operand ?_))
      (.negatable negated (by decide) (by decide))) ?_
    all_goals simp [doublesMinus, children]
  | isDistinctFrom left right negated =>
    rw [Expr.emit]
    refine .congr (.distinctFrom (hchild left ?_) (hchild right ?_) negated) ?_
    all_goals simp [doublesMinus, children]
  | between operand low high negated =>
    rw [Expr.emit]
    refine .congr (.append (.behind (.append (.behind (.operand (hchild operand ?_))
      (.negatable negated (by decide) (by decide))) (.operand (hchild low ?_)))
      (.sql (by decide))) (.operand (hchild high ?_))) ?_
    all_goals simp [doublesMinus, children, or_assoc]
  | inList operand list negated =>
    rw [Expr.emit]
    split
    · next hempty =>
      refine .congr (.negatable negated (by decide) (by decide)) ?_
      simp [doublesMinus, children, hempty]
    · next hlist =>
      rw [emitEach_eq_map]
      refine .congr (.behind (.append (.behind (.operand (hchild operand ?_))
        (.negatable negated (by decide) (by decide))) (.join (by decide) fun x hx =>
          hchild x ?_)) (.sql (by decide))) ?_
      all_goals simp_all [doublesMinus, children]
  | inValues operand values negated =>
    rw [Expr.emit, emitInValues]
    refine Scans.bind fun literals hliterals => ?_
    obtain rfl := literals_eq_ok_iff.mp hliterals
    refine .congr (.inLiterals fun hempty => .operand (hchild operand ?_)) ?_
    · simp [children, hempty]
    · -- Without an operand there are only literals below, and they double nothing.
      cases hempty : literals.isEmpty && negated <;>
        simp [doublesMinus, children, hempty, hliteral]
  | inSubquery operand query negated =>
    rw [Expr.emit]
    refine .congr (.behind (.append (.behind (.operand (hchild operand ?_))
      (.negatable negated (by decide) (by decide))) (hquery query ?_)) (.sql (by decide))) ?_
    all_goals simp [doublesMinus, children]
  | «exists» query negated =>
    rw [Expr.emit]
    refine .congr (.around (.negatable negated (by decide) (by decide)) (hquery query ?_)
      (.sql (by decide))) ?_
    all_goals simp [doublesMinus, children]
  | function name args distinct =>
    have hname := tidy_of_inert (inert_of_isPlainName (hplain _ .refl : isPlainName name = true))
    rw [Expr.emit, emitEach_eq_map]
    refine .congr (.around (.behind (.verbatim hname) (.sql ?_)) (.join (by decide) fun x hx =>
      hchild x ?_) (.sql (by decide))) ?_
    · cases distinct <;> decide
    all_goals simp_all [doublesMinus, children]
  | window f partitionBy orderBy =>
    -- A window has three kinds of parts: the call, the partition and the ordering.
    rw [Expr.emit, emitEach_eq_map, emitOrders_eq_map]
    refine .congr (.append (hchild f ?_) (.window (fun x hx => hchild x ?_)
      fun o ho => hchild o.expr ?_)) ?_
    · simp [children]
    · simp [children, hx]
    · simp only [children, List.mem_cons, List.mem_append, List.mem_map]
      exact .inr (.inr ⟨o, ho, rfl⟩)
    · simp [doublesMinus, children, or_and_right, exists_or]
  | case operand branches default =>
    -- A case distinction without branches is refused.
    rw [Expr.emit]
    split
    · exact .fail _
    · rw [emitOption_eq_map, emitOption_eq_map]
      refine .congr (.behind (.append (.append (.before (.sql (by decide)) (.after (by decide)
        fun x hx => hchild x ?_))
        (.branches fun b hb => ⟨hchild b.condition ?_, hchild b.value ?_⟩))
        (.after (by decide) fun x hx => hchild x ?_)) (.sql (by decide))) ?_
      · simp [children, Option.mem_def.mp hx]
      · simp only [children, List.mem_append, List.mem_flatMap]
        exact .inl (.inr ⟨b, hb, by simp⟩)
      · simp only [children, List.mem_append, List.mem_flatMap]
        exact .inl (.inr ⟨b, hb, by simp⟩)
      · simp [children, Option.mem_def.mp hx]
      · have hbranches : (∃ c ∈ branches.flatMap fun b => [.expr b.condition, .expr b.value], P c)
            ↔ ∃ b ∈ branches, P (.expr b.condition) ∨ P (.expr b.value) := by
          simp only [List.mem_flatMap, List.mem_cons, List.not_mem_nil, or_false]
          grind
        simp only [doublesMinus, children, List.mem_append, or_and_right, exists_or, hbranches]
        simp
  | cast operand dataType =>
    have htype := tidy_of_inert
      (inert_of_isPlainName (hplain _ .refl : isPlainName dataType = true))
    rw [Expr.emit]
    refine .congr (.behind (.behind (.around (.sql (by decide)) (hchild operand ?_)
      (.sql (by decide))) (.verbatim htype)) (.sql (by decide))) ?_
    all_goals simp [doublesMinus, children]
  | grouping inner =>
    rw [Expr.emit]
    refine .congr (.parens (hchild inner ?_)) ?_
    all_goals simp [doublesMinus, children]
  | named inner name =>
    rw [Expr.emit]
    refine .congr (.behind (.behind (hchild inner ?_) (.sql (by decide))) (.ident name)) ?_
    all_goals simp [doublesMinus, children]
  | subquery query =>
    rw [Expr.emit]
    refine .congr (.parens (hquery query ?_)) ?_
    all_goals simp [doublesMinus, children]

end Expressions

end SqlCompiler
