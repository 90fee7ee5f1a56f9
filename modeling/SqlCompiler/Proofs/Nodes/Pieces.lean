import Mathlib
import SqlCompiler.Proofs.Brackets.Nesting
import SqlCompiler.Proofs.Comments.Scan
import SqlCompiler.Proofs.Nodes.Visits

/-!
# Where pieces come from

A node writes names, strings and texts of the caller of its own (`Node.ownPieces`), and all other
pieces between its children's are fixed texts of the grammar, which hold no quotes and whose
parentheses match. Only two kinds of pieces come from no node: the row number that a limit is
compared with, and the aliases that an ordering may be put in terms of. So what holds of such pieces
and of the own pieces of every visited node, and is kept when pieces are put one after the other,
holds of all that is written (`Node.keeps_emit`).
-/

namespace SqlCompiler

/-! ## Laws of pieces -/

/-- The text has no quotes. -/
def IsUnquoted (text : String) : Prop :=
  '\'' ∉ text.toList ∧ '"' ∉ text.toList

/-- A text without quotes leads from depth `i` to depth `j`, whatever its commas. -/
def Bridges (text : String) (i j : Nat) : Prop :=
  IsUnquoted text ∧ (text.toList.filter (· ≠ ',')).foldl nest (some i) = some j

instance (text : String) (i j : Nat) : Decidable (Bridges text i j) :=
  inferInstanceAs (Decidable ((_ ∧ _) ∧ _))

/-- A character of the row number and of aliases. -/
def isAliasChar (c : Char) : Bool :=
  c.isAlphanum || c == '_' || c == ' '

/-- A property of lists of pieces that begin inside `i` parentheses and end inside `j`. It holds of
the pieces that come from no node, and of lists put one after the other. -/
structure NodeLaw (P : Nat → Nat → List Piece → Prop) : Prop where
  nil : P 0 0 []
  sql : ∀ text i j, Bridges text i j → P i j [.sql text]
  verbatim : ∀ text : String, (∀ c ∈ text.toList, isAliasChar c = true) → P 0 0 [.verbatim text]
  append : ∀ {i j k ps qs}, P i j ps → P j k qs → P i k (ps ++ qs)
  lift : ∀ {i j ps}, P i j ps → P (i + 1) (j + 1) ps

/-- What holds of each piece by itself. -/
theorem nodeLaw_each {T : Piece → Prop} (hsql : ∀ text, IsUnquoted text → T (.sql text))
    (hverbatim : ∀ text : String, (∀ c ∈ text.toList, isAliasChar c = true) → T (.verbatim text)) :
    NodeLaw fun _ _ ps => ∀ p ∈ ps, T p where
  nil := List.forall_mem_nil T
  sql text _ _ h := List.forall_mem_singleton.mpr (hsql text h.1)
  verbatim text h := List.forall_mem_singleton.mpr (hverbatim text h)
  append hps hqs := List.forall_mem_append.mpr ⟨hps, hqs⟩
  lift hps := hps

/-- The pieces of an emission have a property. -/
def Keeps (P : Nat → Nat → List Piece → Prop) (i j : Nat) (e : Emission) : Prop :=
  ∀ ps, e.outcome = .ok ps → P i j ps

namespace Keeps

variable {P : Nat → Nat → List Piece → Prop} {i j k : Nat}

/-- A failed emission keeps every property. -/
theorem fail (f : Fault) : Keeps P i j (.fail f) := by
  intro ps hps
  cases hps

/-- One piece keeps the property that it has. -/
theorem piece {p : Piece} (h : P i j [p]) : Keeps P i j (.piece p) := by
  intro ps hps
  obtain rfl := Except.ok.inj hps
  exact h

/-- What follows a computation keeps a property if it does for every result. -/
theorem bind {α : Type} {x : Traced α} {f : α → Emission}
    (h : ∀ a, x.outcome = .ok a → Keeps P i j (f a)) : Keeps P i j (x.bind f) := by
  intro ps hps
  obtain ⟨a, ha, hps⟩ := Traced.outcome_bind_ok hps
  exact h a ha ps hps

/-- A note changes nothing. -/
theorem note (n : Note) {e : Emission} (he : Keeps P i j e) : Keeps P i j (.note n ++ e) := by
  intro ps hps
  rw [Emission.outcome_note_append] at hps
  exact he ps hps

end Keeps

namespace NodeLaw

variable {P : Nat → Nat → List Piece → Prop} (law : NodeLaw P) {i j k : Nat}
include law

/-- No pieces keep the property. -/
theorem keeps_empty : Keeps P 0 0 .empty := by
  intro ps hps
  obtain rfl := Except.ok.inj hps
  exact law.nil

/-- A fixed text keeps the property as far as it bridges. -/
theorem keeps_sql {text : String} (h : Bridges text i j) : Keeps P i j (.sql text) :=
  .piece (law.sql text i j h)

/-- Emissions one after the other keep the property. -/
theorem keeps_append {a b : Emission} (ha : Keeps P i j a) (hb : Keeps P j k b) :
    Keeps P i k (a ++ b) := by
  intro ps hps
  obtain ⟨pa, pb, hpa, hpb, rfl⟩ := Emission.outcome_append_ok hps
  exact law.append (ha pa hpa) (hb pb hpb)

/-- What is written outside parentheses may be written inside them. -/
theorem keeps_inside {e : Emission} (he : Keeps P 0 0 e) : Keeps P 1 1 e :=
  fun ps hps => law.lift (he ps hps)

/-- What stands between a text that opens a parenthesis and one that closes it. -/
theorem keeps_between {opening closing : String} (ho : Bridges opening 0 1)
    (hc : Bridges closing 1 0) {e : Emission} (he : Keeps P 0 0 e) :
    Keeps P 0 0 (.sql opening ++ e ++ .sql closing) :=
  law.keeps_append (law.keeps_append (law.keeps_sql ho) (law.keeps_inside he)) (law.keeps_sql hc)

/-- Parentheses keep the property. -/
theorem keeps_parens {e : Emission} (he : Keeps P 0 0 e) : Keeps P 0 0 (.parens e) :=
  law.keeps_between (by decide) (by decide) he

/-- A list keeps the property if its items do. -/
theorem keeps_join {separator : String} (hsep : Bridges separator 0 0) {es : List Emission}
    (h : ∀ e ∈ es, Keeps P 0 0 e) : Keeps P 0 0 (.join separator es) := by
  induction es with
  | nil => exact law.keeps_empty
  | cons e es ih =>
    obtain ⟨he, hes⟩ := List.forall_mem_cons.mp h
    cases es with
    | nil => exact he
    | cons e' es =>
      exact law.keeps_append he (law.keeps_append (law.keeps_sql hsep) (ih hes))

/-- A list in parentheses behind an emission. -/
theorem keeps_list {e opening : Emission} (he : Keeps P 0 0 e) (ho : Keeps P 0 1 opening)
    {es : List Emission} (h : ∀ e ∈ es, Keeps P 0 0 e) :
    Keeps P 0 0 (e ++ opening ++ .join ", " es ++ .sql ")") :=
  law.keeps_append (law.keeps_append (law.keeps_append he ho)
    (law.keeps_inside (law.keeps_join (by decide) h))) (law.keeps_sql (by decide))

/-- A clause keeps the property if its items do. -/
theorem keeps_clause {word : String} (hword : Bridges word 0 0) {es : List Emission}
    (h : ∀ e ∈ es, Keeps P 0 0 e) : Keeps P 0 0 (.clause word ", " es) := by
  unfold Emission.clause
  split
  · exact law.keeps_empty
  · exact law.keeps_append (law.keeps_sql hword) (law.keeps_join (by decide) h)

/-- An operand keeps the property if its expression does. -/
theorem keeps_operand {r : Rendered} (h : Keeps P 0 0 r.emission) {side : Side} {strength : Nat}
    {a : Associativity} : Keeps P 0 0 (r.operand side strength a) := by
  unfold Rendered.operand
  split
  · exact law.keeps_parens h
  · exact h

/-- A clause of conditions keeps the property if all of them do. -/
theorem keeps_conditions {word : String} (hword : Bridges word 0 0) {rs : List Rendered}
    (h : ∀ r ∈ rs, Keeps P 0 0 r.emission) : Keeps P 0 0 (conditions word rs) := by
  unfold conditions
  -- One condition alone stands as it is; several are operands of a conjunction.
  split
  · exact law.keeps_empty
  · refine law.keeps_append (law.keeps_sql hword) ?_
    unfold conjunction
    split
    · exact h _ List.mem_cons_self
    · exact law.keeps_join (by decide)
        (List.forall_mem_map.mpr fun r hr => law.keeps_operand (h r hr))

/-- A word with its negation keeps the property if both texts bridge. -/
theorem keeps_negatable (negated : Bool) {positive negative : String} (hp : Bridges positive i j)
    (hn : Bridges negative i j) : Keeps P i j (negatable negated positive negative) := by
  cases negated
  · exact law.keeps_sql hp
  · exact law.keeps_sql hn

/-- What stands after a word keeps the property. -/
theorem keeps_after {word : String} (hword : Bridges word 0 0) {x : Option Emission}
    (h : ∀ e ∈ x, Keeps P 0 0 e) : Keeps P 0 0 (after word x) := by
  cases x with
  | none => exact law.keeps_empty
  | some e => exact law.keeps_append (law.keeps_sql hword) (h e rfl)

/-- A direction keeps the property. -/
theorem keeps_direction (d : Option SortDirection) : Keeps P 0 0 (emitDirection d) := by
  obtain _ | _ | _ := d
  · exact law.keeps_empty
  · exact law.keeps_sql (by decide)
  · exact law.keeps_sql (by decide)

/-- The name of a relation keeps the property if its piece has it. -/
theorem keeps_qualifier {relation : Option String} (h : ∀ name ∈ relation, P 0 0 [.ident name]) :
    Keeps P 0 0 (qualifier relation) := by
  cases relation with
  | none => exact law.keeps_empty
  | some name => exact law.keeps_append (.piece (h name rfl)) (law.keeps_sql (by decide))

/-- What stands in the parentheses of a window. -/
theorem keeps_windowClauses {ps os : List Emission} (hps : ∀ e ∈ ps, Keeps P 0 0 e)
    (hos : ∀ e ∈ os, Keeps P 0 0 e) :
    Keeps P 0 0 (.clause "PARTITION BY " ", " ps
      ++ (if !ps.isEmpty && !os.isEmpty then .sql " " else .empty)
      ++ .clause "ORDER BY " ", " os) := by
  have hblank : Keeps P 0 0 (if !ps.isEmpty && !os.isEmpty then .sql " " else .empty) := by
    split
    · exact law.keeps_sql (by decide)
    · exact law.keeps_empty
  exact law.keeps_append (law.keeps_append (law.keeps_clause (by decide) hps) hblank)
    (law.keeps_clause (by decide) hos)

/-- A window keeps the property if its terms do. -/
theorem keeps_window {ps os : List Emission} (hps : ∀ e ∈ ps, Keeps P 0 0 e)
    (hos : ∀ e ∈ os, Keeps P 0 0 e) : Keeps P 0 0 (emitWindow ps os) := by
  unfold emitWindow
  rw [Emission.append_assoc (.sql _), Emission.append_assoc (.sql _)]
  exact law.keeps_between (by decide) (by decide) (law.keeps_windowClauses hps hos)

/-- A comparison that counts null as a value keeps the property if its sides do. -/
theorem keeps_distinctFrom {s : Settings} {left right : Rendered} (hl : Keeps P 0 0 left.emission)
    (hr : Keeps P 0 0 right.emission) (negated : Bool) :
    Keeps P 0 0 (emitDistinctFrom s left right negated) := by
  unfold emitDistinctFrom
  -- For Oracle the sides are arguments of a call, so they stand in parentheses.
  split
  · exact law.keeps_append (law.keeps_append (law.keeps_operand hl)
      (law.keeps_negatable negated (by decide) (by decide))) (law.keeps_operand hr)
  · rw [Emission.append_assoc (.sql _), Emission.append_assoc (.sql _)]
    have hsides : Keeps P 0 0 (left.emission ++ .sql ", " ++ right.emission) :=
      law.keeps_append (law.keeps_append hl (law.keeps_sql (by decide))) hr
    cases negated
    · exact law.keeps_between (by decide) (by decide) hsides
    · exact law.keeps_between (by decide) (by decide) hsides

end NodeLaw

/-! ## Literals and parameters -/

/-- The strings that a literal is written with. -/
def Literal.ownPieces : Literal → List Piece
  | .string content => [.string content]
  | _ => []

/-- A number leads nowhere. -/
theorem bridges_of_numeric {text : String} (h : ∀ c ∈ text.toList, isNumeric c = true) :
    Bridges text 0 0 := by
  have hne : ∀ c, isNumeric c = false → c ∉ text.toList := by
    intro c hc hmem
    rw [h c hmem] at hc
    cases hc
  refine ⟨⟨hne _ (by decide), hne _ (by decide)⟩, foldl_nest_of_flat (fun c hc => ?_) 0⟩
  obtain ⟨hc, -⟩ := List.mem_filter.mp hc
  have hflat : ∀ d, isNumeric d = false → c ≠ d := by
    rintro d hd rfl
    exact hne c hd hc
  simp [isFlat, hflat '(' (by decide), hflat ')' (by decide), hflat ',' (by decide)]

/-- The parts of a list hold nothing else. -/
theorem mem_of_mem_chunksUpTo {α : Type} {size fuel : Nat} {xs part : List α} {x : α}
    (hpart : part ∈ InValues.chunksUpTo size fuel xs) (hx : x ∈ part) : x ∈ xs := by
  -- Each chunk is taken from the front of what is left.
  induction fuel generalizing xs with
  | zero => cases hpart
  | succ fuel ih =>
    cases xs with
    | nil => cases hpart
    | cons y ys =>
      rw [InValues.chunksUpTo] at hpart
      · obtain rfl | hpart := List.mem_cons.mp hpart
        · exact List.mem_of_mem_take hx
        · exact List.mem_of_mem_drop (ih hpart)
      · exact List.cons_ne_nil y ys

namespace NodeLaw

variable {P : Nat → Nat → List Piece → Prop} (law : NodeLaw P) {s : Settings}
include law

/-- A literal keeps the property if its own piece has it. -/
theorem keeps_literal {l : Literal} (h : ∀ p ∈ l.ownPieces, P 0 0 [p]) :
    Keeps P 0 0 (l.emit s) := by
  cases l with
  | null => exact law.keeps_sql (by decide)
  | boolean b =>
    refine law.keeps_sql ?_
    cases s.emulateBooleans <;> cases b <;> decide
  | integer n => exact law.keeps_sql (bridges_of_numeric (numeric_toString _))
  | float x =>
    rw [Literal.emit]
    split
    · next hx => exact law.keeps_sql (bridges_of_numeric (numeric_float _ hx))
    · exact .fail _
  | string content => exact .piece (h _ (List.mem_singleton_self _))

/-- A test for literals keeps the property if operand and literals do. -/
theorem keeps_single {operand : Emission} (hoperand : Keeps P 0 0 operand) (negated : Bool)
    {values : List Literal} (h : ∀ l ∈ values, Keeps P 0 0 (l.emit s)) :
    Keeps P 0 0 (InValues.single s operand negated values) := by
  have hvalues := List.forall_mem_map.mpr h
  cases negated
  · exact law.keeps_list hoperand (law.keeps_sql (by decide)) hvalues
  · exact law.keeps_list hoperand (law.keeps_sql (by decide)) hvalues

/-- A test for literals keeps the property, split or not. -/
theorem keeps_inLiterals {operand : Emission} (negated : Bool) {values : List Literal}
    (hoperand : (values.isEmpty && negated) = false → Keeps P 0 0 operand)
    (h : ∀ l ∈ values, Keeps P 0 0 (l.emit s)) :
    Keeps P 0 0 (InValues.emit s operand negated values) := by
  unfold InValues.emit
  -- Without literals the operand is tested against a null, and a negated test has no operand.
  split
  · cases negated with
    | true => exact law.keeps_sql (by decide)
    | false => exact law.keeps_append (hoperand (by simp)) (law.keeps_sql (by decide))
  · next hvalues =>
    have hsingle : ∀ {part}, (∀ l ∈ part, l ∈ values) →
        Keeps P 0 0 (InValues.single s operand negated part) := fun hpart =>
      law.keeps_single (hoperand (by simp [hvalues])) negated fun l hl => h l (hpart l hl)
    split
    · next max _ =>
      split
      · refine .note _ (law.keeps_parens (law.keeps_join (by cases negated <;> decide)
          (List.forall_mem_map.mpr fun part hpart => hsingle fun l hl => ?_)))
        exact mem_of_mem_chunksUpTo hpart hl
      · exact hsingle fun _ => id
    · exact hsingle fun _ => id

end NodeLaw

/-! ## Expressions -/

/-- The names, strings and texts of the caller that an expression is written with, apart from those
of its children. A parameter is written as a literal only where the style says so. -/
def Expr.ownPieces (s : Settings) : Expr → List Piece
  | .column relation name => relation.toList.map .ident ++ [.ident name]
  | .star relation => relation.toList.map .ident
  | .literal l => l.ownPieces
  | .param name value =>
    if s.paramStyle = .inline then value.toList.flatMap Literal.ownPieces
    else [.param name value]
  | .raw text => [.verbatim text]
  | .function name _ _ => [.verbatim name]
  | .cast _ dataType => [.verbatim dataType]
  | .named _ name => [.ident name]
  | _ => []

section Nodes

variable {P : Nat → Nat → List Piece → Prop} (law : NodeLaw P) {s : Settings}
include law

namespace NodeLaw

/-- A parameter keeps the property if its own piece has it. -/
theorem keeps_param {name : String} {value : Option Literal}
    (h : ∀ p ∈ (Expr.param name value).ownPieces s, P 0 0 [p]) :
    Keeps P 0 0 (emitParam s name value) := by
  rw [Expr.ownPieces] at h
  unfold emitParam
  -- Inline the literal is written, otherwise the parameter itself is a piece.
  split
  · next hs =>
    rw [if_pos hs] at h
    cases value with
    | none => exact .fail _
    | some l => exact law.keeps_literal (by simpa using h)
  · next hs =>
    rw [if_neg hs] at h
    exact .piece (h _ (List.mem_singleton_self _))

/-- Branches keep the property if their conditions and values do. -/
theorem keeps_branches {bs : List Branch}
    (h : ∀ b ∈ bs, Keeps P 0 0 (b.condition.emit s) ∧ Keeps P 0 0 (b.value.emit s)) :
    Keeps P 0 0 (emitBranches s bs) := by
  induction bs with
  | nil => exact law.keeps_empty
  | cons b bs ih =>
    obtain ⟨condition, value⟩ := b
    obtain ⟨⟨hc, hv⟩, hbs⟩ := List.forall_mem_cons.mp h
    exact law.keeps_append (law.keeps_append (law.keeps_append (law.keeps_append
      (law.keeps_sql (by decide)) hc) (law.keeps_sql (by decide))) hv) (ih hbs)

/-- An ordering term keeps the property if its expression does. -/
theorem keeps_order {o : OrderTerm} (h : Keeps P 0 0 (o.expr.emit s)) : Keeps P 0 0 (o.emit s) :=
  law.keeps_append h (law.keeps_direction o.direction)

end NodeLaw

/-- The pieces of an expression have a property if its own do and those of its children. -/
theorem Expr.keeps_emit {e : Expr} (hown : ∀ p ∈ e.ownPieces s, P 0 0 [p])
    (h : ∀ c ∈ e.children, Keeps P 0 0 (c.emit s)) : Keeps P 0 0 (e.emit s) := by
  have hchild : ∀ e' : Expr, .expr e' ∈ e.children → Keeps P 0 0 (e'.emit s) :=
    fun e' he' => h _ he'
  have hquery : ∀ q : Select, .query q ∈ e.children → Keeps P 0 0 (q.emit s) := fun q hq => h _ hq
  cases e with
  | column relation name =>
    rw [ownPieces, List.forall_mem_append, List.forall_mem_map] at hown
    exact law.keeps_append (law.keeps_qualifier fun r hr => hown.1 r (Option.mem_toList.mpr hr))
      (.piece (hown.2 _ (List.mem_singleton_self _)))
  | star relation =>
    rw [ownPieces, List.forall_mem_map] at hown
    exact law.keeps_append (law.keeps_qualifier fun r hr => hown r (Option.mem_toList.mpr hr))
      (law.keeps_sql (by decide))
  | literal l => exact law.keeps_literal hown
  | param name value => exact law.keeps_param hown
  | raw text => exact .piece (hown _ (List.mem_singleton_self _))
  | binary left op right =>
    have hleft := hchild left (by simp [children])
    have hright := hchild right (by simp [children])
    exact law.keeps_append (law.keeps_append (law.keeps_operand hleft)
      (law.keeps_sql (by cases op <;> decide))) (law.keeps_operand hright)
  | unary op operand =>
    have hoperand := hchild operand (by simp [children])
    exact law.keeps_append (law.keeps_sql (by cases op <;> decide)) (law.keeps_operand hoperand)
  | isNull operand negated =>
    have hoperand := hchild operand (by simp [children])
    exact law.keeps_append (law.keeps_operand hoperand)
      (law.keeps_negatable negated (by decide) (by decide))
  | isDistinctFrom left right negated =>
    exact law.keeps_distinctFrom (hchild left (by simp [children]))
      (hchild right (by simp [children])) negated
  | between operand low high negated =>
    have hoperand := hchild operand (by simp [children])
    have hlow := hchild low (by simp [children])
    have hhigh := hchild high (by simp [children])
    exact law.keeps_append (law.keeps_append (law.keeps_append (law.keeps_append
      (law.keeps_operand hoperand) (law.keeps_negatable negated (by decide) (by decide)))
      (law.keeps_operand hlow)) (law.keeps_sql (by decide))) (law.keeps_operand hhigh)
  | inList operand list negated =>
    -- An empty list is a constant, so its operand is no child.
    rw [Expr.emit]
    split
    · exact law.keeps_negatable negated (by decide) (by decide)
    · next hlist =>
      have hoperand := hchild operand (by simp [children, hlist])
      refine law.keeps_list (law.keeps_operand hoperand)
        (law.keeps_negatable negated (by decide) (by decide)) ?_
      rw [emitEach_eq_map]
      refine List.forall_mem_map.mpr fun x hx => hchild x ?_
      simp_all [children]
  | inValues operand values negated =>
    refine .bind fun literals hliterals => ?_
    obtain rfl := literals_eq_ok_iff.mp hliterals
    refine law.keeps_inLiterals negated (fun hempty =>
      law.keeps_operand (hchild operand (by simp [children, hempty]))) fun l hl => ?_
    refine hchild (.literal l) ?_
    have hne : literals.isEmpty = false := List.isEmpty_eq_false_iff.mpr (List.ne_nil_of_mem hl)
    simp [children, hne, hl]
  | inSubquery operand query negated =>
    have hoperand := hchild operand (by simp [children])
    have hinner := hquery query (by simp [children])
    exact law.keeps_append (law.keeps_append (law.keeps_append (law.keeps_operand hoperand)
      (law.keeps_negatable negated (by decide) (by decide))) (law.keeps_inside hinner))
      (law.keeps_sql (by decide))
  | «exists» query negated =>
    have hinner := hquery query (by simp [children])
    exact law.keeps_append (law.keeps_append (law.keeps_negatable negated (by decide) (by decide))
      (law.keeps_inside hinner)) (law.keeps_sql (by decide))
  | function name args distinct =>
    -- The name is a text of the caller, and the arguments stand in parentheses.
    have hname : Keeps P 0 0 (.verbatim name) := .piece (hown _ (List.mem_singleton_self _))
    refine law.keeps_list hname (law.keeps_sql (by cases distinct <;> decide)) ?_
    rw [emitEach_eq_map]
    refine List.forall_mem_map.mpr fun x hx => hchild x ?_
    simpa [children] using hx
  | window f partitionBy orderBy =>
    rw [Expr.emit, emitEach_eq_map, emitOrders_eq_map]
    refine law.keeps_append (hchild f (by simp [children])) (law.keeps_window
      (List.forall_mem_map.mpr fun x hx => hchild x (by simp [children, hx]))
      (List.forall_mem_map.mpr fun o ho => law.keeps_order (hchild o.expr ?_)))
    simp only [children, List.mem_cons, List.mem_append, List.mem_map]
    exact .inr (.inr ⟨o, ho, rfl⟩)
  | case operand branches default =>
    rw [Expr.emit]
    split
    · exact .fail _
    · have hoption : ∀ {x : Option Expr}, (∀ e' ∈ x, .expr e' ∈ (Expr.case operand branches
          default).children) → ∀ a ∈ emitOption s x, Keeps P 0 0 a := by
        intro x hx a ha
        rw [emitOption_eq_map] at ha
        obtain ⟨e', he', rfl⟩ := Option.map_eq_some_iff.mp ha
        exact hchild e' (hx e' he')
      have hbranch : ∀ b ∈ branches,
          Keeps P 0 0 (b.condition.emit s) ∧ Keeps P 0 0 (b.value.emit s) := by
        intro b hb
        constructor
        · refine hchild b.condition ?_
          simp only [children, List.mem_append, List.mem_flatMap]
          exact .inl (.inr ⟨b, hb, by simp⟩)
        · refine hchild b.value ?_
          simp only [children, List.mem_append, List.mem_flatMap]
          exact .inl (.inr ⟨b, hb, by simp⟩)
      have hoperand : ∀ a ∈ emitOption s operand, Keeps P 0 0 a := hoption fun e' he' => by
        simp [children, Option.mem_def.mp he']
      have hdefault : ∀ a ∈ emitOption s default, Keeps P 0 0 a := hoption fun e' he' => by
        simp [children, Option.mem_def.mp he']
      exact law.keeps_append (law.keeps_append (law.keeps_append (law.keeps_append
        (law.keeps_sql (by decide)) (law.keeps_after (by decide) hoperand))
        (law.keeps_branches hbranch)) (law.keeps_after (by decide) hdefault))
        (law.keeps_sql (by decide))
  | cast operand dataType =>
    have hoperand := hchild operand (by simp [children])
    have htype : Keeps P 0 0 (.verbatim dataType) := .piece (hown _ (List.mem_singleton_self _))
    exact law.keeps_append (law.keeps_append (law.keeps_append (law.keeps_append
      (law.keeps_sql (by decide)) (law.keeps_inside hoperand)) (law.keeps_sql (by decide)))
      (law.keeps_inside htype)) (law.keeps_sql (by decide))
  | grouping inner => exact law.keeps_parens (hchild inner (by simp [children]))
  | named inner name =>
    have hinner := hchild inner (by simp [children])
    exact law.keeps_append (law.keeps_append hinner (law.keeps_sql (by decide)))
      (.piece (hown _ (List.mem_singleton_self _)))
  | subquery query => exact law.keeps_parens (hquery query (by simp [children]))

end Nodes

/-! ## Queries -/

/-- The names that a table is written with. -/
def TableRef.ownPieces (t : TableRef) : List Piece :=
  t.schema.toList.map .ident ++ [.ident t.name] ++ t.rename.toList.map .ident

/-- The names that a row source is written with, apart from those of its query. -/
def TableFactor.ownPieces : TableFactor → List Piece
  | .table t => t.ownPieces
  | .derived _ name => [.ident name]

/-- The names that row sources are written with. -/
def JoinSource.ownPieces (j : JoinSource) : List Piece :=
  j.base.ownPieces ++ j.joins.flatMap (·.factor.ownPieces)

/-- The names that a core is written with, apart from those of its nodes. -/
def Core.ownPieces (c : Core) : List Piece :=
  c.source.toList.flatMap JoinSource.ownPieces

/-- The names, strings and texts of the caller that a node is written with, apart from those of its
children. -/
def Node.ownPieces (s : Settings) : Node → List Piece
  | .expr e => e.ownPieces s
  | .query q => q.cores.flatMap Core.ownPieces

/-- The own pieces of a single source are names. -/
theorem TableFactor.exists_ident {t : TableFactor} {p : Piece} (h : p ∈ t.ownPieces) :
    ∃ name, p = .ident name := by
  cases t with
  | table t =>
    simp only [ownPieces, TableRef.ownPieces, List.mem_append, List.mem_map,
      List.mem_singleton] at h
    obtain (⟨name, -, rfl⟩ | rfl) | ⟨name, -, rfl⟩ := h <;> exact ⟨_, rfl⟩
  | derived query name => exact ⟨name, List.mem_singleton.mp h⟩

/-- What a query itself is written with are names. -/
theorem Select.exists_ident {q : Select} {p : Piece} (h : p ∈ q.cores.flatMap Core.ownPieces) :
    ∃ name, p = .ident name := by
  obtain ⟨c, -, hp⟩ := List.mem_flatMap.mp h
  obtain ⟨j, -, hp⟩ := List.mem_flatMap.mp hp
  obtain hp | hp := List.mem_append.mp hp
  · exact TableFactor.exists_ident hp
  · obtain ⟨join, -, hp⟩ := List.mem_flatMap.mp hp
    exact TableFactor.exists_ident hp

/-- The own piece of a literal is a string. -/
theorem Literal.exists_string {l : Literal} {p : Piece} (h : p ∈ l.ownPieces) :
    ∃ content, p = .string content := by
  cases l with
  | string content => exact ⟨content, List.mem_singleton.mp h⟩
  | _ => cases h

/-- The text of the caller that an expression is written with, apart from those of its children. -/
def Expr.callerText : Expr → Option String
  | .raw text => some text
  | .function name _ _ => some name
  | .cast _ dataType => some dataType
  | _ => none

/-- The text of the caller that a node is written with, apart from those of its children. -/
def Node.callerText : Node → Option String
  | .expr e => e.callerText
  | .query _ => none

/-- What a node is written with itself is a name, a string, a parameter or the caller's text. -/
theorem Node.ownPieces_cases {s : Settings} {n : Node} {p : Piece} (h : p ∈ n.ownPieces s) :
    (∃ name, p = .ident name) ∨ (∃ content, p = .string content) ∨
      (∃ name value, p = .param name value) ∨ ∃ text ∈ n.callerText, p = .verbatim text := by
  -- An expression has names, strings, parameters or texts; a query has names only.
  obtain e | q := n
  · have hident : ∀ {names : List String}, p ∈ names.map .ident → ∃ name, p = .ident name := by
      intro names hmem
      obtain ⟨name, -, rfl⟩ := List.mem_map.mp hmem
      exact ⟨name, rfl⟩
    have hsingle : ∀ {q : Piece}, p ∈ [q] → p = q := List.mem_singleton.mp
    cases e with
    | column relation name =>
      obtain h | h := List.mem_append.mp h
      · exact .inl (hident h)
      · exact .inl ⟨name, hsingle h⟩
    | star relation => exact .inl (hident h)
    | literal l => exact .inr (.inl (l.exists_string h))
    | param name value =>
      simp only [ownPieces, Expr.ownPieces] at h
      split at h
      · obtain ⟨l, -, h⟩ := List.mem_flatMap.mp h
        exact .inr (.inl (l.exists_string h))
      · exact .inr (.inr (.inl ⟨name, value, hsingle h⟩))
    | raw text => exact .inr (.inr (.inr ⟨text, rfl, hsingle h⟩))
    | function name args distinct => exact .inr (.inr (.inr ⟨name, rfl, hsingle h⟩))
    | cast operand dataType => exact .inr (.inr (.inr ⟨dataType, rfl, hsingle h⟩))
    | named inner name => exact .inl ⟨name, hsingle h⟩
    | _ => cases h
  · exact .inl (Select.exists_ident h)

section Queries

variable {P : Nat → Nat → List Piece → Prop} (law : NodeLaw P) {s : Settings}
include law

/-- A table keeps the property if its names do. -/
theorem TableRef.keeps_emit {t : TableRef} (h : ∀ p ∈ t.ownPieces, P 0 0 [p]) :
    Keeps P 0 0 t.emit := by
  simp only [ownPieces, List.forall_mem_append, List.forall_mem_map, Option.mem_toList,
    List.forall_mem_singleton] at h
  obtain ⟨⟨hschema, hname⟩, hrename⟩ := h
  refine law.keeps_append (law.keeps_append (law.keeps_qualifier hschema) (.piece hname)) ?_
  split
  · next name heq => exact law.keeps_append (law.keeps_sql (by decide)) (.piece (hrename name heq))
  · exact law.keeps_empty

/-- A single source keeps the property if its names and children do. -/
theorem TableFactor.keeps_emit {t : TableFactor} (hown : ∀ p ∈ t.ownPieces, P 0 0 [p])
    (h : ∀ c ∈ t.children, Keeps P 0 0 (c.emit s)) : Keeps P 0 0 (t.emit s) := by
  cases t with
  | table t => exact t.keeps_emit law hown
  | derived query name =>
    have hquery : Keeps P 0 0 (query.emit s) := h (.query query) (by simp [children])
    exact law.keeps_append (law.keeps_append (law.keeps_parens hquery) (law.keeps_sql (by decide)))
      (.piece (hown _ (List.mem_singleton_self _)))

namespace NodeLaw

/-- Joined sources keep the property if their names and children do. -/
theorem keeps_joins {js : List Join} (hown : ∀ p ∈ js.flatMap (·.factor.ownPieces), P 0 0 [p])
    (h : ∀ c ∈ js.flatMap Join.children, Keeps P 0 0 (c.emit s)) :
    Keeps P 0 0 (emitJoins s js) := by
  induction js with
  | nil => exact law.keeps_empty
  | cons j js ih =>
    obtain ⟨kind, factor, constraint⟩ := j
    rw [List.flatMap_cons, List.forall_mem_append] at hown
    rw [List.flatMap_cons, List.forall_mem_append, Join.children, List.forall_mem_append] at h
    obtain ⟨⟨hfactor, hconstraint⟩, hjs⟩ := h
    have hon : Keeps P 0 0 (emitConstraint kind (emitOption s constraint)) := by
      cases constraint with
      | none => exact law.keeps_empty
      | some e =>
        rw [emitOption, emitConstraint]
        split
        · exact .fail _
        · exact law.keeps_append (law.keeps_sql (by decide)) (hconstraint (.expr e) (by simp))
    exact law.keeps_append (law.keeps_append (law.keeps_append
      (law.keeps_sql (by cases kind <;> decide)) (factor.keeps_emit law hown.1 hfactor)) hon)
      (ih hown.2 hjs)

end NodeLaw

/-- The pieces of a core have a property if its own do and those of its nodes. -/
theorem Core.keeps_emit {c : Core} (hown : ∀ p ∈ c.ownPieces, P 0 0 [p])
    (h : ∀ n ∈ c.children, Keeps P 0 0 (n.emit s)) : Keeps P 0 0 (c.parts s).emit := by
  obtain ⟨setOp, distinct, projections, source, wheres, groups, havings⟩ := c
  simp only [children, List.forall_mem_append, List.forall_mem_map] at h
  obtain ⟨⟨⟨⟨hprojections, hsource⟩, hwheres⟩, hgroups⟩, hhavings⟩ := h
  have hlist : Keeps P 0 0 (if (projections.map (·.emit s)).isEmpty then .sql "*"
      else .join ", " (projections.map (·.emit s))) := by
    split
    · exact law.keeps_sql (by decide)
    · exact law.keeps_join (by decide) (List.forall_mem_map.mpr hprojections)
  have hfrom : Keeps P 0 0 (after " FROM " (source.map (·.emit s))) := by
    refine law.keeps_after (by decide) fun e he => ?_
    obtain ⟨j, rfl, rfl⟩ := Option.map_eq_some_iff.mp he
    have hj : ∀ c ∈ j.children, Keeps P 0 0 (c.emit s) := by simpa using hsource
    have hnames : ∀ p ∈ j.ownPieces, P 0 0 [p] := by simpa [ownPieces] using hown
    rw [JoinSource.children, List.forall_mem_append] at hj
    rw [JoinSource.ownPieces, List.forall_mem_append] at hnames
    exact law.keeps_append (j.base.keeps_emit law hnames.1 hj.1) (law.keeps_joins hnames.2 hj.2)
  have hselect : Bridges (if distinct then "SELECT DISTINCT " else "SELECT ") 0 0 := by
    cases distinct <;> decide
  have hrows := law.keeps_append (law.keeps_append (law.keeps_sql hselect) hlist) hfrom
  exact law.keeps_append (law.keeps_append (law.keeps_append hrows
    (law.keeps_conditions (by decide) (List.forall_mem_map.mpr hwheres)))
    (law.keeps_clause (by decide) (List.forall_mem_map.mpr hgroups)))
    (law.keeps_conditions (by decide) (List.forall_mem_map.mpr hhavings))

/-- A set operator keeps the property. -/
theorem SetOperator.keeps_emit (op : SetOperator) : Keeps P 0 0 (op.emit s) := by
  obtain ⟨kind, all⟩ := op
  unfold SetOperator.emit
  split
  · exact .fail _
  · exact .fail _
  · exact law.keeps_sql (by decide)
  · cases kind <;> cases all <;> exact law.keeps_sql (by decide)

namespace NodeLaw

/-- The cores after the first keep the property if each of them does. -/
theorem keeps_laterCores {cs : List Core} (h : ∀ c ∈ cs, Keeps P 0 0 (c.parts s).emit)
    (index : Nat) : Keeps P 0 0 (laterCores s index (cs.map (·.parts s))) := by
  induction cs generalizing index with
  | nil => exact law.keeps_empty
  | cons c cs ih =>
    obtain ⟨hc, hcs⟩ := List.forall_mem_cons.mp h
    rw [List.map_cons, laterCores]
    refine law.keeps_append ?_ (ih hcs (index + 1))
    split
    · next op _ =>
      exact law.keeps_append (law.keeps_append (law.keeps_append (law.keeps_sql (by decide))
        (op.keeps_emit law)) (law.keeps_sql (by decide))) hc
    · exact .fail _

/-- The cores of a query keep the property if each of them does. -/
theorem keeps_cores {cs : List Core} (h : ∀ c ∈ cs, Keeps P 0 0 (c.parts s).emit) :
    Keeps P 0 0 (emitCoreParts s (cs.map (·.parts s))) := by
  cases cs with
  | nil => exact .fail _
  | cons c cs =>
    obtain ⟨hc, hcs⟩ := List.forall_mem_cons.mp h
    rw [List.map_cons, emitCoreParts]
    refine law.keeps_append ?_ (law.keeps_laterCores hcs 1)
    split
    · exact .fail _
    · exact hc

/-- The row bounds keep the property if their numbers do. -/
theorem keeps_bounds {limit offset : Option Rendered}
    (hlimit : ∀ r ∈ limit, Keeps P 0 0 r.emission)
    (hoffset : ∀ r ∈ offset, Keeps P 0 0 r.emission) :
    Keeps P 0 0 (emitBounds s limit offset) := by
  have hbound : ∀ (bound : RowBound) {x : Option Rendered}, (∀ r ∈ x, Keeps P 0 0 r.emission) →
      Keeps P 0 0 (emitBound? s bound x) := by
    intro bound x hx
    cases x with
    | none => exact law.keeps_empty
    | some r =>
      have hbehind : ∀ {text}, Bridges text 0 0 → Keeps P 0 0 (.sql text ++ r.emission) :=
        fun htext => law.keeps_append (law.keeps_sql htext) (hx r rfl)
      show Keeps P 0 0 (emitBound s bound r.emission)
      unfold emitBound
      -- One text for each bound and clause, and none where rows are counted.
      split
      · exact hbehind (by decide)
      · exact hbehind (by decide)
      · exact law.keeps_append (hbehind (by decide)) (law.keeps_sql (by decide))
      · exact law.keeps_append (hbehind (by decide)) (law.keeps_sql (by decide))
      · exact .fail _
  unfold emitBounds
  -- The order of the bounds depends on the target.
  split
  · exact law.keeps_append (hbound .offset hoffset) (hbound .limit hlimit)
  · exact law.keeps_append (hbound .limit hlimit) (hbound .offset hoffset)

end NodeLaw

omit law in
/-- A row bound that may be missing keeps the property if its expression does. -/
theorem keeps_bound {x : Option Expr} (h : ∀ e ∈ x, Keeps P 0 0 (e.emit s)) :
    ∀ r ∈ x.map (·.rendered s), Keeps P 0 0 r.emission := by
  intro r hr
  obtain ⟨e, he, rfl⟩ := Option.map_eq_some_iff.mp hr
  exact h e he

/-- The pieces of a query in standard form have a property if its own do and those of its nodes. -/
theorem Select.keeps_standard {q : Select}
    (hown : ∀ p ∈ q.cores.flatMap Core.ownPieces, P 0 0 [p])
    (h : ∀ c ∈ q.children, Keeps P 0 0 (c.emit s)) : Keeps P 0 0 ((q.parts s).standard s) := by
  simp only [children, List.forall_mem_append, List.forall_mem_map, Option.mem_toList] at h
  obtain ⟨⟨⟨hcores, horders⟩, hlimit⟩, hoffset⟩ := h
  have hcore : ∀ c ∈ q.cores, Keeps P 0 0 (c.parts s).emit := fun c hc =>
    c.keeps_emit law (fun p hp => hown p (List.mem_flatMap_of_mem hc hp)) fun n hn =>
      hcores n (List.mem_flatMap_of_mem hc hn)
  have horder : ∀ e ∈ q.orders.map (·.emit s), Keeps P 0 0 e :=
    List.forall_mem_map.mpr fun o ho => law.keeps_order (horders o ho)
  rw [parts_eq, QueryParts.standard]
  refine law.keeps_append (law.keeps_append (law.keeps_append (law.keeps_cores hcore)
    (law.keeps_clause (by decide) horder))
    (law.keeps_bounds (keeps_bound hlimit) (keeps_bound hoffset))) ?_
  obtain _ | lock := q.lock
  · exact law.keeps_empty
  · exact law.keeps_sql (by cases lock <;> decide)

/-- The number of the last row keeps the property if both bounds do. -/
theorem NodeLaw.keeps_lastRow {offset limit : Rendered} (ho : Keeps P 0 0 offset.emission)
    (hl : Keeps P 0 0 limit.emission) : Keeps P 0 0 (emitLastRow offset limit) := by
  refine .bind fun o _ => .bind fun l _ => ?_
  split
  · split
    · exact law.keeps_sql (bridges_of_numeric (numeric_toString _))
    · exact .fail _
  · exact law.keeps_parens (law.keeps_append (law.keeps_append ho (law.keeps_sql (by decide))) hl)

/-- A wrapped query keeps the property if its parts do. -/
theorem QueryParts.keeps_wrapped {q : QueryParts} (hquery : Keeps P 0 0 (q.unbounded.standard s))
    (hlimit : ∀ r ∈ q.limit, Keeps P 0 0 r.emission)
    (hoffset : ∀ r ∈ q.offset, Keeps P 0 0 r.emission)
    (hplain : Keeps P 0 0 (q.standard s)) : Keeps P 0 0 (q.wrapped s) := by
  -- The query stands inside one or two parentheses.
  have hinside := law.keeps_inside hquery
  have hinner : Keeps P 2 2 (q.unbounded.standard s) := fun ps hps => law.lift (hinside ps hps)
  have hwrap : ∀ {opening closing : String} {j : Nat}, Bridges opening 0 2 → Bridges closing 2 j →
      Keeps P 0 j (.sql opening ++ q.unbounded.standard s ++ .sql closing) := fun ho hc =>
    law.keeps_append (law.keeps_append (law.keeps_sql ho) hinner) (law.keeps_sql hc)
  unfold wrapped
  split
  · next limit offset hl ho =>
    have hlast := law.keeps_inside (law.keeps_lastRow (hoffset offset ho) (hlimit limit hl))
    simp only [Emission.append_assoc (.note _)]
    refine .note _ (law.keeps_append (law.keeps_append (law.keeps_append
      (hwrap (j := 1) (by decide) (by decide)) hlast) (law.keeps_sql (by decide)))
      (hoffset offset ho))
  · next limit hl _ =>
    simp only [Emission.append_assoc (.note _)]
    exact .note _ (law.keeps_append (law.keeps_append (law.keeps_append (law.keeps_sql
      (by decide)) hinside) (law.keeps_sql (by decide))) (hlimit limit hl))
  · next offset _ ho =>
    simp only [Emission.append_assoc (.note _)]
    exact .note _ (law.keeps_append (hwrap (by decide) (by decide)) (hoffset offset ho))
  · exact hplain

/-- The pieces of a query for Oracle have a property if its own do and those of its nodes. -/
theorem Select.keeps_oracle {q : Select} (hown : ∀ p ∈ q.cores.flatMap Core.ownPieces, P 0 0 [p])
    (h : ∀ c ∈ q.children, Keeps P 0 0 (c.emit s)) : Keeps P 0 0 ((q.parts s).oracle s) := by
  have hplain := keeps_standard law hown h
  have hunbounded : Keeps P 0 0 ((q.parts s).unbounded.standard s) :=
    keeps_standard (q := q.unbounded) law hown fun c hc => h c (by
      simp only [unbounded, children, List.mem_append] at hc ⊢
      tauto)
  have hlimit : ∀ r ∈ (q.parts s).limit, Keeps P 0 0 r.emission := by
    rw [parts_eq]
    exact keeps_bound fun e he => h (.expr e) (by simp [children, Option.mem_def.mp he])
  have hoffset : ∀ r ∈ (q.parts s).offset, Keeps P 0 0 r.emission := by
    rw [parts_eq]
    exact keeps_bound fun e he => h (.expr e) (by simp [children, Option.mem_def.mp he])
  have hwrapped := QueryParts.keeps_wrapped law hunbounded hlimit hoffset hplain
  unfold QueryParts.oracle
  -- The clause for row bounds decides on the form.
  split
  · refine .bind fun _ _ => .bind fun _ _ => ?_
    split
    · exact hplain
    · next limit hl _ =>
      split
      · obtain ⟨e, he, rfl⟩ : ∃ e, q.limit = some e ∧ e.rendered s = limit := by
          rwa [parts_eq, Option.map_eq_some_iff] at hl
        refine .note _ ?_
        rw [Expr.rendered, ← parts_pushLimit]
        -- Besides the nodes of the query itself the comparison with the limit is written.
        refine keeps_standard (q := q.pushLimit e) law (fun p hp => hown p ?_) fun c hc => ?_
        · simpa [pushLimit, List.flatMap_map, Core.ownPieces] using hp
        · obtain hc | rfl := mem_children_pushLimit hc
          · exact h c hc
          · have hlimit : Keeps P 0 0 (e.emit s) := h (.expr e) (by simp [children, he])
            have hrownum : Keeps P 0 0 (.verbatim "ROWNUM") :=
              .piece (law.verbatim _ (List.all_eq_true.mp (by decide)))
            exact law.keeps_append (law.keeps_append (law.keeps_operand hrownum)
              (law.keeps_sql (by decide))) (law.keeps_operand hlimit)
      · split
        · exact .fail _
        · exact hwrapped
    · split
      · exact .fail _
      · exact hwrapped
  · split
    · exact .fail _
    · exact hplain
  · exact hplain

omit law in
/-- An alias and its direction are written in the characters of aliases. -/
theorem isAliasChar_of_mem (index : Nat) (term : List Char) {c : Char}
    (h : c ∈ (orderAlias index
      ++ if OrderText.isDescending term then " DESC" else "").toList) : isAliasChar c = true := by
  have hdigits : ∀ c ∈ (toString index).toList, isAliasChar c = true := by
    intro c hc
    rw [Nat.toString_eq_repr, Nat.toList_repr] at hc
    have hdigit : c.isDigit = true := Nat.isDigit_of_mem_toDigits (by decide) (by decide) hc
    simp [isAliasChar, Char.isAlphanum, hdigit]
  simp only [orderAlias, String.toList_append, List.mem_append] at h
  -- The character is in the word, the number, the underscores or the direction.
  obtain ((hc | hc) | hc) | hc := h
  · exact List.all_eq_true.mp (show "alias_".toList.all isAliasChar = true by decide) c hc
  · exact hdigits c hc
  · exact List.all_eq_true.mp (show "__".toList.all isAliasChar = true by decide) c hc
  · split at hc
    · exact List.all_eq_true.mp (show " DESC".toList.all isAliasChar = true by decide) c hc
    · cases hc

/-- The pieces of a query have a property if its own do and those of its nodes. -/
theorem Select.keeps_emit {q : Select} (hown : ∀ p ∈ q.cores.flatMap Core.ownPieces, P 0 0 [p])
    (h : ∀ c ∈ q.children, Keeps P 0 0 (c.emit s)) : Keeps P 0 0 (q.emit s) := by
  cases hd : s.dialect with
  | generic =>
    rw [emit_generic hd]
    exact keeps_standard law hown h
  | oracle =>
    rw [emit_oracle hd]
    refine .bind fun parts hparts => ?_
    obtain ⟨orders, rfl, horders⟩ := orderedParts_cases hparts
    refine keeps_oracle law hown fun c hc => ?_
    -- Nothing but the ordering is replaced, and by aliases.
    obtain rfl | ⟨terms, rfl⟩ := horders
    · exact h c hc
    · simp only [children, List.mem_append] at hc
      obtain ((hc | hc) | hc) | hc := hc
      case inl.inl.inr =>
        obtain ⟨o, ho, rfl⟩ := List.mem_map.mp hc
        obtain ⟨i, hi, rfl⟩ := List.mem_mapIdx.mp ho
        exact .piece (law.verbatim _ fun c => isAliasChar_of_mem i _)
      all_goals exact h c (by simp only [children, List.mem_append]; tauto)

end Queries

/-- The pieces of a node have a property if the own pieces of all visited nodes do. -/
theorem Node.keeps_emit {P : Nat → Nat → List Piece → Prop} (law : NodeLaw P) {s : Settings}
    {m : Node} (h : ∀ n, m.Visits n → ∀ p ∈ n.ownPieces s, P 0 0 [p]) : Keeps P 0 0 (m.emit s) := by
  induction m using Node.induction with
  | step m ih =>
    obtain ⟨hown, hchildren⟩ := Node.forall_visits_iff.mp h
    have hemit : ∀ c ∈ m.children, Keeps P 0 0 (c.emit s) := fun c hc => ih c hc (hchildren c hc)
    cases m with
    | expr e => exact e.keeps_emit law hown hemit
    | query q => exact q.keeps_emit law hown hemit

end SqlCompiler
