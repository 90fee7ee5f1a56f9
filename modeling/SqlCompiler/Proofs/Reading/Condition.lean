import SqlCompiler.Proofs.QueryParts
import SqlCompiler.Proofs.Reading.Logic

/-!
# Conditions mean their conjunction

The conditions of a query are scalars compared, tested and connected (`IsScalar`, `IsCondition`).
Whatever columns, parameters and functions are taken to be, the text of a list of conditions, as
`visit_conjunction` writes it, is read back as their conjunction (`read_conjunction`). So a
condition that is added to a list, such as a bound on the row number, holds together with all the
others.

Names are written as they are, so a name that spells a reserved word, a number or a placeholder is
not read back as that name; conditions with such names are left out.
-/

namespace SqlCompiler.Reading

/-- A name can be read back as a column or a relation: it is no placeholder. -/
def IsReadable (style : ParamStyle) (name : String) : Prop :=
  isNumbered style name.toList = false

/-- An expression for a value. -/
inductive IsScalar (style : ParamStyle) : Expr → Prop where
  | column {relation : Option String} {name : String} (hr : ∀ r ∈ relation, IsReadable style r)
      (h : IsReadable style name) : IsScalar style (.column relation name)
  | integer (n : Int64) : IsScalar style (.literal (.integer n))
  | string (s : String) : IsScalar style (.literal (.string s))
  | null : IsScalar style (.literal .null)
  | param (name : String) (value : Option Literal) : IsScalar style (.param name value)
  /-- The number of the row at hand. -/
  | rowNumber : IsScalar style (.raw "ROWNUM")
  | function {name : String} {args : List Expr} (distinct : Bool)
      (hname : readsAsName style name.toList = true) (hargs : ∀ e ∈ args, IsScalar style e) :
      IsScalar style (.function name args distinct)
  | sum {left right : Expr} {op : BinaryOp} (hop : op = .add ∨ op = .sub)
      (hl : IsScalar style left) (hr : IsScalar style right) :
      IsScalar style (.binary left op right)
  | neg {e : Expr} (h : IsScalar style e) : IsScalar style (.unary .neg e)

/-- Operators that compare two values. -/
def comparisons : List BinaryOp :=
  [.eq, .notEq, .lt, .ltEq, .gt, .gtEq, .like, .notLike]

/-- An expression for a truth value. -/
inductive IsCondition (style : ParamStyle) : Expr → Prop where
  | comparison {left right : Expr} {op : BinaryOp} (hop : op ∈ comparisons)
      (hl : IsScalar style left) (hr : IsScalar style right) :
      IsCondition style (.binary left op right)
  | isNull {e : Expr} (negated : Bool) (h : IsScalar style e) :
      IsCondition style (.isNull e negated)
  | between {e low high : Expr} (negated : Bool) (h : IsScalar style e)
      (hlow : IsScalar style low) (hhigh : IsScalar style high) :
      IsCondition style (.between e low high negated)
  | inList {e : Expr} {list : List Expr} (negated : Bool) (h : IsScalar style e)
      (hlist : ∀ x ∈ list, IsScalar style x) : IsCondition style (.inList e list negated)
  | inValues {e : Expr} {values : List Literal} (negated : Bool) (h : IsScalar style e)
      (hne : values ≠ []) (hvalues : ∀ l ∈ values, IsScalar style (.literal l)) :
      IsCondition style (.inValues e (values.map .literal) negated)
  | connective {left right : Expr} {op : BinaryOp} (hop : op = .and ∨ op = .or)
      (hl : IsCondition style left) (hr : IsCondition style right) :
      IsCondition style (.binary left op right)
  | not {e : Expr} (h : IsCondition style e) : IsCondition style (.unary .not e)
  | grouping {e : Expr} (h : IsCondition style e) : IsCondition style (.grouping e)

/-- A scalar binds stronger than every comparison, and stronger than a sum unless it is one. -/
theorem IsScalar.strong {style : ParamStyle} {e : Expr} (h : IsScalar style e) :
    level e = e.strength ∧ 10 ≤ e.strength ∧ (10 < level e ∨ IsBinary e) := by
  cases h with
  | integer n =>
    -- A negative number is written with a sign, so it binds as a negation does.
    show _ ∧ 10 ≤ (if n < 0 then 13 else 20) ∧ (10 < (if n < 0 then 13 else 20) ∨ _)
    split
    · exact ⟨rfl, by decide, .inl (by decide)⟩
    · exact ⟨rfl, by decide, .inl (by decide)⟩
  | sum hop hl hr =>
    refine ⟨rfl, ?_, .inr ⟨_, _, _, rfl⟩⟩
    obtain rfl | rfl := hop
    · exact Nat.le_refl 10
    · exact Nat.le_refl 10
  | _ => simp [level, Expr.strength, UnaryOp.strength]

variable {st : Settings}

/-- A scalar is read back. -/
theorem reads_scalar (ν : Valuation) (hstyle : st.paramStyle ≠ .inline) {e : Expr}
    (h : IsScalar st.paramStyle e) : Reads ν.meaning st e := by
  induction h with
  | column hr h => exact reads_column hr h
  | integer n => exact reads_integer n fun _ => ν.neg_integer
  | string s => exact reads_string s
  | null => exact reads_null
  | param name value => exact reads_param hstyle name value
  | rowNumber => exact reads_rowNumber
  | function distinct hname hargs ih => exact reads_function hname distinct ih
  | @sum left right op hop hl hr ihl ihr =>
    have hstrength : op.strength = 10 := by obtain rfl | rfl := hop <;> rfl
    refine reads_binary (by rintro rfl; cases hstrength) ihl ihr (fun _ => ?_) (fun _ => ?_) ?_
    · rw [hstrength]
      exact hl.strong.2.2
    · rw [hstrength]
      exact hr.strong.2.2
    · -- Only sums group to both sides, and what they hold on the right is a sum or a difference.
      intro hright hboth o ho
      have ho' := strength_of_mem_spine right o ho
      obtain rfl | rfl := hop
      · refine ν.associates_add ?_
        cases o <;> simp_all [BinaryOp.strength]
      · cases hboth
  | neg h ih => exact reads_unary .neg ih (.inr h.strong.1)

/-- A condition binds stronger than the connectives, unless it is one. -/
theorem IsCondition.strong {style : ParamStyle} {e : Expr} (h : IsCondition style e) :
    (4 < level e ∨ level e = e.strength) ∧ (3 < level e ∨ IsBinary e) := by
  cases h with
  | @inList e list negated h hlist =>
    cases list with
    -- An empty list is read as a comparison, which still binds stronger than a negation.
    | nil => simp [level, infixLevel]
    | cons x xs => simp [level, Expr.strength, membershipStrength]
  | comparison hop hl hr => exact ⟨.inr rfl, .inr ⟨_, _, _, rfl⟩⟩
  | connective hop hl hr => exact ⟨.inr rfl, .inr ⟨_, _, _, rfl⟩⟩
  | _ => simp [level, Expr.strength, UnaryOp.strength, isStrength, membershipStrength]

/-- What a connective holds on the right without parentheses is the same connective. -/
theorem associates_connective (ν : Valuation) {op : BinaryOp} (hop : op = .and ∨ op = .or)
    {right : Expr} (h : right.strength = op.strength) :
    ∀ o ∈ spine right, Associates ν.meaning op o := by
  intro o ho
  have ho' := strength_of_mem_spine right o ho
  -- Each connective has a strength of its own.
  have heq : o = op := by
    rw [h] at ho'
    obtain rfl | rfl := hop <;> cases o <;> simp_all [BinaryOp.strength]
  rw [heq]
  obtain rfl | rfl := hop
  · exact ν.associates_and
  · exact ν.associates_or

/-- A condition is read back. -/
theorem reads_condition (ν : Valuation) (hstyle : st.paramStyle ≠ .inline)
    (hmax : st.capabilities.maxInList ≠ some 0) {e : Expr} (h : IsCondition st.paramStyle e) :
    Reads ν.meaning st e := by
  induction h with
  | @comparison left right op hop hl hr =>
    have hweak : op ≠ .concat ∧ op.strength < 10 := by
      simp only [comparisons, List.mem_cons, List.not_mem_nil, or_false] at hop
      rcases hop with rfl | rfl | rfl | rfl | rfl | rfl | rfl | rfl <;> decide
    have hstrong : ∀ {x : Expr}, IsScalar st.paramStyle x → op.strength < level x := by
      intro x hx
      obtain ⟨hlevel, hten, _⟩ := hx.strong
      omega
    refine reads_binary hweak.1 (reads_scalar ν hstyle hl) (reads_scalar ν hstyle hr)
      (fun _ => .inl (hstrong hl)) (fun _ => .inl (hstrong hr)) fun hright => ?_
    have hten := hr.strong.2.1
    omega
  | isNull negated h => exact reads_isNull (reads_scalar ν hstyle h) negated (.inr h.strong.1)
  | between negated h hlow hhigh =>
    refine reads_between (reads_scalar ν hstyle h) (reads_scalar ν hstyle hlow)
      (reads_scalar ν hstyle hhigh) negated fun x hx => .inr ?_
    simp only [List.mem_cons, List.not_mem_nil, or_false] at hx
    obtain rfl | rfl | rfl := hx
    · exact h.strong.1
    · exact hlow.strong.1
    · exact hhigh.strong.1
  | inList negated h hlist =>
    exact reads_inList (reads_scalar ν hstyle h) (fun x hx => reads_scalar ν hstyle (hlist x hx))
      negated (.inr h.strong.1) (ν.among_nil _ negated)
  | inValues negated h hne hvalues =>
    exact reads_inValues (reads_scalar ν hstyle h) hne
      (fun l hl => reads_scalar ν hstyle (hvalues l hl)) negated hmax (.inr h.strong.1)
      (ν.among_append negated)
  | @connective left right op hop hl hr ihl ihr =>
    have hweak : op ≠ .concat ∧ op.strength ≤ 3 := by
      obtain rfl | rfl := hop <;> decide
    refine reads_binary hweak.1 ihl ihr (fun _ => ?_) (fun _ => ?_) fun hright _ =>
      associates_connective ν hop hright
    · exact hl.strong.2.imp_left fun hlt => by omega
    · exact hr.strong.2.imp_left fun hlt => by omega
  | not h ih => exact reads_unary .not ih h.strong.1
  | grouping h ih => exact reads_grouping ih

/-- Two or more conditions are connected. -/
theorem conjunction_of_two (r r' : Rendered) (rs : List Rendered) :
    conjunction (r :: r' :: rs) = .join " AND " ((r :: r' :: rs).map fun r =>
      r.operand .left BinaryOp.and.strength BinaryOp.and.associativity) :=
  rfl

/-- A condition is read back between others. -/
theorem readsAs_conjunct (ν : Valuation) (hstyle : st.paramStyle ≠ .inline)
    (hmax : st.capabilities.maxInList ≠ some 0) {e : Expr} (h : IsCondition st.paramStyle e) :
    ∃ ps, (Rendered.operand ⟨e, e.emit st⟩ .left BinaryOp.and.strength
        BinaryOp.and.associativity).outcome = .ok ps ∧
      ReadsAs ν.meaning st.paramStyle (OnChain .and) ps (infixLevel .and) (mean ν.meaning e) := by
  have hsame : e.strength = BinaryOp.and.strength → ∀ o ∈ spine e, Associates ν.meaning .and o :=
    associates_connective ν (.inl rfl)
  obtain ⟨ps, hps, hread, _⟩ := readsAs_operand (reads_condition ν hstyle hmax h) .left
    BinaryOp.and.strength BinaryOp.and.associativity (F := OnChain .and) (p := infixLevel .and) (by
      intro hbare
      have hle := le_strength_of_bare hbare
      have hlevel : infixLevel .and ≤ level e := by
        obtain hlt | ⟨a, o, b, rfl⟩ := h.strong.2
        · exact Nat.le_of_lt hlt
        · exact hle
      refine ⟨hlevel, ?_⟩
      -- The first condition is read on a settled stack, the others behind an `AND`.
      rintro fs (hfs | ⟨x, fs', rfl, hfs⟩)
      · exact fits_of_settled hfs hlevel
      · exact fits_right x hfs hle (h.strong.2.imp_right fun hbin => ⟨hbin, hsame⟩))
  exact ⟨ps, hps, hread⟩

/-- A list of conditions is read back as a chain of conjunctions. -/
theorem read_chain (ν : Valuation) (hstyle : st.paramStyle ≠ .inline)
    (hmax : st.capabilities.maxInList ≠ some 0) (e : Expr) (es : List Expr)
    (h : ∀ x ∈ e :: es, IsCondition st.paramStyle x) :
    ∃ ps, (conjunction (renderedList (e :: es) (emitEach st (e :: es)))).outcome = .ok ps ∧
      ∀ position, read ν.meaning st.paramStyle (Piece.renderFrom st.paramStyle position ps)
          (Piece.params st.paramStyle position ps)
        = some (es.foldl (fun v x => ν.meaning.binary v .and (mean ν.meaning x))
            (mean ν.meaning e)) := by
  rw [renderedList_eq_map]
  cases es with
  | nil =>
    obtain ⟨ps, hps, hread, _⟩ := reads_condition ν hstyle hmax (h e List.mem_cons_self)
    exact ⟨ps, hps, read_of_readsAs hread (fits_of_settled trivial (Nat.le_refl _))⟩
  | cons e' es =>
    obtain ⟨ps, hps, hread⟩ := readsAs_chain
      (fun x => Rendered.operand ⟨x, x.emit st⟩ .left BinaryOp.and.strength
        BinaryOp.and.associativity)
      (mean ν.meaning) (by decide : BinaryOp.and ≠ .concat) e (e' :: es)
      fun x hx => readsAs_conjunct ν hstyle hmax (h x hx)
    refine ⟨ps, ?_, read_of_readsAs hread trivial⟩
    simp only [List.map_cons, conjunction_of_two, List.map_map]
    exact hps

/-- A chain of conjunctions holds if all of it hold. -/
theorem truth?_foldl_and (ν : Valuation) (v : Value) (es : List Expr) :
    (es.foldl (fun v x => ν.meaning.binary v .and (mean ν.meaning x)) v).truth?
      = v.truth?.and (Truth.all (es.map ν.truth)) := by
  induction es generalizing v with
  | nil => exact (Truth.and_true _).symm
  | cons e es ih =>
    rw [List.foldl_cons, ih, List.map_cons, Truth.all_cons, ← Truth.and_assoc]
    show (Value.ofTruth _).truth?.and _ = _
    rw [Value.truth?_ofTruth]
    rfl

/-- The text of conditions is read back as a condition with a truth value, whatever columns,
parameters and functions are taken to be and wherever the numbers of the parameters start. -/
def ConjunctionMeans (st : Settings) (rs : List Rendered) (truth : Valuation → Truth) : Prop :=
  ∃ ps, (conjunction rs).outcome = .ok ps ∧ ∀ (ν : Valuation) (position : Nat),
    (read ν.meaning st.paramStyle (Piece.renderFrom st.paramStyle position ps)
      (Piece.params st.paramStyle position ps)).map Value.truth? = some (truth ν)

/-- A list of conditions holds if all of it hold. -/
theorem conjunctionMeans_all (hstyle : st.paramStyle ≠ .inline)
    (hmax : st.capabilities.maxInList ≠ some 0) {es : List Expr} (hne : es ≠ [])
    (h : ∀ e ∈ es, IsCondition st.paramStyle e) :
    ConjunctionMeans st (renderedList es (emitEach st es)) fun ν => Truth.all (es.map ν.truth) := by
  cases es with
  | nil => exact absurd rfl hne
  | cons e es =>
    -- The pieces do not depend on the valuation, so any one gives them.
    obtain ⟨ps, hps, _⟩ := read_chain default hstyle hmax e es h
    refine ⟨ps, hps, fun ν position => ?_⟩
    obtain ⟨qs, hqs, hread⟩ := read_chain ν hstyle hmax e es h
    obtain rfl : ps = qs := Except.ok.inj (hps.symm.trans hqs)
    rw [hread, Option.map_some, truth?_foldl_and]
    rfl

/-- Conditions mean their conjunction: the text of a list of conditions holds if all of them hold.
A bound on the row number that is added to the list, which may be empty then, holds together with
all of them. -/
theorem read_conjunction (hstyle : st.paramStyle ≠ .inline)
    (hmax : st.capabilities.maxInList ≠ some 0) {es : List Expr}
    (h : ∀ e ∈ es, IsCondition st.paramStyle e) :
    (es ≠ [] → ConjunctionMeans st (renderedList es (emitEach st es)) fun ν =>
      Truth.all (es.map ν.truth)) ∧
    ∀ limit, IsScalar st.paramStyle limit →
      ConjunctionMeans st
        (renderedList es (emitEach st es) ++ [rowNumberAtMost ⟨limit, limit.emit st⟩]) fun ν =>
          (Truth.all (es.map ν.truth)).and (ν.truth (.binary (.raw "ROWNUM") .ltEq limit)) := by
  refine ⟨fun hne => conjunctionMeans_all hstyle hmax hne h, fun limit hlimit => ?_⟩
  -- The bound is a comparison of scalars, so with it the list is one of conditions again.
  have hbound : IsCondition st.paramStyle (.binary (.raw "ROWNUM") .ltEq limit) :=
    .comparison (by decide) .rowNumber hlimit
  obtain ⟨ps, hps, hread⟩ := conjunctionMeans_all hstyle hmax
    (List.append_ne_nil_of_right_ne_nil es (List.cons_ne_nil _ []))
    (List.forall_mem_append.mpr ⟨h, List.forall_mem_singleton.mpr hbound⟩)
  rw [renderedList_append, ← rowNumberAtMost_eq] at hps
  have hall : ∀ ν : Valuation,
      Truth.all ((es ++ [Expr.binary (.raw "ROWNUM") .ltEq limit]).map ν.truth)
        = (Truth.all (es.map ν.truth)).and (ν.truth (.binary (.raw "ROWNUM") .ltEq limit)) := by
    intro ν
    rw [List.map_append, Truth.all_append, List.map_singleton, Truth.all_singleton]
  exact ⟨ps, hps, fun ν position => (hread ν position).trans (congrArg some (hall ν))⟩

/-- A filter with a disjunction, a split list and an empty one, under a limit that is bound later:
the text is `(dept = :a1 OR boss IS NULL) AND (id NOT IN (1, 2) AND id NOT IN (-3)) AND NOT 1=0 AND
ROWNUM <= :a2`. -/
theorem read_conjunction_of_filter :
    let st : Settings := ⟨.oracle, { maxInList := some 2 }, .colon, true⟩
    let es : List Expr :=
      [.binary (.eq (.col "dept") (.bound "dept" (.integer 7))) .or (.isNull (.col "boss") false),
        .inValues (.col "id") [.int 1, .int 2, .int (-3)] true,
        .unary .not (.inList (.col "id") [] false)]
    let limit : Expr := .param "n" none
    ConjunctionMeans st
      (renderedList es (emitEach st es) ++ [rowNumberAtMost ⟨limit, limit.emit st⟩]) fun ν =>
        (Truth.all (es.map ν.truth)).and (ν.truth (.binary (.raw "ROWNUM") .ltEq limit)) := by
  intro st es limit
  have hcolumn : ∀ name, IsScalar st.paramStyle (.col name) := fun name =>
    .column (fun _ h => absurd h (Option.not_mem_none _))
      (isNumbered_of_ne_dollar (by decide) name.toList)
  have hes : ∀ e ∈ es, IsCondition st.paramStyle e := by
    intro e he
    simp only [es, List.mem_cons, List.not_mem_nil, or_false] at he
    obtain rfl | rfl | rfl := he
    · exact .connective (.inr rfl) (.comparison (by decide) (hcolumn _) (.param _ _))
        (.isNull _ (hcolumn _))
    · show IsCondition _
        (.inValues (.col "id") ([.integer 1, .integer 2, .integer (-3)].map .literal) true)
      exact .inValues true (hcolumn _) (List.cons_ne_nil _ _) (by simp [IsScalar.integer])
    · exact .not (.inList _ (hcolumn _) fun _ h => absurd h List.not_mem_nil)
  exact (read_conjunction (by decide) (by decide) hes).2 limit (.param "n" none)

/-- One reading with another truth value is enough against a meaning. -/
theorem not_conjunctionMeans {rs : List Rendered} {truth : Valuation → Truth} {ps : List Piece}
    (hps : (conjunction rs).outcome = .ok ps) (ν : Valuation)
    (hread : (read ν.meaning st.paramStyle (Piece.renderFrom st.paramStyle 1 ps)
      (Piece.params st.paramStyle 1 ps)).map Value.truth? ≠ some (truth ν)) :
    ¬ ConjunctionMeans st rs truth := by
  rintro ⟨qs, hqs, hmeans⟩
  obtain rfl : ps = qs := Except.ok.inj (hps.symm.trans hqs)
  exact hread (hmeans ν 1)

/-- A column that is named like a placeholder is written like one: `$1 = $1` is not read back as
the comparison of the column with the parameter. A function that is named like a reserved word or a
number is written like one: `not(a) = 1` is read back as a negation. -/
theorem not_read_conjunction_of_names :
    (let st : Settings := ⟨.generic, {}, .dollar, false⟩
      let es : List Expr := [.eq (.col "$1") (.param "p" none)]
      ¬ ConjunctionMeans st (renderedList es (emitEach st es)) fun ν =>
        Truth.all (es.map ν.truth)) ∧
    ∀ name ∈ "1" :: Keyword.all.map (String.ofList ·.letters),
      let st : Settings := ⟨.generic, {}, .questionMark, false⟩
      let es : List Expr := [.eq (.call name [.col "a"]) (.int 1)]
      ¬ ConjunctionMeans st (renderedList es (emitEach st es)) fun ν =>
        Truth.all (es.map ν.truth) := by
  refine ⟨not_conjunctionMeans rfl default (by decide), ?_⟩
  -- The comparison holds of the function's value, and does not of the argument's opposite.
  let ν : Valuation := { (default : Valuation) with
    column := fun _ _ => .integer 1
    call := fun _ _ _ => .integer 1 }
  intro name hname
  simp only [Keyword.all, List.map_cons, List.map_nil, List.mem_cons, List.not_mem_nil,
    or_false] at hname
  rcases hname with rfl | rfl | rfl | rfl | rfl | rfl | rfl | rfl | rfl | rfl | rfl
  all_goals exact not_conjunctionMeans rfl ν (by decide)

end SqlCompiler.Reading
