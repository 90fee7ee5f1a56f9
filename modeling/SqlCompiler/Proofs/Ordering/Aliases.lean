import Mathlib
import SqlCompiler.Proofs.OrderAlias
import SqlCompiler.Proofs.Ordering.PhrasedNodes

/-!
# Aliases that an ordering refers to

For Oracle the ordering of a query is put in terms of aliases if the text of a projection holds the
mark `FIRST_VALUE`. The mark is looked for in the text as a whole, but it can only come from a name,
a string or the caller's own text (`Phrase.isMarked_iff`). Wherever it comes from, there are as many
aliases as the ordering has terms, so they are defined only if the projections happen to name all of
them. The search is `has_window_projection`.
-/

namespace SqlCompiler

/-! ## Where the mark comes from -/

/-- A piece that is not fixed text and holds the mark of an ordering term. -/
def Piece.HoldsMark (p : Piece) : Prop :=
  (∀ text, p ≠ .sql text) ∧ occursIn windowMarker.toList p.chars = true

/-- The text of a phrase holds the mark exactly if one of its names, strings, or texts of the caller
does. -/
theorem Phrase.isMarked_iff {ps : List Piece} (h : Phrase ps) :
    Piece.isMarked ps = true ↔ ∃ p ∈ ps, p.HoldsMark := by
  rw [Piece.isMarked, Piece.toList_render]
  constructor
  · -- The mark goes across no guard, so one piece holds it, and no fixed text does.
    intro hmark
    obtain ⟨p, hp, hholds⟩ := h.exists_piece cutsAtGuards_marker hmark
    refine ⟨p, hp, fun text htext => ?_, hholds⟩
    subst htext
    obtain ⟨_, _, hfixed⟩ := h.isFixed hp
    rw [show Piece.chars (.sql text) = text.toList from rfl, hfixed.unmarked] at hholds
    cases hholds
  · rintro ⟨p, hp, -, hholds⟩
    obtain ⟨front, back, rfl⟩ := List.append_of_mem hp
    rw [List.flatMap_append, List.flatMap_cons]
    refine occursIn_iff.mpr ((occursIn_iff.mp hholds).trans ?_)
    exact ⟨_, _, List.append_assoc _ _ _⟩

/-- Where none of the emissions is found to be marked, each of them succeeds without a mark. -/
theorem unmarked_of_anyMarked {es : List Emission} (h : (anyMarked es).outcome = .ok false) :
    ∀ e ∈ es, ∃ ps, e.outcome = .ok ps ∧ Piece.isMarked ps = false := by
  induction es with
  | nil => simp
  | cons e es ih =>
    obtain ⟨text, htext, -⟩ := Traced.outcome_bind_ok h
    obtain ⟨ps, hps, -⟩ := Traced.outcome_bind_ok htext
    rw [anyMarked_cons_of_ok hps] at h
    cases hmarked : Piece.isMarked ps with
    | true =>
      rw [hmarked] at h
      cases h
    | false =>
      rw [hmarked] at h
      exact List.forall_mem_cons.mpr ⟨⟨ps, hps, hmarked⟩, ih h⟩

namespace Select

/-- The projections of all cores. -/
def allProjections (q : Select) : List Expr :=
  q.cores.flatMap (·.projections)

/-- A name, a string or a text of the caller in a projection holds the mark. -/
def HoldsMark (s : Settings) (q : Select) : Prop :=
  ∃ e ∈ q.allProjections, ∃ ps, (e.emit (s.withStyle .questionMark)).outcome = .ok ps ∧
    ∃ p ∈ ps, p.HoldsMark

/-- The test of the projections finds the mark exactly if one of them holds it. -/
theorem holdsMark_of_anyMarked {s : Settings} {q : Select} {marked : Bool}
    (h : (anyMarked (q.allProjections.map (·.emit (s.withStyle .questionMark)))).outcome
      = .ok marked) : marked = true ↔ q.HoldsMark s := by
  have hiff : ∀ {e : Expr} {ps : List Piece},
      (e.emit (s.withStyle .questionMark)).outcome = .ok ps →
      (Piece.isMarked ps = true ↔ ∃ p ∈ ps, p.HoldsMark) :=
    fun hps => (Node.phrased_emit _ (.expr _) _ hps).isMarked_iff
  -- The test ends at the first mark, and otherwise all projections have been looked at.
  cases marked with
  | true =>
    obtain ⟨x, hx, ps, hps, hmarked⟩ := exists_marked h
    obtain ⟨e, he, rfl⟩ := List.mem_map.mp hx
    exact iff_of_true rfl ⟨e, he, ps, hps, (hiff hps).mp hmarked⟩
  | false =>
    refine iff_of_false Bool.false_ne_true ?_
    rintro ⟨e, he, ps, hps, hmark⟩
    obtain ⟨ps', hps', hmarked⟩ := unmarked_of_anyMarked h _ (List.mem_map_of_mem he)
    obtain rfl := Except.ok.inj (hps.symm.trans hps')
    rw [(hiff hps).mpr hmark] at hmarked
    cases hmarked

/-! ## The aliases of an ordering -/

/-- The parts of a query with its ordering as it is, and no aliases, or with an ordering whose
clause is written as one by aliases. There is an alias for each term, in the direction of the term,
and the aliases are those of the written clause. -/
inductive OrdersBy (s : Settings) (q : Select) : QueryParts → List String → Prop where
  | kept : OrdersBy s q (q.parts s) []
  | replaced {terms : List (List Char)} {directions : List Bool} {clause : List Piece}
      (hterms : orderTerms s .questionMark q.orders = .ok terms)
      (hdirections : List.Forall₂ (fun term d => OrderText.EndsInDesc term ↔ d = true) terms
        directions)
      (hclause : (Emission.clause " ORDER BY " ", " (terms.mapIdx aliasOrder)).outcome = .ok clause)
      (htext : ∀ style position, Piece.renderFrom style position clause = aliasClause directions) :
      OrdersBy s q { q.parts s with orders := terms.mapIdx aliasOrder }
        (directions.mapIdx fun i _ => orderAlias i)

/-- The aliases of the terms are those of the clause that they are replaced by. -/
theorem ordersBy_of_terms {s : Settings} {q : Select} {terms : List (List Char)}
    (h : orderTerms s .questionMark q.orders = .ok terms) :
    q.OrdersBy s { q.parts s with orders := terms.mapIdx aliasOrder }
      (terms.mapIdx fun i _ => orderAlias i) := by
  obtain ⟨clause, hclause, -, htext⟩ := outcome_aliasOrders terms
  have haliases : (terms.map OrderText.isDescending).mapIdx (fun i _ => orderAlias i)
      = terms.mapIdx fun i _ => orderAlias i := by
    refine List.ext_getElem (by simp) fun i _ _ => ?_
    rw [List.getElem_mapIdx, List.getElem_mapIdx]
  rw [← haliases]
  exact .replaced h (directions_unique.mpr rfl) hclause htext

/-- The ordering is replaced exactly if there is one and a projection holds the mark. -/
theorem orderedParts_inversion {s : Settings} {q : Select} {t : QueryParts}
    (h : (q.orderedParts s).outcome = .ok t) :
    (t = q.parts s ∧ (q.orders = [] ∨ ¬q.HoldsMark s)) ∨
    ∃ terms, q.orders ≠ [] ∧ q.HoldsMark s ∧ orderTerms s .questionMark q.orders = .ok terms ∧
      t = { q.parts s with orders := terms.mapIdx aliasOrder } := by
  -- Without an ordering the query is not looked at.
  obtain hnil | hne := eq_or_ne q.orders []
  · rw [orderedParts_of_orders_nil hnil] at h
    exact .inl ⟨(Except.ok.inj h).symm, .inl hnil⟩
  · rw [orderedParts, probe_eq s hne] at h
    obtain ⟨rfl, hempty | hunmarked⟩ | ⟨terms, hmarked, hterms, rfl⟩ :=
      QueryParts.orderedByAlias_inversion h
    · rw [parts_eq] at hempty
      exact absurd (List.map_eq_nil_iff.mp hempty) hne
    · refine .inl ⟨rfl, .inr fun hmark => ?_⟩
      exact absurd ((holdsMark_of_anyMarked hunmarked).mpr hmark) Bool.false_ne_true
    · exact .inr ⟨terms, hne, (holdsMark_of_anyMarked hmarked).mp rfl, hterms, rfl⟩

end Select

/-- The projection has a name: as a node, or as the last word of the caller's text. -/
def Expr.Names (name : String) : Expr → Prop
  | .named _ given => given = name
  | .raw text => ∃ front, text = front ++ " AS " ++ name
  | _ => False

/-- A projection of the query has the name. -/
def Select.Defines (q : Select) (name : String) : Prop :=
  ∃ e ∈ q.allProjections, e.Names name

/-- The projection for a term names the alias of the term. -/
theorem aliasProjection_names (partition : String) (index : Nat) (term : String) :
    (aliasProjection partition index term).Names (orderAlias index) :=
  ⟨windowMarker ++ "(" ++ term ++ ") OVER (PARTITION BY " ++ partition ++ " ORDER BY " ++ term
    ++ ")", by simp [String.append_assoc]⟩

/-- For Oracle, the aliases that the ordering of a compiled query is put in terms of are all defined
by its projections exactly if there is no ordering, or no name, string or text of the caller in the
projections holds the mark, or the projections name an alias for each term that the ordering is cut
into. -/
theorem compile_aliases_defined_iff {o : Options} {q : Select} {c : Compiled}
    (hd : o.target.dialect = .oracle) {layout : String → String} (hlayout : o.Keeps layout)
    (h : (compile o (.select q) layout).outcome = .ok c) :
    ∃ t aliases ps, (q.orderedParts o.choices).outcome = .ok t ∧
      q.OrdersBy o.choices t aliases ∧ (t.oracle o.choices).outcome = .ok ps ∧
      c.sql = Piece.render o.choices.paramStyle ps ++ o.closing ∧
      ((∀ name ∈ aliases, q.Defines name) ↔
        q.orders = [] ∨ ¬q.HoldsMark o.choices ∨
        ∃ terms, orderTerms o.choices .questionMark q.orders = .ok terms ∧
          ∀ i < terms.length, q.Defines (orderAlias i)) := by
  obtain ⟨-, ps, hps, rfl⟩ := (outcome_compile_iff hlayout).mp h
  rw [Statement.emit, Select.emit_oracle hd] at hps
  obtain ⟨t, ht, hps⟩ := Traced.outcome_bind_ok hps
  -- The ordering is kept and refers to no alias, or refers to one for each of its terms.
  obtain ⟨rfl, hkept⟩ | ⟨terms, hne, hmark, hterms, rfl⟩ := Select.orderedParts_inversion ht
  · refine ⟨_, [], ps, ht, .kept, hps, rfl, iff_of_true (by simp) ?_⟩
    exact hkept.imp_right .inl
  · refine ⟨_, _, ps, ht, Select.ordersBy_of_terms hterms, hps, rfl, ?_⟩
    have hnames : (∀ name ∈ terms.mapIdx fun i _ => orderAlias i, q.Defines name)
        ↔ ∀ i < terms.length, q.Defines (orderAlias i) := by
      simp [List.mem_mapIdx]
    rw [hnames]
    constructor
    · exact fun hall => .inr (.inr ⟨terms, hterms, hall⟩)
    · rintro (hnil | hunmarked | ⟨terms', hterms', hall⟩)
      · exact absurd hnil hne
      · exact absurd hmark hunmarked
      · obtain rfl := Except.ok.inj (hterms.symm.trans hterms')
        exact hall

set_option maxRecDepth 4000 in
/-- Two terms are ordered by two aliases: the first is named at the end of a raw projection, the
second by a node. -/
theorem aliases_defined_of_two_terms :
    let o : Options := { format := false, target := ⟨some .oracle⟩, signatureComment := false }
    let q : Select :=
      { Select.fromTable "t" [aliasProjection "id" 0 "a",
          .named (.window (.call "FIRST_VALUE" [.col "b"]) [.col "id"] []) "alias_1__"] with
        orders := [⟨.col "a", some .desc⟩, ⟨.col "b", none⟩] }
    ∃ t aliases, (q.orderedParts o.choices).outcome = .ok t ∧ q.OrdersBy o.choices t aliases ∧
      ∀ name ∈ aliases, q.Defines name := by
  intro o q
  obtain ⟨c, hc⟩ : ∃ c, (compile o (.select q)).outcome = .ok c := ⟨_, rfl⟩
  obtain ⟨t, aliases, -, ht, horders, -, -, hiff⟩ :=
    compile_aliases_defined_iff rfl (Options.keeps_of_unformatted rfl _) hc
  have hterms : orderTerms o.choices .questionMark q.orders
      = .ok ["a DESC".toList, "b".toList] := by
    cbv
  refine ⟨t, aliases, ht, horders, hiff.mpr (.inr (.inr ⟨_, hterms, fun i hi => ?_⟩))⟩
  obtain rfl | rfl : i = 0 ∨ i = 1 := by
    simp only [List.length_cons, List.length_nil] at hi
    omega
  · exact ⟨_, List.mem_cons_self, aliasProjection_names "id" 0 "a"⟩
  · exact ⟨_, List.mem_cons_of_mem _ List.mem_cons_self, (by decide : "alias_1__" = orderAlias 1)⟩

set_option maxRecDepth 4000 in
/-- A string with the word of the mark is enough for the ordering to be replaced by an alias that no
projection defines. -/
theorem not_defined_of_marked_string :
    let o : Options := { format := false, target := ⟨some .oracle⟩, signatureComment := false }
    let q : Select :=
      { Select.fromTable "t" [.string "FIRST_VALUE"] with orders := [⟨.col "a", none⟩] }
    (compile o (.select q)).outcome
      = .ok ⟨"SELECT 'FIRST_VALUE' FROM t ORDER BY alias_0__", []⟩ ∧
    (∃ t, (q.orderedParts o.choices).outcome = .ok t ∧ q.OrdersBy o.choices t [orderAlias 0]) ∧
    ¬q.Defines (orderAlias 0) := by
  intro o q
  have hterms : orderTerms o.choices .questionMark q.orders = .ok ["a".toList] := by
    cbv
  refine ⟨by cbv, ⟨_, rfl, Select.ordersBy_of_terms hterms⟩, ?_⟩
  rintro ⟨e, he, hnames⟩
  obtain rfl := List.mem_singleton.mp he
  exact hnames

end SqlCompiler
