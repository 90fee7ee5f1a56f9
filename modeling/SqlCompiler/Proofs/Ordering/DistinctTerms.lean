import Mathlib
import SqlCompiler.Proofs.Brackets.Nesting
import SqlCompiler.Proofs.Nodes.Success
import SqlCompiler.Proofs.OrderAlias
import SqlCompiler.Proofs.Ordering.BareTerms
import SqlCompiler.Proofs.Ordering.PhrasedNodes

/-!
# Projections for ordering terms

A query without duplicates that is ordered by other expressions than it selects has a projection for
each of them: its first value among rows that are equal in the columns. The projections are not made
from the expressions but from the terms that their texts are cut into, so they are the right ones
exactly if each text is kept (`OrderText.Kept`). A text is kept if its pieces are harmless
(`kept_of_harmless`): no direction within it, as in the ordering of a window, and nothing in a name
or a string that reads like a direction or a cut.
-/

namespace SqlCompiler

open OrderText (Kept Trimmed Whole bareTerms directionChars isDirected hasDirection splitTerms
  bareTerm)

/-! ## Harmless pieces -/

/-- A piece takes nothing from the text it stands in. A fixed text is harmless unless it is a
direction. Any other piece is if its parentheses nest with its commas inside them, and it neither
holds a direction nor a blank at its ends. -/
def Piece.Harmless : Piece → Prop
  | .sql text => text ∉ directionTexts
  | p => p.chars.foldl nest (some 0) = some 0 ∧ isDirected p.chars = false ∧ Trimmed p.chars

instance : DecidablePred Piece.Harmless
  | .sql _ => inferInstanceAs (Decidable (_ ∉ _))
  | .verbatim _ | .ident _ | .string _ | .param _ _ => inferInstanceAs (Decidable (_ ∧ _ ∧ _ ∧ _))

/-- A harmless piece that is no fixed text nests, has no direction and is trimmed. -/
theorem Piece.Harmless.of_ne_sql {p : Piece} (h : p.Harmless) (hp : ∀ text, p ≠ .sql text) :
    p.chars.foldl nest (some 0) = some 0 ∧ isDirected p.chars = false ∧ Trimmed p.chars := by
  cases p with
  | sql text => exact absurd rfl (hp text)
  | _ => exact h

/-- Inside any number of further parentheses, harmless pieces lead from depth `i` to depth `j`. -/
def Nests (i j : Nat) (ps : List Piece) : Prop :=
  (∀ p ∈ ps, p.Harmless) → ∀ depth,
    (ps.flatMap Piece.chars).foldl nest (some (depth + i)) = some (depth + j)

/-- A harmless piece that is no fixed text stays at its depth. -/
theorem nests_singleton {p : Piece} (hp : ∀ text, p ≠ .sql text) : Nests 0 0 [p] := by
  intro h depth
  rw [List.flatMap_singleton]
  exact foldl_nest_add ((h p (List.mem_singleton_self p)).of_ne_sql hp).1 depth

/-- Nesting is a law of pieces where parameters are written as literals. -/
theorem pieceLaw_nests : PieceLaw .inline Nests where
  nil _ _ := rfl
  sql text i j h _ depth := by
    rw [List.flatMap_singleton]
    exact foldl_nest_add h.1 depth
  verbatim _ := nests_singleton fun _ => Piece.noConfusion
  ident _ := nests_singleton fun _ => Piece.noConfusion
  string _ := nests_singleton fun _ => Piece.noConfusion
  param hstyle := absurd rfl hstyle
  append hp hq h depth := by
    rw [List.flatMap_append, List.foldl_append,
      hp (fun p hp => h p (List.mem_append_left _ hp)) depth]
    exact hq (fun q hq => h q (List.mem_append_right _ hq)) depth
  lift {i j ps} h hps depth := by
    have hlift := h hps (depth + 1)
    rwa [Nat.add_assoc, Nat.add_comm 1, Nat.add_assoc, Nat.add_comm 1] at hlift

/-- Only the ends of a text count for the blanks at them. -/
theorem trimmed_append {x y : List Char} (middle : List Char)
    (hx : x.head?.any (!Text.isBlank ·) = true) (hy : y.getLast?.any (!Text.isBlank ·) = true) :
    Trimmed (x ++ (middle ++ y)) := by
  obtain ⟨first, hfirst, hplain⟩ := Option.any_eq_true _ _ |>.mp hx
  obtain ⟨last, hlast, hplain'⟩ := Option.any_eq_true _ _ |>.mp hy
  constructor
  · rw [List.head?_append, hfirst]
    exact hplain
  · rw [List.getLast?_append, List.getLast?_append, hlast]
    exact hplain'

namespace Phrase

variable {ps : List Piece}

/-- A phrase of harmless pieces has no blanks at its ends. -/
theorem trimmed (h : Phrase ps) (hps : ∀ p ∈ ps, p.Harmless) :
    Trimmed (ps.flatMap Piece.chars) := by
  -- A phrase begins and ends in a piece that is trimmed by itself.
  induction h with
  | @atom p hp =>
    rw [List.flatMap_singleton]
    exact ((hps p (List.mem_singleton_self p)).of_ne_sql hp).2.2
  | fixed hfixed =>
    rw [List.flatMap_singleton]
    exact ⟨hfixed.first, hfixed.last⟩
  | front hfixed _ ih =>
    rw [List.flatMap_cons]
    exact trimmed_append [] hfixed.first (ih (List.forall_mem_cons.mp hps).2).2
  | back _ hfixed ih =>
    rw [List.flatMap_append, List.flatMap_singleton]
    exact trimmed_append [] (ih (List.forall_mem_append.mp hps).1).1 hfixed.last
  | glue _ _ _ ihps ihqs =>
    obtain ⟨hfront, hback⟩ := List.forall_mem_append.mp hps
    rw [List.flatMap_append, List.flatMap_cons]
    exact trimmed_append _ (ihps hfront).1 (ihqs (List.forall_mem_cons.mp hback).2).2

/-- A phrase of harmless pieces holds no direction. -/
theorem undirected (h : Phrase ps) (hps : ∀ p ∈ ps, p.Harmless) :
    hasDirection (ps.flatMap Piece.chars) = false := by
  refine Bool.eq_false_iff.mpr fun hdirection => ?_
  obtain ⟨p, hp, hdirected⟩ := h.exists_piece cutsAtGuards_isDirected
    (OrderText.isDirected_of_hasDirection hdirection)
  -- A fixed text that holds a direction is one, and no other piece that holds one is harmless.
  by_cases hsql : ∃ text, p = .sql text
  · obtain ⟨text, rfl⟩ := hsql
    obtain ⟨_, _, hfixed⟩ := h.isFixed hp
    have hfalse : isDirected text.toList = false := hfixed.undirected.resolve_left (hps _ hp)
    exact absurd (hfalse.symm.trans hdirected) Bool.false_ne_true
  · have hfalse := ((hps p hp).of_ne_sql fun text htext => hsql ⟨text, htext⟩).2.1
    exact absurd (hfalse.symm.trans hdirected) Bool.false_ne_true

end Phrase

/-- The text of an expression with harmless pieces is kept. -/
theorem kept_of_harmless {s : Settings} (hs : s.paramStyle = .inline) {e : Expr} {ps : List Piece}
    (h : (e.emit s).outcome = .ok ps) (hps : ∀ p ∈ ps, p.Harmless)
    (direction : Option SortDirection) : Kept direction (ps.flatMap Piece.chars) := by
  have hphrase : Phrase ps := Node.phrased_emit s (.expr e) ps h
  have hlaw : PieceLaw s.paramStyle Nests := hs ▸ pieceLaw_nests
  have hnests : Nests 0 0 ps := Expr.emit_agree hlaw.grammarLaw e e (e.agree_self fun _ => rfl) ps h
  have hnest := hnests hps 0
  exact {
    whole := whole_of_nest hnest
    undirected := hphrase.undirected hps
    trimmed := hphrase.trimmed hps
    noComma := fun _ => getLast?_of_nest hnest }

/-! ## The texts of columns and orders -/

/-- The text of an expression with literals for its parameters, if there is one. -/
def Expr.inlineText (s : Settings) (e : Expr) : String :=
  match (e.emit (s.withStyle .inline)).outcome with
  | .ok ps => Piece.render .inline ps
  | .error _ => ""

/-- The text of pieces is their characters one after the other. -/
theorem toList_render_inline (ps : List Piece) :
    (Piece.render .inline ps).toList = ps.flatMap Piece.chars := by
  rw [render_inline, Piece.toList_render]

/-- The inline text of an expression is the characters of its pieces. -/
theorem Expr.toList_inlineText {s : Settings} {e : Expr} {ps : List Piece}
    (h : (e.emit (s.withStyle .inline)).outcome = .ok ps) :
    (e.inlineText s).toList = ps.flatMap Piece.chars := by
  rw [inlineText, h]
  exact toList_render_inline ps

/-- The text of a list of columns is the texts of the columns, with commas between them. -/
theorem asText_columns {s : Settings} {columns : List Expr}
    (h : ∀ e ∈ columns, (e.emit (s.withStyle .inline)).Succeeds) :
    ((Emission.join ", " (columns.map (·.emit (s.withStyle .inline)))).asText .inline).outcome
      = .ok (", ".intercalate (columns.map (·.inlineText s))) := by
  have hjoin : ∃ ps,
      (Emission.join ", " (columns.map (·.emit (s.withStyle .inline)))).outcome = .ok ps ∧
      ps.flatMap Piece.chars = (", ".intercalate (columns.map (·.inlineText s))).toList := by
    induction columns with
    | nil => exact ⟨[], rfl, rfl⟩
    | cons e es ih =>
      obtain ⟨⟨ps, hps⟩, hes⟩ := List.forall_mem_cons.mp h
      -- A separator stands only before a further column.
      cases es with
      | nil => exact ⟨ps, hps, by simp [Expr.toList_inlineText hps]⟩
      | cons e' es =>
        obtain ⟨qs, hqs, htext⟩ := ih hes
        refine ⟨ps ++ (.sql ", " :: qs), ?_, ?_⟩
        · exact Emission.outcome_append_of_ok hps
            (Emission.outcome_append_of_ok (Emission.outcome_sql ", ") hqs)
        · simp only [List.map_cons, List.flatMap_append, List.flatMap_cons] at htext ⊢
          rw [htext, String.intercalate_cons_cons, String.toList_append, String.toList_append,
            Expr.toList_inlineText hps, List.append_assoc]
          rfl
  obtain ⟨ps, hps, htext⟩ := hjoin
  rw [outcome_asText hps, String.toList_inj.mp ((toList_render_inline ps).trans htext)]

/-- The text of an order is that of its expression with its direction behind it. -/
theorem asText_order {s : Settings} {t : OrderTerm}
    (h : (t.expr.emit (s.withStyle .inline)).Succeeds) :
    ∃ text, ((t.emit (s.withStyle .inline)).asText .inline).outcome = .ok text ∧
      text.toList = (t.expr.inlineText s).toList ++ directionChars t.direction := by
  obtain ⟨ps, hps⟩ := h
  have hdirection : ∃ qs, (emitDirection t.direction).outcome = .ok qs ∧
      qs.flatMap Piece.chars = directionChars t.direction := by
    obtain _ | _ | _ := t.direction <;> exact ⟨_, rfl, rfl⟩
  obtain ⟨qs, hqs, hchars⟩ := hdirection
  refine ⟨_, outcome_asText (Emission.outcome_append_of_ok hps hqs) .inline, ?_⟩
  rw [toList_render_inline, List.flatMap_append, hchars, Expr.toList_inlineText hps]

/-- The terms of an ordering are cut from the texts of its expressions with their directions. -/
theorem orderTexts_inline {s : Settings} {orders : List OrderTerm}
    (h : ∀ t ∈ orders, (t.expr.emit (s.withStyle .inline)).Succeeds) :
    (orderTexts .inline (orders.map (·.emit (s.withStyle .inline)))).outcome
      = .ok (orders.flatMap fun t =>
        splitTerms ((t.expr.inlineText s).toList ++ directionChars t.direction)) := by
  induction orders with
  | nil => rfl
  | cons t ts ih =>
    obtain ⟨ht, hts⟩ := List.forall_mem_cons.mp h
    obtain ⟨text, htext, hchars⟩ := asText_order ht
    rw [List.map_cons, orderTexts, Traced.outcome_bind_of_ok htext,
      Traced.outcome_bind_of_ok (ih hts), List.flatMap_cons, ← hchars]
    rfl

/-! ## The projections -/

/-- The projections for ordering terms: the first value of each term among equal rows. -/
def firstValues (partition : String) (terms : List String) : List Expr :=
  terms.mapIdx fun i term =>
    .raw ("FIRST_VALUE(" ++ term ++ ") OVER (PARTITION BY " ++ partition ++ " ORDER BY " ++ term
      ++ ") AS alias_" ++ toString i ++ "__")

/-- The projections for terms are made one by one, with their numbers. -/
theorem firstValues_eq (partition : String) (terms : List String) :
    firstValues partition terms = terms.mapIdx (aliasProjection partition) := by
  have hname : ") AS alias_" = ") AS " ++ "alias_" := rfl
  unfold firstValues
  congr 1
  funext i term
  simp only [aliasProjection, windowMarker, orderAlias, hname, String.append_assoc]
  rfl

/-- The term can be read off its projection. -/
theorem aliasProjection_injective {partition : String} {index : Nat} {term term' : String}
    (h : aliasProjection partition index term = aliasProjection partition index term') :
    term = term' := by
  simp only [aliasProjection, Expr.raw.injEq, String.append_assoc, String.append_right_inj] at h
  -- The term stands twice in equal texts, so it has one length, and comes first in them.
  have hchars := congrArg String.toList h
  simp only [String.toList_append] at hchars
  have hlength : term.toList.length = term'.toList.length := by
    have hlengths := congrArg List.length hchars
    simp only [List.length_append] at hlengths
    omega
  exact String.toList_inj.mp (List.append_inj hchars hlength).1

/-- The terms can be read off the projections. -/
theorem firstValues_inj {partition : String} {terms terms' : List String} :
    firstValues partition terms = firstValues partition terms' ↔ terms = terms' := by
  refine ⟨fun h => ?_, congrArg _⟩
  rw [firstValues_eq, firstValues_eq] at h
  have hlength : terms.length = terms'.length := by simpa using congrArg List.length h
  refine List.ext_getElem hlength fun i hi hi' => ?_
  have hi := List.getElem_of_eq h (by simpa using hi)
  rw [List.getElem_mapIdx, List.getElem_mapIdx] at hi
  exact aliasProjection_injective hi

/-- The projections are made from what is left of the texts of the orders. -/
theorem outcome_distinctProjections {o : Options} {s : Settings} (hs : o.settings = .ok s)
    {columns : List Expr} (hne : columns ≠ [])
    (hcolumns : ∀ e ∈ columns, (e.emit (s.withStyle .inline)).Succeeds) {orders : List OrderTerm}
    (horders : ∀ t ∈ orders, (t.expr.emit (s.withStyle .inline)).Succeeds) :
    (distinctProjections o columns orders).outcome
      = .ok (firstValues (", ".intercalate (columns.map (·.inlineText s)))
        ((orders.flatMap fun t => bareTerms t.direction (t.expr.inlineText s).toList).map
          String.ofList) ++ columns) := by
  have hempty : columns.isEmpty = false := by simpa using hne
  have hpartition := asText_columns hcolumns
  have hterms := orderTexts_inline horders
  rw [← emitEach_eq_map] at hpartition
  rw [← emitOrders_eq_map] at hterms
  have hbare : ((orders.flatMap fun t => splitTerms ((t.expr.inlineText s).toList
      ++ directionChars t.direction)).map bareTerm).filter (!·.isEmpty)
      = orders.flatMap fun t => bareTerms t.direction (t.expr.inlineText s).toList := by
    rw [List.map_flatMap, List.filter_flatMap]
    rfl
  rw [distinctProjections, Traced.outcome_bind_of_ok ((Traced.outcome_ofExcept _).trans hs)]
  simp only [hempty, Bool.false_eq_true, if_false]
  rw [Traced.outcome_bind_of_ok hpartition, Traced.outcome_bind_of_ok hterms, Traced.outcome_ok,
    hbare, firstValues_eq]

/-- If the columns and the expressions of the orders can be written, there are projections. They are
one for each order, made from the text of its expression, and the columns, exactly if each of these
texts is kept. A text with harmless pieces is. -/
theorem distinctProjections_firstValues_iff {o : Options} {s : Settings} (hs : o.settings = .ok s)
    {columns : List Expr} (hne : columns ≠ [])
    (hcolumns : ∀ e ∈ columns, (e.emit (s.withStyle .inline)).Succeeds) {orders : List OrderTerm}
    (horders : ∀ t ∈ orders, (t.expr.emit (s.withStyle .inline)).Succeeds) :
    ∃ projections, (distinctProjections o columns orders).outcome = .ok projections ∧
      (projections = firstValues (", ".intercalate (columns.map (·.inlineText s)))
          (orders.map (·.expr.inlineText s)) ++ columns ↔
        ∀ t ∈ orders, Kept t.direction (t.expr.inlineText s).toList) ∧
      ∀ t ∈ orders,
        (∀ ps, (t.expr.emit (s.withStyle .inline)).outcome = .ok ps → ∀ p ∈ ps, p.Harmless) →
        Kept t.direction (t.expr.inlineText s).toList := by
  refine ⟨_, outcome_distinctProjections hs hne hcolumns horders, ?_, fun t ht hharmless => ?_⟩
  · -- The terms can be read off the projections, so it is about them alone.
    have hkept := OrderText.flatMap_bareTerms_iff
      (orders.map fun t => (t.direction, (t.expr.inlineText s).toList))
    simp only [List.flatMap_map, List.forall_mem_map] at hkept
    have hinjective : Function.Injective (List.map String.ofList) :=
      List.map_injective_iff.mpr fun _ _ => String.ofList_injective
    rw [List.append_cancel_right_eq, firstValues_inj, ← hkept, ← hinjective.eq_iff]
    simp [Function.comp_def]
  · obtain ⟨ps, hps⟩ := horders t ht
    rw [Expr.toList_inlineText hps]
    exact kept_of_harmless rfl hps (hharmless ps hps) t.direction

set_option maxRecDepth 4000 in
/-- Commas within the parentheses of a call cut no term, and a direction behind it is no part of
it. -/
theorem firstValues_of_call :
    let o : Options := { target := ⟨some .oracle⟩ }
    let orders : List OrderTerm :=
      [⟨.call "COALESCE" [.col "a", .col "b"], some .desc⟩, ⟨.col "c", none⟩]
    (distinctProjections o [.col "id"] orders).outcome
      = .ok (firstValues "id" ["COALESCE(a, b)", "c"] ++ [.col "id"]) := by
  intro o orders
  have hs : o.settings = .ok o.choices := rfl
  have horders : ∀ t ∈ orders, (t.expr.emit (o.choices.withStyle .inline)).Succeeds :=
    List.forall_mem_cons.mpr ⟨⟨_, rfl⟩, List.forall_mem_singleton.mpr ⟨_, rfl⟩⟩
  obtain ⟨projections, hprojections, hiff, hkept⟩ :=
    distinctProjections_firstValues_iff hs (List.cons_ne_nil (.col "id") [])
      (List.forall_mem_singleton.mpr ⟨_, rfl⟩) horders
  have hcall :
      ((Expr.call "COALESCE" [.col "a", .col "b"]).emit (o.choices.withStyle .inline)).outcome
        = .ok [.verbatim "COALESCE", .sql "(", .ident "a", .sql ", ", .ident "b", .sql ")"] := rfl
  have hcolumn : ((Expr.col "c").emit (o.choices.withStyle .inline)).outcome
      = .ok [.ident "c"] := rfl
  have hall : ∀ t ∈ orders, Kept t.direction (t.expr.inlineText o.choices).toList := by
    intro t ht
    refine hkept t ht fun ps hps => ?_
    obtain rfl | ht := List.mem_cons.mp ht
    · obtain rfl := Except.ok.inj (hcall.symm.trans hps)
      decide
    · obtain rfl := List.mem_singleton.mp ht
      obtain rfl := Except.ok.inj (hcolumn.symm.trans hps)
      decide
  have htexts : orders.map (·.expr.inlineText o.choices) = ["COALESCE(a, b)", "c"] := by
    cbv
  have hid : [Expr.col "id"].map (·.inlineText o.choices) = ["id"] := by
    cbv
  rw [hprojections, hiff.mpr hall, htexts, hid, String.intercalate_singleton]

set_option maxRecDepth 4000 in
/-- The direction within the ordering of a window is lost, so that the window function is another
one. -/
theorem not_firstValues_of_window :
    let o : Options := { target := ⟨some .oracle⟩ }
    let window : Expr := .window (.call "ROW_NUMBER" []) [] [⟨.col "a", some .desc⟩]
    window.inlineText o.choices = "ROW_NUMBER() OVER (ORDER BY a DESC)" ∧
    (distinctProjections o [.col "id"] [⟨window, none⟩]).outcome
      = .ok (firstValues "id" ["ROW_NUMBER() OVER (ORDER BY a)"] ++ [.col "id"]) ∧
    firstValues "id" ["ROW_NUMBER() OVER (ORDER BY a)"]
      ≠ firstValues "id" ["ROW_NUMBER() OVER (ORDER BY a DESC)"] := by
  intro o window
  have htext : window.inlineText o.choices = "ROW_NUMBER() OVER (ORDER BY a DESC)" := by
    cbv
  have hid : Expr.inlineText o.choices (.col "id") = "id" := by
    cbv
  refine ⟨htext, ?_, ?_⟩
  · have hs : o.settings = .ok o.choices := rfl
    rw [outcome_distinctProjections hs (List.cons_ne_nil _ _)
      (List.forall_mem_singleton.mpr ⟨_, rfl⟩) (List.forall_mem_singleton.mpr ⟨_, rfl⟩)]
    have hbare : bareTerms none "ROW_NUMBER() OVER (ORDER BY a DESC)".toList
        = ["ROW_NUMBER() OVER (ORDER BY a)".toList] := by
      decide
    simp only [List.map_cons, List.map_nil, List.flatMap_cons, List.flatMap_nil, htext, hid, hbare,
      String.intercalate_singleton, List.append_nil, String.ofList_toList]
  · rw [Ne, firstValues_inj]
    decide

end SqlCompiler
