import Mathlib
import SqlCompiler.Proofs.Agreement.Placeholders
import SqlCompiler.Proofs.Nodes.Settings
import SqlCompiler.Proofs.Ordering.Guards

/-!
# Ordering by aliases

The projections of a query without duplicates are made from the terms that its ordering is split
into, and the ordering by their aliases is made from the same terms. Both look at texts, but not in
the same way: a term without an expression has no projection, and yet it is counted for an alias,
and parameters are literals in one text and placeholders in the other. The projections
are those of `projections_for_distinct`, the ordering that of `order_hacks`.
-/

namespace SqlCompiler

/-! ## The last word of a term -/

namespace OrderText

/-- The term ends in the word `desc` in letters of any case, up to blanks. -/
def EndsInDesc (term : List Char) : Prop :=
  ∃ before word blanks, term = before ++ word ++ blanks ∧
    word.map Text.foldLetter = "desc".toList ∧ (∀ c ∈ blanks, Text.isBlank c = true) ∧
    ∀ c ∈ before.getLast?, Text.isWord c = false

/-- The test for a last word `desc` is right. -/
theorem isDescending_iff (term : List Char) : isDescending term = true ↔ EndsInDesc term := by
  -- The term is read from its end: blanks come first, then the letters of the word in reverse.
  have hiff : isDescending term = true ↔ ∃ rest,
      Text.dropLetters? "csed".toList (term.reverse.dropWhile Text.isBlank) = some rest ∧
      ∀ c ∈ rest.head?, Text.isWord c = false := by
    rw [isDescending, Text.trimEnd, List.reverse_reverse]
    generalize Text.dropLetters? _ _ = rest
    obtain _ | _ | ⟨c, cs⟩ := rest <;> simp
  rw [hiff]
  constructor
  · rintro ⟨rest, hrest, hhead⟩
    obtain ⟨word, hword, hletters⟩ := dropLetters?_eq_some_iff.mp hrest
    refine ⟨rest.reverse, word.reverse, (term.reverse.takeWhile Text.isBlank).reverse, ?_, ?_, ?_,
      ?_⟩
    · rw [← List.reverse_append, ← List.reverse_append, ← hword, List.takeWhile_append_dropWhile,
        List.reverse_reverse]
    · rw [List.map_reverse, hletters]
      rfl
    · intro c hc
      exact List.all_eq_true.mp List.all_takeWhile c (List.mem_reverse.mp hc)
    · rwa [List.getLast?_reverse]
  · rintro ⟨before, word, blanks, rfl, hletters, hblanks, hlast⟩
    have hword : (word.reverse).map Text.foldLetter = "csed".toList := by
      rw [List.map_reverse, hletters]
      rfl
    refine ⟨before.reverse, dropLetters?_eq_some_iff.mpr ⟨word.reverse, ?_, hword⟩, ?_⟩
    · rw [List.reverse_append, List.reverse_append, List.dropWhile_append_of_pos (by simpa)]
      obtain ⟨c, cs, hcs⟩ := List.exists_cons_of_ne_nil
        (show word.reverse ≠ [] from fun h => by rw [h] at hword; cases hword)
      rw [hcs] at hword ⊢
      have hblank : Text.isBlank c = false :=
        isBlank_of_foldLetter (by decide) (List.cons.inj hword).1
      rw [List.cons_append, List.dropWhile_cons, hblank]
      rfl
    · rwa [List.head?_reverse]

end OrderText

/-! ## The text of an ordering by aliases -/

/-- The text of the ordering term for the alias at an index. -/
def aliasText (index : Nat) (descending : Bool) : String :=
  orderAlias index ++ if descending then " DESC" else ""

/-- The clause that orders by aliases in the given directions. -/
def aliasClause (directions : List Bool) : String :=
  if directions.isEmpty then ""
  else " ORDER BY " ++ ", ".intercalate (directions.mapIdx aliasText)

/-- The terms from an index on, each behind a comma. -/
def aliasTail : Nat → List Bool → String
  | _, [] => ""
  | index, d :: ds => ", " ++ aliasText index d ++ aliasTail (index + 1) ds

/-- Aliases with separators are the first one and the tail behind it. -/
theorem intercalate_aliasText (index : Nat) (d : Bool) (ds : List Bool) :
    ", ".intercalate ((d :: ds).mapIdx fun i => aliasText (index + i))
      = aliasText index d ++ aliasTail (index + 1) ds := by
  induction ds generalizing index d with
  | nil => simp [aliasTail]
  | cons d' ds ih =>
    have := ih (index + 1) d'
    simp only [List.mapIdx_cons, Nat.add_assoc, Nat.add_comm 1, Nat.add_zero] at this ⊢
    rw [String.intercalate_cons_cons, this, aliasTail, String.append_assoc, String.append_assoc]

/-- What stands behind an alias begins with a comma. -/
theorem head?_aliasTail (index : Nat) (ds : List Bool) :
    ∀ c ∈ (aliasTail index ds).toList.head?, c = ',' := by
  cases ds <;> simp [aliasTail]

/-- A direction and the terms behind it are told apart by the first character after the alias. -/
theorem direction_injective {d d' : Bool} {index : Nat} {ds ds' : List Bool}
    (h : (if d then " DESC" else "") ++ aliasTail index ds
      = (if d' then " DESC" else "") ++ aliasTail index ds') :
    d = d' ∧ aliasTail index ds = aliasTail index ds' := by
  have hblank : ∀ {ds ds' : List Bool}, " DESC" ++ aliasTail index ds ≠ aliasTail index ds' := by
    intro ds ds' h
    have := head?_aliasTail index ds' ' ' (by simp [← h])
    cases this
  -- A direction begins with a blank and what stands behind it with a comma.
  cases d <;> cases d'
  · exact ⟨rfl, by simpa using h⟩
  · exact absurd (by simpa using h.symm) hblank
  · exact absurd (by simpa using h) hblank
  · exact ⟨rfl, (String.append_right_inj _).mp h⟩

/-- The directions of the aliases can be read off the text behind the first. -/
theorem aliasTail_injective {index : Nat} {ds ds' : List Bool}
    (h : aliasTail index ds = aliasTail index ds') : ds = ds' := by
  have hne : ∀ i d (ds : List Bool), aliasTail i (d :: ds) ≠ "" := by
    intro i d ds h
    simp [aliasTail] at h
  -- Both texts are read from their first alias on.
  induction ds generalizing index ds' with
  | nil =>
    cases ds' with
    | nil => rfl
    | cons d' ds' => exact absurd h.symm (hne index d' ds')
  | cons d ds ih =>
    cases ds' with
    | nil => exact absurd h (hne index d ds)
    | cons d' ds' =>
      simp only [aliasTail, aliasText, String.append_assoc, String.append_right_inj] at h
      obtain ⟨rfl, htail⟩ := direction_injective h
      rw [ih htail]

/-- The clause begins with the first alias. -/
theorem aliasClause_cons (d : Bool) (ds : List Bool) :
    aliasClause (d :: ds) = " ORDER BY " ++ (aliasText 0 d ++ aliasTail 1 ds) := by
  have := intercalate_aliasText 0 d ds
  simp only [Nat.zero_add] at this
  rw [aliasClause, if_neg (by simp), this]

/-- The directions of an ordering by aliases can be read off its clause. -/
theorem aliasClause_injective {ds ds' : List Bool} (h : aliasClause ds = aliasClause ds') :
    ds = ds' := by
  have hne : ∀ d ds, aliasClause (d :: ds) ≠ "" := by
    intro d ds h
    simp [aliasClause_cons] at h
  -- Only a query without directions has no clause.
  cases ds with
  | nil =>
    cases ds' with
    | nil => rfl
    | cons d' ds' => exact absurd h.symm (hne d' ds')
  | cons d ds =>
    cases ds' with
    | nil => exact absurd h (hne d ds)
    | cons d' ds' =>
      simp only [aliasClause_cons, aliasText, String.append_assoc, String.append_right_inj] at h
      obtain ⟨rfl, htail⟩ := direction_injective h
      rw [aliasTail_injective htail]

/-- Texts of the caller are joined to pieces without parameters. -/
theorem outcome_join_verbatim (separator : String) (texts : List String) :
    ∃ ps, (Emission.join separator (texts.map .verbatim)).outcome = .ok ps ∧
      Piece.paramCount ps = 0 ∧
      ∀ style position, Piece.renderFrom style position ps = separator.intercalate texts := by
  induction texts with
  | nil => exact ⟨[], rfl, rfl, fun _ _ => rfl⟩
  | cons text texts ih =>
    -- A separator stands only before a further text.
    cases texts with
    | nil => exact ⟨[.verbatim text], rfl, rfl, fun _ _ => by simp⟩
    | cons text' texts =>
      obtain ⟨ps, hps, hcount, hrender⟩ := ih
      refine ⟨.verbatim text :: .sql separator :: ps, ?_, hcount, fun style position => ?_⟩
      · exact Emission.outcome_append_of_ok (Emission.outcome_verbatim text)
          (Emission.outcome_append_of_ok (Emission.outcome_sql separator) hps)
      · simp only [Piece.renderFrom_verbatim, Piece.renderFrom_sql, hrender,
          String.intercalate_cons_cons, String.append_assoc]

/-- The orderings by aliases are texts of their own. -/
theorem mapIdx_aliasOrder (terms : List (List Char)) :
    terms.mapIdx aliasOrder
      = ((terms.map OrderText.isDescending).mapIdx aliasText).map .verbatim := by
  apply List.ext_getElem
  · simp
  · intro i hi hi'
    simp [aliasOrder, aliasText]

/-- The clause that orders by the aliases of terms is written in their directions. -/
theorem outcome_aliasOrders (terms : List (List Char)) :
    ∃ ps, (Emission.clause " ORDER BY " ", " (terms.mapIdx aliasOrder)).outcome = .ok ps ∧
      Piece.paramCount ps = 0 ∧ ∀ style position,
        Piece.renderFrom style position ps = aliasClause (terms.map OrderText.isDescending) := by
  obtain ⟨ps, hps, hcount, hrender⟩ :=
    outcome_join_verbatim ", " ((terms.map OrderText.isDescending).mapIdx aliasText)
  rw [← mapIdx_aliasOrder] at hps
  unfold Emission.clause aliasClause
  cases terms with
  | nil => exact ⟨[], rfl, rfl, fun _ _ => rfl⟩
  | cons term terms =>
    refine ⟨.sql " ORDER BY " :: ps, ?_, hcount, fun style position => ?_⟩
    · rw [if_neg (by simp)]
      exact Emission.outcome_append_of_ok (Emission.outcome_sql _) hps
    · rw [Piece.renderFrom_sql, hrender]
      rfl

/-! ## The projections and the ordering -/

/-- The text of an emission that succeeds is its rendered pieces. -/
theorem outcome_asText {e : Emission} {ps : List Piece} (h : e.outcome = .ok ps)
    (style : ParamStyle) : (e.asText style).outcome = .ok (Piece.render style ps) := by
  rw [Emission.asText, Traced.outcome_bind_of_ok h]
  rfl

/-- The terms that an ordering is split into when parameters are written in a style. -/
def orderTerms (s : Settings) (style : ParamStyle) (orders : List OrderTerm) :
    Except Fault (List (List Char)) :=
  (orderTexts style (orders.map (·.emit (s.withStyle style)))).outcome

/-- The term holds more than directions and blanks. -/
def OrderText.hasExpression (term : List Char) : Bool :=
  !(bareTerm term).isEmpty

/-- The terms that projections are made from are those with an expression. -/
theorem distinctProjections_ok {o : Options} {columns projections : List Expr}
    {orders : List OrderTerm}
    (h : (distinctProjections o columns orders).outcome = .ok projections) :
    ∃ partition terms, orderTerms o.choices .inline orders = .ok terms ∧
      projections = (terms.filter OrderText.hasExpression).mapIdx (fun i t =>
        aliasProjection partition i (String.ofList (OrderText.bareTerm t))) ++ columns := by
  obtain ⟨s, hs, h⟩ := Traced.outcome_bind_ok h
  rw [Traced.outcome_ofExcept, o.settings_eq] at hs
  -- The check of the settings comes first.
  split at hs
  · cases hs
  · obtain rfl := Except.ok.inj hs
    split at h
    · cases h
    · obtain ⟨partition, -, h⟩ := Traced.outcome_bind_ok h
      obtain ⟨terms, hterms, h⟩ := Traced.outcome_bind_ok h
      rw [emitOrders_eq_map] at hterms
      refine ⟨partition, terms, hterms, ?_⟩
      have hbare : (terms.map OrderText.bareTerm).filter (!·.isEmpty)
          = (terms.filter OrderText.hasExpression).map OrderText.bareTerm :=
        List.filter_map
      rw [← Except.ok.inj h, hbare]
      congr 1
      apply List.ext_getElem <;> simp

/-- The query for distinct rows of a table. -/
def distinctQuery (table : TableRef) (projections : List Expr) (orders : List OrderTerm) : Select :=
  { Select.ofCore
      { Core.empty with distinct := true, projections, source := some (.ofTable table) } with
    orders }

/-- A projection for an ordering term is marked. -/
theorem isMarked_aliasProjection (s : Settings) (partition : String) (index : Nat) (term : String) :
    ∃ ps, ((aliasProjection partition index term).emit s).outcome = .ok ps ∧
      Piece.isMarked ps = true := by
  refine ⟨_, rfl, ?_⟩
  simp only [Piece.isMarked, Piece.render_eq_renderFrom, Piece.renderFrom_verbatim,
    Piece.renderFrom_nil, String.append_assoc, String.toList_append, windowMarker]
  simp [occursIn]

/-- With a projection for an ordering term a query is ordered by the aliases of its terms. -/
theorem orderedParts_distinctQuery {s : Settings} {table : TableRef} {partition term : String}
    {projections columns : List Expr} {orders : List OrderTerm} (hne : orders ≠ [])
    (hfirst : projections = aliasProjection partition 0 term :: columns) {t : QueryParts}
    (h : ((distinctQuery table projections orders).orderedParts s).outcome = .ok t) :
    ∃ terms, orderTerms s .questionMark orders = .ok terms ∧
      t = { (distinctQuery table projections []).parts s with
        orders := terms.mapIdx aliasOrder } := by
  obtain ⟨ps, hps, hmarked⟩ :=
    isMarked_aliasProjection (s.withStyle .questionMark) partition 0 term
  have hprojections :
      (distinctQuery table projections orders).cores.flatMap (·.projections) = projections :=
    List.append_nil _
  rw [Select.orderedParts, Select.probe_eq s hne, hprojections] at h
  -- The ordering is left as it is only where there is none or nothing is marked.
  obtain ⟨rfl, hempty | hunmarked⟩ | ⟨terms, -, hterms, rfl⟩ :=
    QueryParts.orderedByAlias_inversion h
  · rw [Select.parts_eq] at hempty
    exact absurd (List.map_eq_nil_iff.mp hempty) hne
  · rw [hfirst, List.map_cons, anyMarked_cons_of_ok hps, hmarked] at hunmarked
    cases hunmarked
  · exact ⟨terms, hterms, rfl⟩

/-- A query for distinct rows is written as its core with its ordering after it. -/
theorem oracle_distinctQuery (s : Settings) (table : TableRef) (projections : List Expr)
    (orders : List Emission) :
    QueryParts.oracle s { (distinctQuery table projections []).parts s with orders }
      = emitCoreParts s ((distinctQuery table projections []).parts s).cores
        ++ .clause " ORDER BY " ", " orders := by
  rw [QueryParts.oracle_eq_standard (.inr ⟨rfl, rfl⟩), QueryParts.standard]
  have hbounds : emitBounds s none none = .empty := by
    unfold emitBounds
    split <;> rfl
  show _ ++ _ ++ emitBounds s none none ++ .empty = _
  rw [hbounds, Emission.append_empty, Emission.append_empty]

/-- The options without a signature. -/
def Options.unsigned (o : Options) : Options :=
  { o with signatureComment := false }

/-- `c` is `c₀` with an ordering by aliases after it: one for each term, and descending if the term
is. -/
def OrderedByAliases (o : Options) (c₀ c : Compiled) (terms : List (List Char)) : Prop :=
  ∃ directions : List Bool,
    List.Forall₂ (fun term d => OrderText.EndsInDesc term ↔ d = true) terms directions ∧
    c = ⟨c₀.sql ++ aliasClause directions ++ o.closing, c₀.params⟩

/-- The directions of terms are those that the ends of the terms say. -/
theorem directions_unique {terms : List (List Char)} {directions : List Bool} :
    List.Forall₂ (fun term d => OrderText.EndsInDesc term ↔ d = true) terms directions
      ↔ terms.map OrderText.isDescending = directions := by
  have hdirection : ∀ (term : List Char) (d : Bool),
      (OrderText.EndsInDesc term ↔ d = true) ↔ OrderText.isDescending term = d := by
    intro term d
    rw [← OrderText.isDescending_iff]
    exact Bool.eq_iff_iff.symm
  simp only [hdirection]
  rw [← List.forall₂_map_left_iff, List.forall₂_eq_eq_eq]

/-- A query with a projection for an ordering term is compiled as without its ordering, with the
ordering by aliases after it. -/
theorem compile_distinctQuery {o : Options} (hd : o.target.dialect = .oracle) {table : TableRef}
    {partition term : String} {projections columns : List Expr} {orders : List OrderTerm}
    (hne : orders ≠ []) (hfirst : projections = aliasProjection partition 0 term :: columns)
    {layout : String → String} (hlayout : o.Keeps layout) {c : Compiled}
    (hc : (compile o (.select (distinctQuery table projections orders)) layout).outcome = .ok c) :
    ∃ c₀ terms,
      (compile o.unsigned (.select (distinctQuery table projections [])) layout).outcome = .ok c₀ ∧
      orderTerms o.choices .questionMark orders = .ok terms ∧
      c = ⟨c₀.sql ++ aliasClause (terms.map OrderText.isDescending) ++ o.closing, c₀.params⟩ := by
  obtain ⟨hmax, ps, hps, rfl⟩ := (outcome_compile_iff hlayout).mp hc
  have horacle : o.choices.dialect = .oracle := hd
  rw [Statement.emit, Select.emit_oracle horacle] at hps
  obtain ⟨t, ht, hps⟩ := Traced.outcome_bind_ok hps
  obtain ⟨terms, hterms, rfl⟩ := orderedParts_distinctQuery hne hfirst ht
  rw [oracle_distinctQuery] at hps
  obtain ⟨core, clause, hcore, hclause, rfl⟩ := Emission.outcome_append_ok hps
  refine ⟨Piece.compiled o.choices.paramStyle core, terms, ?_, hterms, ?_⟩
  · refine (outcome_compile_unsigned_iff (o := o.unsigned) rfl hlayout).mpr ⟨hmax, core, ?_, rfl⟩
    show (Select.emit o.choices _).outcome = _
    rw [Select.emit_oracle horacle, Select.orderedParts_of_orders_nil rfl, Traced.ok_bind]
    have hbare := oracle_distinctQuery o.choices table projections []
    have hnone : Emission.clause " ORDER BY " ", " [] = .empty := rfl
    rw [hnone, Emission.append_empty] at hbare
    exact (congrArg Traced.outcome hbare).trans hcore
  · obtain ⟨ps, hps, hcount, hrender⟩ := outcome_aliasOrders terms
    obtain rfl : clause = ps := Except.ok.inj (hclause.symm.trans hps)
    simp only [Piece.compiled, Piece.render_eq_renderFrom, Piece.renderFrom_append, hrender,
      Piece.params_append, Piece.params_of_paramCount hcount, List.append_nil]

/-! ## Where both agree -/

/-- A placeholder of the form `?` also stands where a parameter should have been a literal. -/
theorem render_inline (ps : List Piece) :
    Piece.render .inline ps = Piece.render .questionMark ps := by
  -- The styles differ in parameters only, and there are none.
  have htexts : ∀ position, Piece.texts .inline position ps
      = Piece.texts .questionMark position ps := by
    induction ps with
    | nil => exact fun _ => rfl
    | cons p ps ih =>
      intro position
      cases p <;> simp only [Piece.texts, ih] <;> rfl
  rw [Piece.render, htexts]
  rfl

/-- An ordering without parameters is split into the same terms in both styles. -/
theorem orderTerms_inline (s : Settings) {orders : List OrderTerm}
    (h : ∀ t ∈ orders, ∀ n, (Node.expr t.expr).Visits n → n.isParam = false) :
    orderTerms s .inline orders = orderTerms s .questionMark orders := by
  have horders : orders.map (·.emit (s.withStyle .inline))
      = orders.map (·.emit (s.withStyle .questionMark)) :=
    List.map_congr_left fun t ht =>
      congrArg (· ++ emitDirection t.direction) (Node.emit_inline s _ (h t ht))
  have htexts : ∀ es, orderTexts .inline es = orderTexts .questionMark es := by
    intro es
    induction es with
    | nil => rfl
    | cons e es ih => simp only [orderTexts, ih, Emission.asText, render_inline]
  rw [orderTerms, orderTerms, horders, htexts]

/-- A query is ordered by the aliases of exactly those terms that have its directions. -/
theorem orderedByAliases_iff {o : Options} {c₀ c : Compiled} {terms : List (List Char)}
    (hc : c = ⟨c₀.sql ++ aliasClause (terms.map OrderText.isDescending) ++ o.closing, c₀.params⟩)
    (terms' : List (List Char)) :
    OrderedByAliases o c₀ c terms'
      ↔ terms.map OrderText.isDescending = terms'.map OrderText.isDescending := by
  unfold OrderedByAliases
  simp only [directions_unique, exists_eq_left', hc]
  constructor
  · intro h
    have hsql := congrArg Compiled.sql h
    rw [String.append_left_inj, String.append_right_inj] at hsql
    exact aliasClause_injective hsql
  · intro h
    rw [h]

/-- Terms have the same directions if they end alike, one by one. -/
theorem directions_eq_iff {terms terms' : List (List Char)} :
    terms.map OrderText.isDescending = terms'.map OrderText.isDescending
      ↔ List.Forall₂ (fun t t' => OrderText.EndsInDesc t ↔ OrderText.EndsInDesc t') terms
        terms' := by
  simp only [← OrderText.isDescending_iff, ← Bool.eq_iff_iff]
  rw [← List.forall₂_eq_eq_eq, List.forall₂_map_left_iff, List.forall₂_map_right_iff]

/-- Leaving out a term changes the number of directions. -/
theorem directions_filter_iff {terms : List (List Char)} {p : List Char → Bool} :
    terms.map OrderText.isDescending = (terms.filter p).map OrderText.isDescending
      ↔ ∀ t ∈ terms, p t = true := by
  constructor
  · intro h
    have hlength := congrArg List.length h
    rw [List.length_map, List.length_map] at hlength
    exact List.length_filter_eq_length_iff.mp hlength.symm
  · intro h
    rw [List.filter_eq_self.mpr h]

/-- The ordering of a query for distinct rows has an alias for every term that its orders are split
into with placeholders. The projections are made of the terms with an expression that the orders are
split into with literals. So the ordering is by these projections, in the directions of their terms,
exactly if both are as many and have the same directions. Without parameters that is so exactly if
every term has an expression. -/
theorem compile_orderedByAliases {o : Options} (hd : o.target.dialect = .oracle)
    {table : TableRef} {columns projections : List Expr} {orders : List OrderTerm}
    {layout : String → String} (hlayout : o.Keeps layout) {c : Compiled}
    (hprojections : (distinctProjections o columns orders).outcome = .ok projections)
    (hmore : columns.length < projections.length)
    (hc : (compile o (.select (distinctQuery table projections orders)) layout).outcome = .ok c) :
    ∃ c₀ partition inlined written,
      (compile o.unsigned (.select (distinctQuery table projections [])) layout).outcome = .ok c₀ ∧
      orderTerms o.choices .inline orders = .ok inlined ∧
      orderTerms o.choices .questionMark orders = .ok written ∧
      projections = (inlined.filter OrderText.hasExpression).mapIdx (fun i t =>
        aliasProjection partition i (String.ofList (OrderText.bareTerm t))) ++ columns ∧
      OrderedByAliases o c₀ c written ∧
      (OrderedByAliases o c₀ c (inlined.filter OrderText.hasExpression) ↔
        List.Forall₂ (fun t t' => OrderText.EndsInDesc t ↔ OrderText.EndsInDesc t') written
          (inlined.filter OrderText.hasExpression)) ∧
      ((∀ t ∈ orders, ∀ n, (Node.expr t.expr).Visits n → n.isParam = false) →
        (OrderedByAliases o c₀ c (inlined.filter OrderText.hasExpression) ↔
          ∀ t ∈ inlined, OrderText.hasExpression t = true)) := by
  obtain ⟨partition, inlined, hinlined, hsources⟩ := distinctProjections_ok hprojections
  -- There are more projections than columns, so the first is made from a term.
  obtain ⟨t, ts, hterms⟩ := List.exists_cons_of_ne_nil
    (show inlined.filter OrderText.hasExpression ≠ [] from fun hnil => by
      rw [hsources, hnil] at hmore
      exact absurd hmore (Nat.lt_irrefl _))
  have hne : orders ≠ [] := by
    rintro rfl
    obtain rfl : [] = inlined := Except.ok.inj hinlined
    cases hterms
  have hfirst := hsources
  rw [hterms, List.mapIdx_cons, List.cons_append] at hfirst
  obtain ⟨c₀, written, hc₀, hwritten, hclause⟩ := compile_distinctQuery hd hne hfirst hlayout hc
  have hiff := orderedByAliases_iff hclause
  refine ⟨c₀, partition, inlined, written, hc₀, hinlined, hwritten, hsources, (hiff _).mpr rfl,
    (hiff _).trans directions_eq_iff, fun hparams => ?_⟩
  obtain rfl : inlined = written := by
    rw [orderTerms_inline _ hparams, hwritten] at hinlined
    exact (Except.ok.inj hinlined).symm
  exact (hiff _).trans directions_filter_iff

set_option maxRecDepth 4000 in
/-- Two terms of one text are ordered by two aliases, the first one descending. -/
theorem orderedByAliases_of_two_terms :
    let o : Options := { format := false, target := ⟨some .oracle⟩, signatureComment := false }
    let orders : List OrderTerm := [⟨.raw "a DESC,b", none⟩]
    let projections : List Expr :=
      [aliasProjection "id" 0 "a", aliasProjection "id" 1 "b", .col "id"]
    let c : Compiled := ⟨"SELECT DISTINCT FIRST_VALUE(a) OVER (PARTITION BY id ORDER BY a) AS "
      ++ "alias_0__, FIRST_VALUE(b) OVER (PARTITION BY id ORDER BY b) AS alias_1__, id FROM t "
      ++ "ORDER BY alias_0__ DESC, alias_1__", []⟩
    (distinctProjections o [.col "id"] orders).outcome = .ok projections ∧
      (compile o (.select (distinctQuery { name := "t" } projections orders))).outcome = .ok c ∧
      ∃ c₀, (compile o.unsigned (.select (distinctQuery { name := "t" } projections []))).outcome
          = .ok c₀ ∧
        OrderedByAliases o c₀ c ["a DESC".toList, "b".toList] := by
  intro o orders projections c
  have hprojections : (distinctProjections o [.col "id"] orders).outcome = .ok projections := by
    cbv
  have hc : (compile o (.select (distinctQuery { name := "t" } projections orders))).outcome
      = .ok c := by
    cbv
  have hterms : orderTerms o.choices .inline orders = .ok ["a DESC".toList, "b".toList] := by
    cbv
  refine ⟨hprojections, hc, ?_⟩
  obtain ⟨c₀, -, inlined, -, hc₀, hinlined, -, -, -, -, hiff⟩ :=
    compile_orderedByAliases rfl (Options.keeps_of_unformatted rfl _) hprojections (by decide) hc
  obtain rfl := Except.ok.inj (hterms.symm.trans hinlined)
  refine ⟨c₀, hc₀, (hiff ?_).mpr ?_⟩
  · rintro t ht
    obtain rfl := List.mem_singleton.mp ht
    exact Node.forall_visits_iff.mpr ⟨rfl, fun c hc => by cases hc⟩
  · decide

set_option maxRecDepth 4000 in
/-- What stands between two commas has no projection if it is empty, and yet it is counted: the
query is ordered by three aliases, and the third names no projection. -/
theorem not_orderedByAliases_of_blank :
    let o : Options := { format := false, target := ⟨some .oracle⟩, signatureComment := false }
    let orders : List OrderTerm := [⟨.raw "a,,b", none⟩]
    let projections : List Expr :=
      [aliasProjection "id" 0 "a", aliasProjection "id" 1 "b", .col "id"]
    let c₀ : Compiled := ⟨"SELECT DISTINCT FIRST_VALUE(a) OVER (PARTITION BY id ORDER BY a) AS "
      ++ "alias_0__, FIRST_VALUE(b) OVER (PARTITION BY id ORDER BY b) AS alias_1__, id FROM t", []⟩
    let c : Compiled := ⟨c₀.sql ++ " ORDER BY alias_0__, alias_1__, alias_2__", []⟩
    (distinctProjections o [.col "id"] orders).outcome = .ok projections ∧
      (compile o (.select (distinctQuery { name := "t" } projections orders))).outcome = .ok c ∧
      (compile o.unsigned (.select (distinctQuery { name := "t" } projections []))).outcome
        = .ok c₀ ∧
      ¬OrderedByAliases o c₀ c ["a".toList, "b".toList] := by
  intro o orders projections c₀ c
  refine ⟨by cbv, by cbv, by cbv, fun h => ?_⟩
  have hc : c = ⟨c₀.sql ++ aliasClause (["a".toList, [], "b".toList].map OrderText.isDescending)
      ++ o.closing, c₀.params⟩ := by
    cbv
  have := (orderedByAliases_iff hc _).mp h
  revert this
  decide

end SqlCompiler
