import Mathlib
import SqlCompiler.Proofs.Brackets.Outside
import SqlCompiler.Proofs.Comments.Expression
import SqlCompiler.Proofs.Nodes.Pieces
import SqlCompiler.Proofs.Ordering.BareTerms

/-!
# Expressions are well bracketed

Outside quotes, the parentheses of an expression's text match and its commas stand inside them, as
long as the caller brings no text that is not a plain name (`Expr.wellBracketed_emit`). If its names
and strings hold no parentheses and commas either, then the text of an ordering by it is one term.
-/

namespace SqlCompiler

open OrderText (splitTerms splitTerms_eq_singleton directionChars)

/-! ## Brackets -/

/-- Outside quotes the parentheses of a text match and its commas stand inside them: all quotes are
closed, never more parentheses close than have been opened and in the end as many, and more have
been opened than closed before a comma. -/
structure WellBracketed (text : List Char) : Prop where
  closed : Zone.after .code text = .code
  nonnegative : ∀ front back, outside .code text = front ++ back → front.count ')' ≤ front.count '('
  balanced : (outside .code text).count '(' = (outside .code text).count ')'
  commas : ∀ front back, outside .code text = front ++ ',' :: back →
    front.count ')' < front.count '('

/-- A text that leads from outside parentheses to outside them is well bracketed. -/
theorem Leads.wellBracketed {text : List Char} (h : Leads 0 0 text) : WellBracketed text where
  closed := h.zone
  nonnegative front back hsplit := by
    have hdepth := h.depth
    rw [hsplit, List.foldl_append] at hdepth
    -- A lost depth would stay lost, but in the end it is zero.
    cases hfront : front.foldl nest (some 0) with
    | none =>
      rw [hfront, foldl_nest_none] at hdepth
      cases hdepth
    | some k =>
      have := count_of_nest hfront
      omega
  balanced := by
    have := count_of_nest h.depth
    omega
  commas front back hsplit := by
    have hdepth := h.depth
    rw [hsplit] at hdepth
    obtain ⟨k, hpos, hfront, -⟩ := comma_of_nest hdepth
    have := count_of_nest hfront
    omega

/-- A fixed text has no quotes, and a text of the caller no quotes, parentheses or commas. -/
def Piece.IsPlain : Piece → Prop
  | .sql text => IsUnquoted text
  | .verbatim text => ∀ c ∈ text.toList, isNeutral c = true
  | _ => True

/-- The pieces of an expression are plain if those of its nodes are. -/
theorem nodeLaw_isPlain : NodeLaw fun _ _ ps => ∀ p ∈ ps, p.IsPlain :=
  nodeLaw_each (fun _ h => h) fun _ h c hc => isNeutral_of_class (by decide) (h c hc)

/-- A plain piece keeps the depth of parentheses outside quotes, or changes it as it fits. -/
theorem Piece.IsPlain.follows {p : Piece} (h : p.IsPlain) (style : ParamStyle) :
    p.Follows Leads style := by
  cases p with
  | sql text =>
    intro i j hfits depth
    refine leads_of_unquoted (fun c hc => ?_) (foldl_nest_add hfits.1 depth)
    exact ⟨fun heq => h.1 (heq ▸ hc), fun heq => h.2 (heq ▸ hc)⟩
  | verbatim text => exact fun depth _ => leads_of_neutral h depth
  | ident name => exact fun depth _ => leads_identifier name depth
  | string content => exact fun depth _ => leads_doubled .string content depth
  | param name value => exact fun depth position => leads_of_neutral (isNeutral_marker _ _) depth

/-! ## Texts of the caller -/

/-- The expression brings no text of the caller but names of functions and types, without quotes,
parentheses and commas. -/
def Expr.bringsNames : Expr → Bool
  | .raw _ => false
  | .function name _ _ => name.toList.all isNeutral
  | .cast _ dataType => dataType.toList.all isNeutral
  | _ => true

/-- The node brings no text of the caller but plain names. -/
def Node.bringsNames : Node → Bool
  | .expr e => e.bringsNames
  | .query _ => true

/-- A node that brings plain names only has plain pieces of its own. -/
theorem Node.isPlain_of_mem {s : Settings} {n : Node} (h : n.bringsNames = true) {p : Piece}
    (hp : p ∈ n.ownPieces s) : p.IsPlain := by
  -- Only a text of the caller can fail to be plain.
  obtain ⟨name, rfl⟩ | ⟨content, rfl⟩ | ⟨name, value, rfl⟩ | ⟨text, htext, rfl⟩ :=
    ownPieces_cases hp
  · trivial
  · trivial
  · trivial
  · obtain e | q := n
    · -- Raw text is excluded; functions and casts bring a name each.
      cases e with
      | raw text' => cases h
      | function name args distinct =>
        obtain rfl := Option.mem_some_iff.mp htext
        exact List.all_eq_true.mp h
      | cast operand dataType =>
        obtain rfl := Option.mem_some_iff.mp htext
        exact List.all_eq_true.mp h
      | _ => cases htext
    · cases htext

/-! ## Texts without parentheses and commas in names and strings -/

/-- What the piece is made from: a text, a name or the content of a string. -/
def Piece.content : Piece → String
  | .sql text => text
  | .verbatim text => text
  | .ident name => name
  | .string content => content
  | .param _ _ => ""

/-- The parentheses of a text, quoted or not, lead from one depth to another, with its commas inside
them. -/
def Spans (i j : Nat) (text : List Char) : Prop :=
  text.foldl nest (some i) = some j

/-- Texts that span depths do so one after the other. -/
theorem textLaw_spans : TextLaw Spans where
  nil _ := rfl
  append hcs hds := by rw [Spans, List.foldl_append, hcs, hds]

/-- Doubling a quote brings no other characters. -/
theorem mem_double {quote c : Char} {cs : List Char} (h : c ∈ Text.double quote cs) : c ∈ cs := by
  -- A quote is written twice, any other character once.
  induction cs with
  | nil => cases h
  | cons d cs ih =>
    rw [Text.double] at h
    split at h
    · next hd =>
      simp only [List.mem_cons] at h ⊢
      obtain rfl | rfl | h := h
      · exact .inl hd.symm
      · exact .inl hd.symm
      · exact .inr (ih h)
    · exact (List.mem_cons.mp h).elim (fun h => List.mem_cons.mpr (.inl h)) fun h =>
        List.mem_cons_of_mem d (ih h)

/-- A flat text stays flat in quotes that are flat. -/
theorem isFlat_doubled {quote : Char} (hquote : isFlat quote = true) {s : String}
    (h : ∀ c ∈ s.toList, isFlat c = true) :
    ∀ c ∈ (Text.doubled quote s).toList, isFlat c = true := by
  intro c hc
  rw [Text.doubled, String.toList_ofList, List.mem_cons, List.mem_append, List.mem_singleton] at hc
  obtain rfl | hc | rfl := hc
  · exact hquote
  · exact h c (mem_double hc)
  · exact hquote

/-- A piece with a flat content is written flat. -/
theorem Piece.follows_spans {p : Piece}
    (h : (∃ text, p = .sql text) ∨ ∀ c ∈ p.content.toList, isFlat c = true) (style : ParamStyle) :
    p.Follows Spans style := by
  cases p with
  | sql text => exact fun i j hfits depth => foldl_nest_add hfits.1 depth
  | verbatim text =>
    exact fun depth _ => foldl_nest_of_flat (h.resolve_left fun ⟨_, h⟩ => by cases h) depth
  | ident name =>
    intro depth position
    have hname := h.resolve_left fun ⟨_, h⟩ => by cases h
    refine foldl_nest_of_flat ?_ depth
    show ∀ c ∈ (Identifier.text name).toList, _
    -- A name is written as it is or in quotes, which are flat.
    unfold Identifier.text
    split
    · exact hname
    · exact isFlat_doubled (by decide) hname
  | string content =>
    have hcontent := h.resolve_left fun ⟨_, h⟩ => by cases h
    exact fun depth _ => foldl_nest_of_flat (isFlat_doubled (by decide) hcontent) depth
  | param name value =>
    exact fun depth position => foldl_nest_of_flat
      (fun c hc => isFlat_of_isNeutral (isNeutral_marker _ _ c hc)) depth

/-- The pieces of an expression span depths if those of its nodes do. -/
theorem nodeLaw_spans (style : ParamStyle) :
    NodeLaw fun _ _ ps => ∀ p ∈ ps, p.Follows Spans style :=
  nodeLaw_each (fun text _ => Piece.follows_spans (.inl ⟨text, rfl⟩) style) fun text h =>
    Piece.follows_spans (p := .verbatim text) (.inr fun c hc =>
      isFlat_of_isNeutral (isNeutral_of_class (by decide) (h c hc))) style

/-! ## Texts are not empty -/

/-- Something is written. -/
def Inked (s : Settings) (e : Emission) : Prop :=
  Writes s e (· ≠ [])

namespace Inked

variable {s : Settings}

/-- Something is written if something is written first. -/
theorem left {a : Emission} (ha : Inked s a) (b : Emission) : Inked s (a ++ b) := by
  have hb : Writes s b fun _ => True := fun _ _ _ => trivial
  exact Writes.append (fun cs ds hcs _ => List.append_ne_nil_of_left_ne_nil hcs ds) ha hb

/-- Something is written if something is written last. -/
theorem right (a : Emission) {b : Emission} (hb : Inked s b) : Inked s (a ++ b) := by
  have ha : Writes s a fun _ => True := fun _ _ _ => trivial
  exact Writes.append (fun cs ds _ hds => List.append_ne_nil_of_right_ne_nil cs hds) ha hb

/-- A fixed text that is not empty is written. -/
theorem sql {text : String} (h : text.toList ≠ []) : Inked s (.sql text) :=
  Writes.piece fun _ => h

/-- It is known how the text begins, so there is one. -/
theorem of_begins {e : Emission} {P : Prop} (h : Begins s e P) : Inked s e :=
  h.imp fun _ hcs => hcs.1

/-- Something is written if both words are not empty. -/
theorem negatable (negated : Bool) {positive negative : String} (hp : positive.toList ≠ [])
    (hn : negative.toList ≠ []) : Inked s (negatable negated positive negative) := by
  cases negated
  · exact sql hp
  · exact sql hn

/-- One list of literals ends in a parenthesis. -/
theorem single (operand : Emission) (negated : Bool) (values : List Literal) :
    Inked s (InValues.single s operand negated values) :=
  right _ (sql (by decide))

/-- A test for literals writes something, however many there are. -/
theorem inLiterals (operand : Emission) (negated : Bool) (values : List Literal) :
    Inked s (InValues.emit s operand negated values) := by
  -- No literals, lists that are split, or one list.
  unfold InValues.emit
  split
  · split
    · exact sql (by decide)
    · exact right _ (sql (by decide))
  · split
    · split
      · exact right _ (right _ (sql (by decide)))
      · exact single operand negated values
    · exact single operand negated values

end Inked

/-- An expression that is no text of the caller writes something. -/
theorem Expr.inked_emit {s : Settings} {e : Expr} (h : ∀ text, e ≠ .raw text) :
    Inked s (e.emit s) := by
  cases e with
  | column relation name => exact .right _ (.of_begins (.ident name))
  | star relation => exact .right _ (.sql (by decide))
  | literal l => exact .of_begins (.literal l)
  | param name value => exact .of_begins (.param name value)
  | raw text => exact absurd rfl (h text)
  | binary left op right =>
    rw [Expr.emit]
    exact .left (.right _ (.sql (by cases op <;> decide))) _
  | unary op operand => exact .left (.sql (by cases op <;> decide)) _
  | isNull operand negated => exact .right _ (.negatable negated (by decide) (by decide))
  | isDistinctFrom left right negated =>
    rw [Expr.emit, emitDistinctFrom]
    split
    · exact .left (.right _ (.negatable negated (by decide) (by decide))) _
    · exact .right _ (.negatable negated (by decide) (by decide))
  | between operand low high negated => exact .left (.right _ (.sql (by decide))) _
  | inList operand list negated =>
    rw [Expr.emit]
    split
    · exact .negatable negated (by decide) (by decide)
    · exact .right _ (.sql (by decide))
  | inValues operand values negated => exact Writes.bind fun l _ => Inked.inLiterals _ negated l
  | inSubquery operand query negated => exact .right _ (.sql (by decide))
  | «exists» query negated => exact .right _ (.sql (by decide))
  | function name args distinct => exact .right _ (.sql (by decide))
  | window f partitionBy orderBy => exact .right _ (.right _ (.sql (by decide)))
  | case operand branches default =>
    rw [Expr.emit]
    split
    · exact Writes.fail _
    · exact .right _ (.sql (by decide))
  | cast operand dataType => exact .right _ (.sql (by decide))
  | grouping inner => exact .right _ (.sql (by decide))
  | named inner name => exact .right _ (.of_begins (.ident name))
  | subquery query => exact .right _ (.sql (by decide))

/-! ## Expressions -/

/-- A direction is written behind an expression. -/
theorem outcome_direction (direction : Option SortDirection) :
    ∃ ps, (emitDirection direction).outcome = .ok ps ∧ ∀ style position,
      (Piece.renderFrom style position ps).toList = directionChars direction := by
  cases direction with
  | none => exact ⟨[], rfl, fun _ _ => rfl⟩
  | some d => exact ⟨[.sql (" " ++ d.text)], rfl, fun _ _ => by simp [directionChars]⟩

/-- A direction has no parentheses and commas. -/
theorem isFlat_directionChars (direction : Option SortDirection) :
    ∀ c ∈ directionChars direction, isFlat c = true := by
  obtain _ | _ | _ := direction
  all_goals exact List.all_eq_true.mp (by decide)

/-- A text whose parentheses nest, with its commas inside them, is one term. -/
theorem splitOrderText_of_nest {text : String} (hne : text.toList ≠ [])
    (h : Spans 0 0 text.toList) : splitOrderText text = [text] := by
  rw [splitOrderText, splitTerms_eq_singleton (whole_of_nest h) hne (getLast?_of_nest h),
    List.map_singleton, String.ofList_toList]

/-- The text of an expression that brings no text of the caller but plain names is well bracketed.
If its names, strings and inlined values hold no parentheses and commas either, the text of an
ordering by it is one term. -/
theorem Expr.wellBracketed_emit {s : Settings} {e : Expr} {ps : List Piece}
    (h : (e.emit s).outcome = .ok ps)
    (hnames : ∀ n, (Node.expr e).Visits n → n.bringsNames = true) :
    (∀ position, WellBracketed (Piece.renderFrom s.paramStyle position ps).toList) ∧
    ((∀ n, (Node.expr e).Visits n → ∀ p ∈ n.ownPieces s, ∀ c ∈ p.content.toList,
        isFlat c = true) →
      ∀ direction, ∃ qs, ((OrderTerm.mk e direction).emit s).outcome = .ok qs ∧ ∀ position,
        splitOrderText (Piece.renderFrom s.paramStyle position qs)
          = [Piece.renderFrom s.paramStyle position qs]) := by
  refine ⟨fun position => ?_, fun hflat direction => ?_⟩
  · have hplain : ∀ p ∈ ps, p.IsPlain :=
      Node.keeps_emit nodeLaw_isPlain (m := .expr e) (fun n hn p hp =>
        List.forall_mem_singleton.mpr (Node.isPlain_of_mem (hnames n hn) hp)) ps h
    exact (Expr.follows_emit textLaw_leads h (fun p hp => (hplain p hp).follows _) 0
      position).wellBracketed
  · have hspans : ∀ p ∈ ps, p.Follows Spans s.paramStyle :=
      Node.keeps_emit (nodeLaw_spans s.paramStyle) (m := .expr e) (fun n hn p hp =>
        List.forall_mem_singleton.mpr (Piece.follows_spans (.inr (hflat n hn p hp)) s.paramStyle))
        ps h
    -- Raw text is the only expression that may write nothing.
    have hraw : ∀ text, e ≠ .raw text := by
      rintro text rfl
      exact absurd (hnames _ .refl) Bool.false_ne_true
    obtain ⟨ds, hds, hdirection⟩ := outcome_direction direction
    refine ⟨ps ++ ds, Emission.outcome_append_of_ok h hds, fun position => ?_⟩
    have htext := Expr.inked_emit hraw ps h position
    have hdepth := Expr.follows_emit textLaw_spans h hspans 0 position
    refine splitOrderText_of_nest ?_ ?_
    · rw [Piece.renderFrom_append, String.toList_append]
      exact List.append_ne_nil_of_left_ne_nil htext _
    · rw [Piece.renderFrom_append, String.toList_append, hdirection, Spans, List.foldl_append,
        hdepth]
      exact foldl_nest_of_flat (isFlat_directionChars direction) 0

/-- A call with a subquery, a string that holds a quote, and a parameter. -/
theorem wellBracketed_of_call :
    let s : Settings := ({} : Options).choices
    let q : Select :=
      { Select.ofCore { Core.empty with
          projections := [.col "A"], source := some (.ofTable { name := "t" }) } with
        orders := [⟨.col "b", none⟩, ⟨.col "c", none⟩] }
    let e : Expr := .function "coalesce" [.subquery q, .literal (.string "it's"), .param "p" none]
      false
    let ps : List Piece := [.verbatim "coalesce", .sql "(", .sql "(", .sql "SELECT ", .ident "A",
      .sql " FROM ", .ident "t", .sql " ORDER BY ", .ident "b", .sql ", ", .ident "c", .sql ")",
      .sql ", ", .string "it's", .sql ", ", .param "p" none, .sql ")"]
    (e.emit s).outcome = .ok ps ∧
      Piece.renderFrom s.paramStyle 1 ps
        = "coalesce((SELECT \"A\" FROM t ORDER BY b, c), 'it''s', ?)" ∧
      WellBracketed (Piece.renderFrom s.paramStyle 1 ps).toList ∧
      ∃ qs, ((OrderTerm.mk e (some .desc)).emit s).outcome = .ok qs ∧
        splitOrderText (Piece.renderFrom s.paramStyle 1 qs)
          = [Piece.renderFrom s.paramStyle 1 qs] := by
  intro s q e ps
  have hps : (e.emit s).outcome = .ok ps := by cbv
  have hnames : Node.allVisited Node.bringsNames 4 (.expr e) = true := by cbv
  have hflat : Node.allVisited (fun n => (n.ownPieces s).all fun p => p.content.toList.all isFlat) 4
      (.expr e) = true := by cbv
  obtain ⟨hbracketed, hterm⟩ :=
    Expr.wellBracketed_emit hps (Node.forall_visits_of_allVisited hnames)
  obtain ⟨qs, hqs, hsplit⟩ := hterm (fun n hn p hp c hc => by
    have hn := Node.forall_visits_of_allVisited hflat n hn
    exact List.all_eq_true.mp (List.all_eq_true.mp hn p hp) c hc) (some .desc)
  exact ⟨hps, by cbv, hbracketed 1, qs, hqs, hsplit 1⟩

end SqlCompiler
