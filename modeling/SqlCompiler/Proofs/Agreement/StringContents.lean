import Mathlib
import SqlCompiler.Proofs.Agreement.Placeholders

/-!
# The contents of strings

For generic SQL, the contents of the string literals of a statement stand in the text in quotes and
decide nothing else. Two statements that differ only in such contents are both refused or have
pieces of the same kinds in the same order (`Statement.emit_twins`), so their texts are the same
segments around the quoted contents.
-/

namespace SqlCompiler

/-- The literals are equal, or both are strings. -/
def Literal.SameButText (l l' : Literal) : Prop :=
  l = l' ∨ ∃ a b, l = .string a ∧ l' = .string b

/-- Literals that differ in text only bind alike. -/
theorem Literal.SameButText.strength_eq {l l' : Literal} (h : l.SameButText l') :
    (Expr.literal l').strength = (Expr.literal l).strength := by
  obtain rfl | ⟨a, b, rfl, rfl⟩ := h
  · rfl
  · rfl

/-- The strings are the contents of one literal in both statements: every relation that holds
between the literals in the same places, and holds of equal literals and strings only, holds of
them. -/
def Statement.ShareLiteral (st st' : Statement) (a b : String) : Prop :=
  ∀ Z : Literal → Literal → Prop, (∀ l l', Z l l' → l.SameButText l') → st.Agree Z st' →
    Z (.string a) (.string b)

/-! ## Pieces that differ in strings -/

/-- The pieces are equal but for related contents of strings and related values of parameters. -/
inductive Piece.Twin (Z : Literal → Literal → Prop) : Piece → Piece → Prop where
  | sql (text : String) : Twin Z (.sql text) (.sql text)
  | verbatim (text : String) : Twin Z (.verbatim text) (.verbatim text)
  | ident (name : String) : Twin Z (.ident name) (.ident name)
  | string {a b : String} (h : Z (.string a) (.string b)) : Twin Z (.string a) (.string b)
  | param {v v' : Option Literal} (name : String) (h : Option.Rel Z v v') :
      Twin Z (.param name v) (.param name v')

/-- Both end in faults, or both yield pieces that are equal but for contents. -/
inductive Twins (Z : Literal → Literal → Prop) :
    Except Fault (List Piece) → Except Fault (List Piece) → Prop where
  | error (e e' : Fault) : Twins Z (.error e) (.error e')
  | ok {ps ps' : List Piece} (h : List.Forall₂ (Piece.Twin Z) ps ps') : Twins Z (.ok ps) (.ok ps')

namespace Twins

variable {Z : Literal → Literal → Prop} {s : Settings}

/-- Single pieces that are equal but for contents. -/
theorem piece {p p' : Piece} (h : p.Twin Z p') : Twins Z (.ok [p]) (.ok [p']) :=
  .ok (.cons h .nil)

/-- Emissions one after the other are twins if each of them is. -/
theorem append {a a' b b' : Emission} (ha : Twins Z a.outcome a'.outcome)
    (hb : Twins Z b.outcome b'.outcome) : Twins Z (a ++ b).outcome (a' ++ b').outcome := by
  rw [Emission.outcome_append, Emission.outcome_append]
  generalize a.outcome = x at ha ⊢
  generalize a'.outcome = x' at ha ⊢
  generalize b.outcome = y at hb ⊢
  generalize b'.outcome = y' at hb ⊢
  -- The first fault counts, so the second emission matters only after pieces.
  cases ha with
  | error e e' => exact .error e e'
  | ok hps =>
    cases hb with
    | error e e' => exact .error e e'
    | ok hqs => exact .ok (List.rel_append hps hqs)

/-- Literals that are equal or both strings are emitted as twins. -/
theorem literal (hZ : ∀ l l', Z l l' → l.SameButText l') {l l' : Literal} (h : Z l l') :
    Twins Z (l.emit s).outcome (l'.emit s).outcome := by
  obtain rfl | ⟨a, b, rfl, rfl⟩ := hZ l l' h
  · -- The same literal has the same piece, but a string must be related to itself.
    cases l with
    | null => exact piece (.sql _)
    | boolean x => exact piece (.sql _)
    | integer n => exact piece (.sql _)
    | float x =>
      rw [Literal.emit]
      split
      · exact piece (.sql _)
      · exact .error _ _
    | string content => exact piece (.string h)
  · exact piece (.string h)

/-- A parameter with related values is emitted as twins. -/
theorem param (hZ : ∀ l l', Z l l' → l.SameButText l') (name : String) {v v' : Option Literal}
    (h : Option.Rel Z v v') :
    Twins Z (emitParam s name v).outcome (emitParam s name v').outcome := by
  unfold emitParam
  split
  · cases h with
    | none => exact .error _ _
    | some h => exact literal hZ h
  · exact piece (.param name h)

/-- Differing in contents only is a law of the grammar of generic SQL. -/
theorem grammarLaw (hZ : ∀ l l', Z l l' → l.SameButText l') (hs : s.dialect = .generic) :
    GrammarLaw Z s s fun _ _ a b => Twins Z a.outcome b.outcome where
  dialect := rfl
  capabilities := rfl
  inline_iff := Iff.rfl
  strength l l' h := (hZ l l' h).strength_eq
  eq_of_oracle h := Dialect.noConfusion (h.symm.trans hs)
  empty := .ok .nil
  note _ := .ok .nil
  sql text _ _ _ := piece (.sql text)
  verbatim text := piece (.verbatim text)
  ident name := piece (.ident name)
  literal _ _ h := literal hZ h
  param name _ _ h := param hZ name h
  fail _ _ f := .error f f
  failNotLiteral _ _ e e' _ := .error (.valueNotLiteral e) (.valueNotLiteral e')
  append := append
  lift h := h
  aliased h := Dialect.noConfusion (h.symm.trans hs)

end Twins

/-- Statements that differ in related literals only are both refused or have the same pieces, but
for the contents of strings and the values of parameters. -/
theorem Statement.emit_twins {Z : Literal → Literal → Prop} {s : Settings}
    (hZ : ∀ l l', Z l l' → l.SameButText l') (hs : s.dialect = .generic) {st st' : Statement}
    (h : st.Agree Z st') : Twins Z (st.emit s).outcome (st'.emit s).outcome :=
  Statement.emit_agree (Twins.grammarLaw hZ hs) h

/-! ## Texts around quoted strings -/

namespace Segments

variable {α : Type}

/-- Where the filling does not depend on the gap's number, any gap may be the first. -/
theorem fillFrom_eq (f : α → String) (n m : Nat) (gaps : List (α × String)) :
    fillFrom (fun _ => f) n gaps = fillFrom (fun _ => f) m gaps := by
  induction gaps generalizing n m with
  | nil => rfl
  | cons gap gaps ih => rw [fillFrom, fillFrom, ih (n + 1) (m + 1)]

/-- A text in front stands before the filled text. -/
theorem fill_before (f : Nat → α → String) (text : String) (g : Segments α) :
    (g.before text).fill f = text ++ g.fill f :=
  String.append_assoc

/-- A gap in front is filled first. -/
theorem fill_gap (f : α → String) (a : α) (g : Segments α) :
    (g.gap a).fill (fun _ => f) = f a ++ g.fill fun _ => f := by
  show "" ++ (f a ++ g.first ++ fillFrom (fun _ => f) 2 g.gaps) = _
  rw [String.empty_append, fillFrom_eq f 2 1, String.append_assoc]
  rfl

end Segments

/-- Pieces that are equal but for contents have texts that are equal but for quoted contents. -/
theorem Piece.exists_segments {Z : Literal → Literal → Prop} {ps ps' : List Piece}
    (h : List.Forall₂ (Piece.Twin Z) ps ps') (style : ParamStyle) (tail : String)
    (position : Nat) :
    ∃ g : Segments (String × String),
      renderFrom style position ps ++ tail = g.fill (fun _ p => Text.doubled '\'' p.1) ∧
      renderFrom style position ps' ++ tail = g.fill (fun _ p => Text.doubled '\'' p.2) ∧
      ∀ p ∈ g.gaps, (Piece.string p.1.1, Piece.string p.1.2) ∈ ps.zip ps' := by
  induction h generalizing position with
  | nil =>
    refine ⟨⟨tail, []⟩, ?_, ?_, fun p hp => by cases hp⟩
    · simp [Segments.fill, Segments.fillFrom]
    · simp [Segments.fill, Segments.fillFrom]
  | @cons p p' ps ps' hp _ ih =>
    -- A piece that is the same on both sides belongs to the text before the next gap.
    have hsame : ∀ (text : String) (next : Nat),
        (∀ qs, renderFrom style position (p :: qs) = text ++ renderFrom style next qs) →
        (∀ qs, renderFrom style position (p' :: qs) = text ++ renderFrom style next qs) →
        ∃ g : Segments (String × String),
          renderFrom style position (p :: ps) ++ tail
            = g.fill (fun _ p => Text.doubled '\'' p.1) ∧
          renderFrom style position (p' :: ps') ++ tail
            = g.fill (fun _ p => Text.doubled '\'' p.2) ∧
          ∀ q ∈ g.gaps, (Piece.string q.1.1, Piece.string q.1.2) ∈ (p :: ps).zip (p' :: ps') := by
      intro text next hp hp'
      obtain ⟨g, htext, htext', hgaps⟩ := ih next
      refine ⟨g.before text, ?_, ?_, fun q hq => List.mem_cons_of_mem _ (hgaps q hq)⟩
      · rw [hp, String.append_assoc, htext, Segments.fill_before]
      · rw [hp', String.append_assoc, htext', Segments.fill_before]
    cases hp with
    | sql text => exact hsame text position (renderFrom_sql _ _ _) (renderFrom_sql _ _ _)
    | verbatim text =>
      exact hsame text position (renderFrom_verbatim _ _ _) (renderFrom_verbatim _ _ _)
    | ident name => exact hsame _ position (renderFrom_ident _ _ _) (renderFrom_ident _ _ _)
    | param name h =>
      exact hsame _ (position + 1) (renderFrom_param _ _ _ _) (renderFrom_param _ _ _ _)
    | @string a b h =>
      -- Only here the texts may differ, so a gap is opened.
      obtain ⟨g, htext, htext', hgaps⟩ := ih position
      refine ⟨g.gap (a, b), ?_, ?_, fun q hq => ?_⟩
      · rw [renderFrom_string, String.append_assoc, htext, Segments.fill_gap]
      · rw [renderFrom_string, String.append_assoc, htext', Segments.fill_gap]
      · obtain rfl | hq := List.mem_cons.mp hq
        · exact List.mem_cons_self
        · exact List.mem_cons_of_mem _ (hgaps q hq)

/-- Pieces that are equal but for contents bind the same names to the same placeholders. -/
theorem Piece.params_twins {Z : Literal → Literal → Prop} {ps ps' : List Piece}
    (h : List.Forall₂ (Piece.Twin Z) ps ps') (style : ParamStyle) (position : Nat) :
    (params style position ps').map (fun p => (p.marker, p.name))
      = (params style position ps).map fun p => (p.marker, p.name) := by
  induction h generalizing position with
  | nil => rfl
  | cons hp _ ih =>
    -- Parameters keep their names; no other piece is bound.
    cases hp with
    | param name h =>
      rw [params, params, List.map_cons, List.map_cons, ih]
    | _ => exact ih position

/-- The compiled statements differ only in the quoted contents of literals that two statements
share, and in the values of their parameters. -/
structure Statement.DifferInStrings (st st' : Statement) (c c' : Compiled) : Prop where
  sql : ∃ g : Segments (String × String),
    c.sql = g.fill (fun _ p => Text.doubled '\'' p.1) ∧
    c'.sql = g.fill (fun _ p => Text.doubled '\'' p.2) ∧
    ∀ p ∈ g.gaps, st.ShareLiteral st' p.1.1 p.1.2
  params : c'.params.map (fun p => (p.marker, p.name))
    = c.params.map fun p => (p.marker, p.name)

/-- For generic SQL, two statements that are equal but for the contents of strings are both refused,
or their texts are equal but for the quoted contents of the literals that they share, and the same
names are bound to the same placeholders. -/
theorem compile_differInStrings (o : Options) (ho : o.target.dialect = .generic)
    {st st' : Statement} (h : st.Agree Literal.SameButText st') (layout : String → String) :
    (∃ e e', (compile o.unformatted st layout).outcome = .error e ∧
      (compile o.unformatted st' layout).outcome = .error e') ∨
    ∃ c c', (compile o.unformatted st layout).outcome = .ok c ∧
      (compile o.unformatted st' layout).outcome = .ok c' ∧ st.DifferInStrings st' c c' := by
  have hlayout : ∀ c : Compiled, c.laidOut o.unformatted layout = c :=
    Compiled.laidOut_eq (Options.keeps_of_unformatted rfl layout)
  have htwins : ∀ Z : Literal → Literal → Prop, (∀ l l', Z l l' → l.SameButText l') →
      st.Agree Z st' → Twins Z (st.emit o.unformatted.choices).outcome
        (st'.emit o.unformatted.choices).outcome :=
    fun Z hZ hagree => Statement.emit_twins hZ ho hagree
  have htwin := htwins _ (fun _ _ => id) h
  rw [outcome_compile, outcome_compile]
  generalize (st.emit o.unformatted.choices).outcome = x at htwins htwin ⊢
  generalize (st'.emit o.unformatted.choices).outcome = x' at htwins htwin ⊢
  split
  · exact .inl ⟨_, _, rfl, rfl⟩
  · cases htwin with
    | error e e' => exact .inl ⟨e, e', rfl, rfl⟩
    | @ok ps ps' hps =>
      -- Neither is laid out, so both are their segments with the closing text behind them.
      refine .inr ⟨_, _, rfl, rfl, ?_, ?_⟩
      · rw [hlayout, hlayout, Compiled.signed_eq, Compiled.signed_eq]
        obtain ⟨g, htext, htext', hgaps⟩ :=
          Piece.exists_segments hps o.unformatted.choices.paramStyle o.unformatted.closing 1
        refine ⟨g, htext, htext', fun p hp Z hZ hagree => ?_⟩
        -- The same pieces are related by every relation between the literals.
        have hrelated : List.Forall₂ (Piece.Twin Z) ps ps' := by
          cases htwins Z hZ hagree with
          | ok h => exact h
        cases (List.forall₂_iff_zip.mp hrelated).2 (hgaps p hp) with
        | string h => exact h
      · rw [hlayout, hlayout, Compiled.signed_eq, Compiled.signed_eq]
        exact Piece.params_twins hps _ 1

/-- A test that is split into two lists writes the first string twice. Quotes and comment signs in
the contents stay inside the quotes. -/
theorem compile_differInStrings_of_split :
    let o : Options := { signatureComment := false, capabilities := some { maxInList := some 1 } }
    let st : String → String → Statement := fun a b =>
      .delete ⟨{ name := "users" }, { wheres := [.inValues
        (.binary (.col "name") .concat (.literal (.string a)))
        [.literal (.string b), .literal (.string "z")] false] }⟩
    let c : Compiled :=
      ⟨"DELETE FROM users WHERE (name || 'x' IN ('y') OR name || 'x' IN ('z'))", []⟩
    let c' : Compiled :=
      ⟨"DELETE FROM users WHERE (name || '''--' IN (''') OR (''1'' = ''1') "
        ++ "OR name || '''--' IN ('z'))", []⟩
    (compile o.unformatted (st "x" "y")).outcome = .ok c ∧
    (compile o.unformatted (st "'--" "') OR ('1' = '1")).outcome = .ok c' ∧
    (st "x" "y").DifferInStrings (st "'--" "') OR ('1' = '1") c c' := by
  intro o st c c'
  have hc : (compile o.unformatted (st "x" "y")).outcome = .ok c := by
    cbv
  have hc' : (compile o.unformatted (st "'--" "') OR ('1' = '1")).outcome = .ok c' := by
    cbv
  have hagree : (st "x" "y").Agree Literal.SameButText (st "'--" "') OR ('1' = '1") := by
    have hstring : ∀ a b, (Expr.literal (.string a)).Agree Literal.SameButText
        (.literal (.string b)) := fun a b => .literal (.inr ⟨a, b, rfl, rfl⟩)
    have htest := Expr.Agree.inValues false
      (.binary .concat (.column none "name") (hstring "x" "'--"))
      (.cons (hstring "y" "') OR ('1' = '1") (.cons (hstring "z" "z") .nil))
    exact .delete _ ⟨.cons htest .nil, .nil, .none, .none, .nil, .nil, .none⟩
  refine ⟨hc, hc', ?_⟩
  obtain ⟨e, _, he, _⟩ | ⟨d, d', hd, hd', hdiffer⟩ := compile_differInStrings o rfl hagree id
  · rw [hc] at he
    cases he
  · rw [hc] at hd
    rw [hc'] at hd'
    rw [Except.ok.inj hd, Except.ok.inj hd']
    exact hdiffer

end SqlCompiler
