import SqlCompiler.Proofs.Comments.Scan
import SqlCompiler.Proofs.Nodes.Visits

/-!
# Comments in emissions

What the text of an emission is like is found from its parts (`Writes.append`): the text is scanned
for comments (`Scans`), and its first character is looked at (`Begins`), since a comment opens where
a minus stands before a text that begins with one.
-/

namespace SqlCompiler

/-! ## The text of an emission -/

/-- The text of an emission has a property, wherever its parameters are counted from. -/
def Writes (s : Settings) (e : Emission) (T : List Char → Prop) : Prop :=
  ∀ ps, e.outcome = .ok ps → ∀ position,
    T (Piece.renderFrom s.paramStyle position ps).toList

namespace Writes

variable {s : Settings} {T U V : List Char → Prop}

/-- What is written satisfies every weaker property. -/
theorem imp {e : Emission} (he : Writes s e T) (h : ∀ cs, T cs → U cs) : Writes s e U :=
  fun ps hps position => h _ (he ps hps position)

/-- Emissions with the same outcome write the same. -/
theorem of_outcome_eq {a b : Emission} (h : a.outcome = b.outcome) (hb : Writes s b T) :
    Writes s a T :=
  fun ps hps position => hb ps (h ▸ hps) position

/-- What fails has no text. -/
theorem fail (f : Fault) : Writes s (.fail f) T := by
  intro ps hps
  cases hps

/-- Without pieces the empty text is written. -/
theorem empty (h : T []) : Writes s .empty T := by
  intro ps hps position
  cases hps
  exact h

/-- One piece writes its text, at whatever position. -/
theorem piece {p : Piece} (h : ∀ position, T (p.text s.paramStyle position).toList) :
    Writes s (.piece p) T := by
  intro ps hps position
  cases hps
  cases p <;> simpa [Piece.text] using h position

/-- Of two emissions, the texts are written one after the other. -/
theorem append (h : ∀ cs ds, T cs → U ds → V (cs ++ ds)) {a b : Emission} (ha : Writes s a T)
    (hb : Writes s b U) : Writes s (a ++ b) V := by
  intro ps hps position
  obtain ⟨p, q, hp, hq, rfl⟩ := Emission.outcome_append_ok hps
  rw [Piece.renderFrom_append, String.toList_append]
  exact h _ _ (ha p hp position) (hb q hq _)

/-- Going on with a value, the text is what is written for it. -/
theorem bind {α : Type} {x : Traced α} {f : α → Emission}
    (h : ∀ a, x.outcome = .ok a → Writes s (f a) T) : Writes s (x.bind f) T := by
  intro ps hps
  obtain ⟨a, ha, hps⟩ := Traced.outcome_bind_ok hps
  exact h a ha ps hps

end Writes

/-! ## Scanning for comments -/

/-- A text is closed, and a comment opens in it only if `P`. For generic SQL, where nothing that is
visited is left out, it opens if `P`. -/
structure Scanned (s : Settings) (P : Prop) (cs : List Char) : Prop where
  closed : Closed cs
  only : opensComment .code cs = true → P
  opens : s.dialect = .generic → P → opensComment .code cs = true

/-- The text of an emission is scanned. -/
def Scans (s : Settings) (e : Emission) (P : Prop) : Prop :=
  Writes s e (Scanned s P)

/-- A tidy text opens no comment. -/
theorem scanned_of_tidy {s : Settings} {cs : List Char} (h : Tidy cs) : Scanned s False cs where
  closed := h.toClosed
  only hopens := by simp [h.opens] at hopens
  opens _ hfalse := hfalse.elim

namespace Scans

variable {s : Settings} {P Q R : Prop}

/-- The condition for a comment may be replaced by an equivalent one. -/
theorem congr {e : Emission} (he : Scans s e P) (h : P ↔ Q) : Scans s e Q :=
  he.imp fun _ hcs => ⟨hcs.closed, fun hopens => h.mp (hcs.only hopens),
    fun hd hq => hcs.opens hd (h.mpr hq)⟩

/-- For Oracle it is enough to know what opens a comment. -/
theorem weaken {e : Emission} (hd : s.dialect = .oracle) (he : Scans s e P) (h : P → Q) :
    Scans s e Q :=
  he.imp fun _ hcs => ⟨hcs.closed, fun hopens => h (hcs.only hopens), fun hg => by
    rw [hd] at hg
    cases hg⟩

/-- A comment opens in two emissions if one opens in either. -/
theorem append {a b : Emission} (ha : Scans s a P) (hb : Scans s b Q) :
    Scans s (a ++ b) (P ∨ Q) :=
  Writes.append (fun _ _ hcs hds =>
    { closed := hcs.closed.append hds.closed
      only := fun h => by
        rw [hcs.closed.opensComment_append, Bool.or_eq_true] at h
        exact h.imp hcs.only hds.only
      opens := fun hd h => by
        rw [hcs.closed.opensComment_append, Bool.or_eq_true]
        exact h.imp (hcs.opens hd) (hds.opens hd) }) ha hb

/-- No comment opens where nothing is written. -/
theorem fail (f : Fault) : Scans s (.fail f) P :=
  Writes.fail f

/-- A comment opens in what follows a computation. -/
theorem bind {α : Type} {x : Traced α} {f : α → Emission}
    (h : ∀ a, x.outcome = .ok a → Scans s (f a) P) : Scans s (x.bind f) P :=
  Writes.bind h

/-- No comment opens in the empty text. -/
theorem empty : Scans s .empty False :=
  Writes.empty (scanned_of_tidy (by decide))

/-- A note writes nothing. -/
theorem note (n : Note) : Scans s (.note n) False :=
  Writes.of_outcome_eq (Emission.outcome_note n) empty

/-- No comment opens in a tidy text of the grammar. -/
theorem sql {text : String} (h : Tidy text.toList) : Scans s (.sql text) False :=
  Writes.piece fun _ => scanned_of_tidy h

/-- No comment opens in a tidy text of the caller. -/
theorem verbatim {text : String} (h : Tidy text.toList) : Scans s (.verbatim text) False :=
  Writes.piece fun _ => scanned_of_tidy h

/-- No comment opens in a name. -/
theorem ident (name : String) : Scans s (.ident name) False :=
  Writes.piece fun _ => scanned_of_tidy (tidy_identifier name)

/-- Text around an emission opens no comment. -/
theorem around {a b e : Emission} (ha : Scans s a False) (he : Scans s e P)
    (hb : Scans s b False) : Scans s (a ++ e ++ b) P :=
  ((ha.append he).append hb).congr (by simp)

/-- A text without comments may stand in front. -/
theorem before {a e : Emission} (ha : Scans s a False) (he : Scans s e P) :
    Scans s (a ++ e) P :=
  (ha.append he).congr (by simp)

/-- A text without comments may stand behind. -/
theorem behind {e b : Emission} (he : Scans s e P) (hb : Scans s b False) :
    Scans s (e ++ b) P :=
  (he.append hb).congr (by simp)

/-- Parentheses open no comment. -/
theorem parens {e : Emission} (he : Scans s e P) : Scans s (.parens e) P :=
  around (sql (by decide)) he (sql (by decide))

section Lists

variable {α : Type} {f : α → Emission} {p : α → Prop}

/-- A comment opens in a list if it opens in one of its items. -/
theorem join {separator : String} (hsep : Tidy separator.toList) {xs : List α}
    (h : ∀ x ∈ xs, Scans s (f x) (p x)) :
    Scans s (.join separator (xs.map f)) (∃ x ∈ xs, p x) := by
  -- Along the list, with a separator before each further item.
  induction xs with
  | nil => exact empty.congr (by simp)
  | cons x xs ih =>
    obtain ⟨hx, hxs⟩ := List.forall_mem_cons.mp h
    cases xs with
    | nil => exact hx.congr (by simp)
    | cons y ys => exact (hx.append ((sql hsep).before (ih hxs))).congr (by simp)

/-- A comment opens in a clause if it opens in one of its items. -/
theorem clause {word separator : String} (hword : Tidy word.toList)
    (hsep : Tidy separator.toList) {xs : List α} (h : ∀ x ∈ xs, Scans s (f x) (p x)) :
    Scans s (.clause word separator (xs.map f)) (∃ x ∈ xs, p x) := by
  cases xs with
  | nil => exact empty.congr (by simp)
  | cons x xs => exact (sql hword).before (join hsep h)

end Lists

/-- An operand opens the comments of its expression, in parentheses or not. -/
theorem operand {r : Rendered} (h : Scans s r.emission P) {side : Side} {strength : Nat}
    {a : Associativity} : Scans s (r.operand side strength a) P := by
  unfold Rendered.operand
  split
  · exact h.parens
  · exact h

/-- A comment opens in a conjunction if it opens in one of its conditions. -/
theorem conjunction {es : List Expr} {p : Expr → Prop} (h : ∀ e ∈ es, Scans s (e.emit s) (p e)) :
    Scans s (conjunction (es.map (·.rendered s))) (∃ e ∈ es, p e) := by
  match es, h with
  | [], _ => exact empty.congr (by simp)
  | [e], h => exact (h e List.mem_cons_self).congr (by simp)
  | e :: e' :: es, h =>
    have hoperands := join (by decide : Tidy " AND ".toList) fun x hx =>
      @operand s _ (x.rendered s) (h x hx) .left BinaryOp.and.strength BinaryOp.and.associativity
    simpa [SqlCompiler.conjunction, Function.comp_def] using hoperands

/-- A comment opens in a clause of conditions if it opens in one of them. -/
theorem conditions {word : String} (hword : Tidy word.toList) {es : List Expr} {p : Expr → Prop}
    (h : ∀ e ∈ es, Scans s (e.emit s) (p e)) :
    Scans s (conditions word (es.map (·.rendered s))) (∃ e ∈ es, p e) := by
  cases es with
  | nil => exact empty.congr (by simp)
  | cons e es => exact (sql hword).before (conjunction h)

/-- No comment opens in the name of a relation and its dot. -/
theorem qualifier (relation : Option String) : Scans s (qualifier relation) False := by
  cases relation with
  | none => exact empty
  | some name => exact (ident name).behind (sql (by decide))

/-- No comment opens in a table and its alias. -/
theorem table (t : TableRef) : Scans s t.emit False := by
  unfold TableRef.emit
  refine behind ((qualifier t.schema).behind (ident t.name)) ?_
  split
  · next name _ => exact (sql (by decide)).before (ident name)
  · exact empty

/-- No comment opens in a word with its negation. -/
theorem negatable (negated : Bool) {positive negative : String} (hp : Tidy positive.toList)
    (hn : Tidy negative.toList) : Scans s (negatable negated positive negative) False := by
  cases negated
  · exact sql hp
  · exact sql hn

/-- No comment opens in a direction. -/
theorem direction (d : Option SortDirection) : Scans s (emitDirection d) False := by
  obtain _ | _ | _ := d
  · exact empty
  · exact sql (by decide)
  · exact sql (by decide)

/-- An ordering term opens the comments of its expression. -/
theorem order {o : OrderTerm} (h : Scans s (o.expr.emit s) P) : Scans s (o.emit s) P :=
  h.behind (direction o.direction)

/-- A comment opens after a word if it opens in what stands behind it. -/
theorem after {word : String} (hword : Tidy word.toList) {e : Option Expr} {p : Expr → Prop}
    (h : ∀ x ∈ e, Scans s (x.emit s) (p x)) :
    Scans s (after word (e.map (·.emit s))) (∃ x ∈ e, p x) := by
  cases e with
  | none => exact empty.congr (by simp)
  | some x => exact ((sql hword).before (h x rfl)).congr (by simp)

/-- A comment opens in a window if it opens in its partition or its ordering. -/
theorem window {es : List Expr} {os : List OrderTerm} {p : Expr → Prop}
    (hes : ∀ e ∈ es, Scans s (e.emit s) (p e))
    (hos : ∀ o ∈ os, Scans s (o.expr.emit s) (p o.expr)) :
    Scans s (emitWindow (es.map (·.emit s)) (os.map (·.emit s)))
      ((∃ e ∈ es, p e) ∨ ∃ o ∈ os, p o.expr) := by
  have hblank : Scans s (if !(es.map (·.emit s)).isEmpty && !(os.map (·.emit s)).isEmpty
      then .sql " " else .empty) False := by
    split
    · exact sql (by decide)
    · exact empty
  exact .behind (.append (.behind (.before (.sql (by decide)) (.clause (by decide) (by decide) hes))
    hblank) (.clause (by decide) (by decide) fun o ho => (hos o ho).order)) (.sql (by decide))

/-- A comment opens in branches if it opens in a condition or a value. -/
theorem branches {bs : List Branch} {p q : Branch → Prop}
    (h : ∀ b ∈ bs, Scans s (b.condition.emit s) (p b) ∧ Scans s (b.value.emit s) (q b)) :
    Scans s (emitBranches s bs) (∃ b ∈ bs, p b ∨ q b) := by
  induction bs with
  | nil => exact empty.congr (by simp)
  | cons b bs ih =>
    obtain ⟨condition, value⟩ := b
    obtain ⟨⟨hc, hv⟩, hbs⟩ := List.forall_mem_cons.mp h
    refine ((((before ?_ hc).behind ?_).append hv).append (ih hbs)).congr (by simp)
    · exact sql (by decide)
    · exact sql (by decide)

/-- No comment opens in a literal. -/
theorem literal (l : Literal) : Scans s (l.emit s) False := by
  cases l with
  | null => exact sql (by decide)
  | boolean b =>
    refine sql ?_
    cases s.emulateBooleans <;> cases b <;> decide
  | integer n => exact sql (integer_text n.toInt).1
  | float x =>
    -- A float that is not finite is refused.
    rw [Literal.emit]
    split
    · next h => exact sql (float_text _ h).1
    · exact fail _
  | string content => exact Writes.piece fun _ => scanned_of_tidy (tidy_doubled .string content)

/-- No comment opens in a parameter. -/
theorem param (name : String) (value : Option Literal) :
    Scans s (emitParam s name value) False := by
  unfold emitParam
  split
  · cases value with
    | none => exact fail _
    | some l => exact literal l
  · exact Writes.piece fun position => scanned_of_tidy (tidy_of_inert (inert_marker _ position))

/-- A test for literals opens the comments of its operand. -/
theorem single {operand : Emission} (h : Scans s operand P) (negated : Bool)
    (values : List Literal) : Scans s (InValues.single s operand negated values) P := by
  have hlist := join (by decide : Tidy ", ".toList) fun l (_ : l ∈ values) => literal (s := s) l
  have hopen : Scans s (.sql (if negated then " NOT IN (" else " IN (")) False :=
    sql (by cases negated <;> decide)
  exact (((h.behind hopen).append hlist).behind (sql (by decide))).congr (by simp)

/-- The operand of a membership test is left out if nothing is excluded. -/
theorem inLiterals {operand : Emission} {negated : Bool} {values : List Literal}
    (h : (values.isEmpty && negated) = false → Scans s operand P) :
    Scans s (InValues.emit s operand negated values)
      ((values.isEmpty && negated) = false ∧ P) := by
  unfold InValues.emit
  -- Without literals the operand is tested against a null, and a negated test has no operand.
  split
  · next hempty =>
    cases negated with
    | true => exact (sql (by decide)).congr (by simp [hempty])
    | false => exact ((h (by simp)).behind (sql (by decide))).congr (by simp)
  · next hvalues =>
    have hsingle : ∀ part, Scans s (InValues.single s operand negated part)
        ((values.isEmpty && negated) = false ∧ P) :=
      fun part => (single (h (by simp [hvalues])) negated part).congr (by simp [hvalues])
    split
    · next max _ =>
      split
      · -- The operand is written once for each part of the list.
        have hword : Tidy (if negated then " AND " else " OR " : String).toList := by
          cases negated <;> decide
        have hparts := join hword fun part (_ : part ∈ InValues.chunks max values) => hsingle part
        obtain ⟨part, hpart⟩ := List.exists_mem_of_ne_nil _
          (chunks_ne_nil max (by simpa using hvalues))
        exact (note _).before
          (hparts.parens.congr ⟨fun ⟨_, _, h⟩ => h, fun h => ⟨part, hpart, h⟩⟩)
      · exact hsingle values
    · exact hsingle values

end Scans

/-! ## Beginning with a minus -/

/-- The text of an emission begins with a minus exactly if `P`. -/
def Begins (s : Settings) (e : Emission) (P : Prop) : Prop :=
  Writes s e (Begun P)

namespace Begins

variable {s : Settings} {P Q : Prop}

/-- What the first character depends on may be replaced by something equivalent. -/
theorem congr {e : Emission} (he : Begins s e P) (h : P ↔ Q) : Begins s e Q :=
  he.imp fun _ hcs => ⟨hcs.1, hcs.2.trans h⟩

/-- What follows does not change how a text begins. -/
theorem append {a : Emission} (ha : Begins s a P) (b : Emission) : Begins s (a ++ b) P := by
  have hb : Writes s b fun _ => True := fun _ _ _ => trivial
  refine Writes.append (fun cs ds hcs _ => ?_) ha hb
  obtain ⟨c, cs, rfl⟩ := List.exists_cons_of_ne_nil hcs.1
  exact ⟨by simp, hcs.2⟩

/-- Where nothing is written, nothing begins with a minus. -/
theorem fail (f : Fault) : Begins s (.fail f) P :=
  Writes.fail f

/-- A fixed text begins as it does. -/
theorem sql {text : String} (h : Begun P text.toList) : Begins s (.sql text) P :=
  Writes.piece fun _ => h

/-- A name does not begin with a minus. -/
theorem ident (name : String) : Begins s (.ident name) False := by
  refine Writes.piece fun _ => ?_
  show Begun False (Identifier.text name).toList
  unfold Identifier.text
  -- A bare name begins with a letter or one of two signs, any other one with a quote.
  split
  · next hbare =>
    simp only [Identifier.isBare, Identifier.isPlain, Bool.and_eq_true] at hbare
    cases hcs : name.toList with
    | nil => simp [hcs] at hbare
    | cons c cs =>
      refine ⟨List.cons_ne_nil c cs, iff_of_false ?_ id⟩
      rintro ⟨⟩
      simp [hcs, Identifier.startsBare] at hbare
  · rw [Text.doubled, String.toList_ofList]
    exact ⟨List.cons_ne_nil _ _, iff_of_false (by simp) id⟩

/-- A parenthesis is no minus. -/
theorem parens (e : Emission) : Begins s (.parens e) False :=
  ((sql (by decide)).append e).append _

/-- An operand begins as its expression does, unless it stands in parentheses. -/
theorem operand {r : Rendered} (h : Begins s r.emission P) (side : Side) (strength : Nat)
    (a : Associativity) :
    Begins s (r.operand side strength a)
      (needsParens r.expr.strength strength side a = false ∧ P) := by
  unfold Rendered.operand
  split
  · next hparens => exact (parens _).congr (by simp [hparens])
  · next hbare => exact h.congr (by simp [hbare])

end Begins

/-- A number with a minus sign. -/
def Literal.isNegative : Literal → Bool
  | .integer n => n < 0
  | .float x => x.isNegative
  | _ => false

/-- A literal begins with a minus if it is a negative number. -/
theorem Begins.literal {s : Settings} (l : Literal) :
    Begins s (l.emit s) (l.isNegative = true) := by
  cases l with
  | null => exact sql (by decide)
  | boolean b =>
    refine sql ?_
    cases s.emulateBooleans <;> cases b <;> decide
  | integer n =>
    -- The sign of an integer is written if it is negative.
    have hlt : n.toInt < 0 ↔ n < 0 := by
      rw [Int64.lt_iff_toInt_lt]
      rfl
    obtain ⟨hne, hhead⟩ := (integer_text n.toInt).2
    exact sql ⟨hne, hhead.trans (by simp [Literal.isNegative, hlt])⟩
  | float x =>
    rw [Literal.emit]
    split
    · next h => exact sql (float_text _ h).2
    · exact fail _
  | string content =>
    refine Writes.piece fun _ => ?_
    show Begun _ (Text.doubled _ content).toList
    rw [Text.doubled, String.toList_ofList]
    exact ⟨List.cons_ne_nil _ _, by simp [Literal.isNegative]⟩

end SqlCompiler
