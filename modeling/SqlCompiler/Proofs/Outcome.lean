import SqlCompiler.Compile

/-!
# Outcomes of emissions

What a traced computation yields, apart from the notes that it leaves. An emission that is put
together from parts yields the pieces of the parts in order, or the first of their faults, and the
text of pieces is numbered on from the parameters that stand before it.
-/

namespace SqlCompiler

namespace Traced

variable {α β : Type}

/-- A result is what it yields. -/
@[simp]
theorem outcome_ok (a : α) : (ok a).outcome = .ok a :=
  rfl

/-- A fault is what it ends in. -/
@[simp]
theorem outcome_fail (f : Fault) : (fail f : Traced α).outcome = .error f :=
  rfl

/-- A note yields nothing. -/
@[simp]
theorem outcome_note (n : Note) : (note n).outcome = .ok () :=
  rfl

/-- A computation without notes yields what it did. -/
@[simp]
theorem outcome_ofExcept (x : Except Fault α) : (ofExcept x).outcome = x :=
  rfl

/-- Going on with a value goes on with what it was yielded. -/
theorem outcome_bind (x : Traced α) (f : α → Traced β) :
    (x.bind f).outcome = x.outcome.bind fun a => (f a).outcome := by
  -- A fault ends the computation, whatever would follow.
  obtain ⟨notes, e | a⟩ := x
  · rfl
  · rfl

/-- A value that was yielded is what the computation goes on with. -/
theorem outcome_bind_of_ok {x : Traced α} {a : α} (h : x.outcome = .ok a) (f : α → Traced β) :
    (x.bind f).outcome = (f a).outcome := by
  rw [outcome_bind, h]
  rfl

/-- A fault stays the outcome. -/
theorem outcome_bind_of_error {x : Traced α} {e : Fault} (h : x.outcome = .error e)
    (f : α → Traced β) : (x.bind f).outcome = .error e := by
  rw [outcome_bind, h]
  rfl

/-- What is yielded at the end was made from something that was yielded before. -/
theorem outcome_bind_ok {x : Traced α} {f : α → Traced β} {b : β}
    (h : (x.bind f).outcome = .ok b) : ∃ a, x.outcome = .ok a ∧ (f a).outcome = .ok b := by
  rw [outcome_bind] at h
  cases hx : x.outcome with
  | error e =>
    rw [hx] at h
    cases h
  | ok a =>
    rw [hx] at h
    exact ⟨a, rfl, h⟩

/-- The note about a fault does not change the outcome. -/
@[simp]
theorem outcome_noteFault (x : Traced α) : x.noteFault.outcome = x.outcome := by
  obtain ⟨notes, e | a⟩ := x
  · rfl
  · rfl

end Traced

namespace Emission

/-- The empty emission yields no pieces. -/
@[simp]
theorem outcome_empty : empty.outcome = .ok [] :=
  rfl

/-- One piece is yielded. -/
@[simp]
theorem outcome_piece (p : Piece) : (piece p).outcome = .ok [p] :=
  rfl

/-- A fixed text is one piece. -/
@[simp]
theorem outcome_sql (text : String) : (sql text).outcome = .ok [.sql text] :=
  rfl

/-- A text of the caller is one piece. -/
@[simp]
theorem outcome_verbatim (text : String) : (verbatim text).outcome = .ok [.verbatim text] :=
  rfl

/-- A name is one piece. -/
@[simp]
theorem outcome_ident (name : String) : (ident name).outcome = .ok [.ident name] :=
  rfl

/-- A note yields no pieces. -/
@[simp]
theorem outcome_note (n : Note) : (note n).outcome = .ok [] :=
  rfl

/-- A failed emission ends in its fault. -/
@[simp]
theorem outcome_fail (f : Fault) : (fail f).outcome = .error f :=
  rfl

/-- Two emissions yield the pieces of both, or the first fault. -/
theorem outcome_append (a b : Emission) :
    (a ++ b).outcome = a.outcome.bind fun p => b.outcome.bind fun q => .ok (p ++ q) := by
  rw [append_eq_bind, Traced.outcome_bind]
  congr 1
  funext p
  rw [Traced.outcome_bind]
  rfl

/-- Two emissions that yield pieces yield them in order. -/
theorem outcome_append_of_ok {a b : Emission} {p q : List Piece} (ha : a.outcome = .ok p)
    (hb : b.outcome = .ok q) : (a ++ b).outcome = .ok (p ++ q) := by
  rw [outcome_append, ha, hb]
  rfl

/-- What two emissions yield is made of what each yields. -/
theorem outcome_append_ok {a b : Emission} {ps : List Piece} (h : (a ++ b).outcome = .ok ps) :
    ∃ p q, a.outcome = .ok p ∧ b.outcome = .ok q ∧ ps = p ++ q := by
  obtain ⟨p, hp, hrest⟩ := Traced.outcome_bind_ok h
  obtain ⟨q, hq, hok⟩ := Traced.outcome_bind_ok hrest
  exact ⟨p, q, hp, hq, (Except.ok.inj hok).symm⟩

/-- What is emitted behind a fixed text stands behind that text. -/
theorem outcome_sql_append_ok {text : String} {e : Emission} {ps : List Piece}
    (h : (sql text ++ e).outcome = .ok ps) : ∃ q, e.outcome = .ok q ∧ ps = .sql text :: q := by
  obtain ⟨p, q, hp, hq, rfl⟩ := outcome_append_ok h
  obtain rfl := Except.ok.inj hp
  exact ⟨q, hq, rfl⟩

/-- What is emitted before a fixed text stands before that text. -/
theorem outcome_append_sql_ok {text : String} {e : Emission} {ps : List Piece}
    (h : (e ++ sql text).outcome = .ok ps) : ∃ p, e.outcome = .ok p ∧ ps = p ++ [.sql text] := by
  obtain ⟨p, q, hp, hq, rfl⟩ := outcome_append_ok h
  obtain rfl := Except.ok.inj hq
  exact ⟨p, hp, rfl⟩

/-- A note before an emission does not change what it yields. -/
theorem outcome_note_append (n : Note) (e : Emission) : (note n ++ e).outcome = e.outcome := by
  rw [outcome_append, outcome_note]
  cases e.outcome with
  | error f => rfl
  | ok ps => rfl

/-- Parentheses stand around what an emission yields. -/
theorem outcome_parens {e : Emission} {p : List Piece} (h : e.outcome = .ok p) :
    (parens e).outcome = .ok (.sql "(" :: (p ++ [.sql ")"])) :=
  outcome_append_of_ok (outcome_append_of_ok (outcome_sql "(") h) (outcome_sql ")")

end Emission

namespace Piece

/-- The parameters of both are counted. -/
@[simp]
theorem paramCount_append (ps qs : List Piece) :
    paramCount (ps ++ qs) = paramCount ps + paramCount qs := by
  induction ps with
  | nil => simp [paramCount]
  | cons p ps ih => cases p <;> simp [paramCount, ih, Nat.add_right_comm]

/-- The text of pieces whose first parameter stands at `position`. -/
def renderFrom (style : ParamStyle) (position : Nat) (ps : List Piece) : String :=
  String.join (texts style position ps)

/-- A statement's parameters are counted from one. -/
theorem render_eq_renderFrom (style : ParamStyle) (ps : List Piece) :
    render style ps = renderFrom style 1 ps :=
  rfl

/-- No pieces are rendered as the empty text. -/
@[simp]
theorem renderFrom_nil (style : ParamStyle) (position : Nat) : renderFrom style position [] = "" :=
  rfl

/-- The text of what follows is numbered on from what stands before. -/
theorem renderFrom_append (style : ParamStyle) (position : Nat) (ps qs : List Piece) :
    renderFrom style position (ps ++ qs)
      = renderFrom style position ps ++ renderFrom style (position + paramCount ps) qs := by
  rw [renderFrom, texts_append, String.join_append]
  rfl

/-- Fixed text takes no number. -/
@[simp]
theorem renderFrom_sql (style : ParamStyle) (position : Nat) (text : String) (ps : List Piece) :
    renderFrom style position (.sql text :: ps) = text ++ renderFrom style position ps := by
  simp [renderFrom, texts, Piece.text]

/-- The caller's text takes no number. -/
@[simp]
theorem renderFrom_verbatim (style : ParamStyle) (position : Nat) (text : String)
    (ps : List Piece) :
    renderFrom style position (.verbatim text :: ps) = text ++ renderFrom style position ps := by
  simp [renderFrom, texts, Piece.text]

/-- An identifier takes no number. -/
@[simp]
theorem renderFrom_ident (style : ParamStyle) (position : Nat) (name : String) (ps : List Piece) :
    renderFrom style position (.ident name :: ps)
      = Identifier.text name ++ renderFrom style position ps := by
  simp [renderFrom, texts, Piece.text]

/-- A string takes no number. -/
@[simp]
theorem renderFrom_string (style : ParamStyle) (position : Nat) (content : String)
    (ps : List Piece) :
    renderFrom style position (.string content :: ps)
      = Text.doubled '\'' content ++ renderFrom style position ps := by
  simp [renderFrom, texts, Piece.text]

/-- A parameter takes the next number. -/
@[simp]
theorem renderFrom_param (style : ParamStyle) (position : Nat) (name : String)
    (value : Option Literal) (ps : List Piece) :
    renderFrom style position (.param name value :: ps)
      = style.marker position ++ renderFrom style (position + 1) ps := by
  simp [renderFrom, texts, Piece.text]

/-- Without parameters the text does not depend on how they are written. -/
theorem renderFrom_of_paramCount {ps : List Piece} (h : paramCount ps = 0)
    (style style' : ParamStyle) (position position' : Nat) :
    renderFrom style position ps = renderFrom style' position' ps := by
  induction ps with
  | nil => rfl
  | cons p ps ih =>
    cases p with
    | param name value => cases h
    | _ => simpa using ih h

/-- Without parameters nothing is bound. -/
theorem params_of_paramCount {ps : List Piece} (h : paramCount ps = 0) (style : ParamStyle)
    (position : Nat) : params style position ps = [] :=
  List.length_eq_zero_iff.mp ((length_params style position ps).trans h)

end Piece

/-! ## Lists of parts -/

/-- Expressions are emitted one by one. -/
theorem emitEach_eq_map (st : Settings) (es : List Expr) : emitEach st es = es.map (·.emit st) := by
  induction es with
  | nil => rfl
  | cons e es ih => rw [emitEach, ih, List.map_cons]

/-- A list of values is split without loss, and no part is empty. -/
theorem chunksUpTo_spec {β : Type} {size : Nat} (hsize : 0 < size) (fuel : Nat) (xs : List β)
    (h : xs.length ≤ fuel) :
    (InValues.chunksUpTo size fuel xs).flatten = xs ∧
      ∀ part ∈ InValues.chunksUpTo size fuel xs, part ≠ [] := by
  -- Each chunk takes at least one item, so the fuel is enough for the rest.
  induction fuel generalizing xs with
  | zero =>
    have hnil : xs = [] := List.length_eq_zero_iff.mp (by omega)
    subst hnil
    exact ⟨rfl, fun _ hpart => absurd hpart List.not_mem_nil⟩
  | succ fuel ih =>
    cases xs with
    | nil => exact ⟨rfl, fun _ hpart => absurd hpart List.not_mem_nil⟩
    | cons x xs =>
      have hdrop : ((x :: xs).drop size).length ≤ fuel := by
        rw [List.length_drop, List.length_cons] at *
        omega
      obtain ⟨hflatten, hparts⟩ := ih _ hdrop
      rw [InValues.chunksUpTo]
      · refine ⟨?_, ?_⟩
        · rw [List.flatten_cons, hflatten, List.take_append_drop]
        · intro part hpart
          obtain rfl | hpart := List.mem_cons.mp hpart
          · intro htake
            rw [List.take_eq_nil_iff] at htake
            obtain hzero | hnil := htake
            · omega
            · cases hnil
          · exact hparts part hpart
      · exact List.cons_ne_nil x xs

/-- Something is left to be split as long as there are values. -/
theorem chunks_ne_nil {β : Type} (size : Nat) {xs : List β} (h : xs ≠ []) :
    InValues.chunks size xs ≠ [] := by
  obtain ⟨x, xs, rfl⟩ := List.exists_cons_of_ne_nil h
  rw [InValues.chunks, List.length_cons, InValues.chunksUpTo]
  · exact List.cons_ne_nil _ _
  · exact List.cons_ne_nil x xs

/-- Literals are what a list of literals holds. -/
theorem literals_map (values : List Literal) :
    InValues.literals (values.map Expr.literal) = .ok values := by
  induction values with
  | nil => rfl
  | cons l ls ih =>
    rw [List.map_cons, InValues.literals, ih]
    rfl

/-- A list holds literals if it holds nothing else. -/
theorem literals_eq_ok_iff {es : List Expr} {ls : List Literal} :
    InValues.literals es = .ok ls ↔ es = ls.map .literal := by
  constructor
  · intro h
    -- The reading stops at the first expression that is no literal.
    fun_induction InValues.literals es generalizing ls with
    | case1 =>
      cases h
      rfl
    | case2 l es ih =>
      cases hes : InValues.literals es with
      | error f =>
        rw [hes] at h
        cases h
      | ok ks =>
        rw [hes] at h
        cases h
        rw [List.map_cons, ih hes]
    | case3 => cases h
  · rintro rfl
    exact literals_map ls

end SqlCompiler
