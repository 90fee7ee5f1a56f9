import SqlCompiler.Proofs.Reading.Machine

/-!
# How the reader passes over pieces

What the reader makes of a list of pieces, whatever stands behind them. `Passes` says that it goes
from one state to another over the text of the pieces, and that it takes their parameters from the
ones that are left. What is read by itself, such as a column or a number, leaves the stack as it was
(`ReadsAtom`).
-/

namespace SqlCompiler.Reading

variable {α : Type} {M : Meaning α} {style : ParamStyle}

/-- What waits binds weaker than level `p`, or is kept apart by a parenthesis. -/
def Frame.Weaker (p : Nat) : Frame α → Prop
  | .binary _ op => infixLevel op < p
  | .unary op => prefixLevel op < p
  | .between _ _ => membershipLevel < p
  | .betweenAnd _ _ _ => membershipLevel < p
  | .group => True
  | .call _ _ _ => True
  | .among _ _ _ => True

/-- Nothing that waits is closed by an operator of level `p`. -/
def Settled (p : Nat) : List (Frame α) → Prop
  | [] => True
  | f :: _ => f.Weaker p

/-- What is weaker than a level is weaker than every higher one. -/
theorem Frame.Weaker.mono {p q : Nat} (h : p ≤ q) {f : Frame α} (hf : f.Weaker p) :
    f.Weaker q := by
  cases f with
  | group | call name distinct args | among operand negated items => trivial
  | _ => exact Nat.lt_of_lt_of_le hf h

/-- A stack that is settled at a level is settled at every higher one. -/
theorem Settled.mono {p q : Nat} (h : p ≤ q) {fs : List (Frame α)} (hfs : Settled p fs) :
    Settled q fs := by
  cases fs with
  | nil => trivial
  | cons f fs => exact Frame.Weaker.mono h hfs

/-- Where nothing is closed, the operand stays what it is. -/
theorem reduce_of_settled {p : Nat} {fs : List (Frame α)} (h : Settled p fs) (v : α) :
    reduce M p fs v = (fs, v) := by
  cases fs with
  | nil => rfl
  | cons f fs =>
    have hnone : f.close? M p v = none := by
      -- Only an operator could be closed, and it is weaker.
      cases f with
      | binary left op | unary op | betweenAnd operand low negated =>
        exact if_neg (Nat.not_le.mpr h)
      | _ => rfl
    rw [reduce, hnone]

/-- An operator that binds strong enough takes the operand behind it. -/
theorem reduce_binary {q : Nat} {op : BinaryOp} (h : q ≤ infixLevel op) (x : α)
    (fs : List (Frame α)) (v : α) :
    reduce M q (.binary x op :: fs) v = reduce M q fs (M.binary x op v) := by
  rw [reduce, Frame.close?, if_pos h]

/-- An operator that binds strong enough takes the operand behind it. -/
theorem reduce_unary {q : Nat} {op : UnaryOp} (h : q ≤ prefixLevel op) (fs : List (Frame α))
    (v : α) : reduce M q (.unary op :: fs) v = reduce M q fs (M.unary op v) := by
  rw [reduce, Frame.close?, if_pos h]

/-- A range takes its upper end. -/
theorem reduce_betweenAnd {q : Nat} (h : q ≤ membershipLevel) (x low : α) (negated : Bool)
    (fs : List (Frame α)) (v : α) :
    reduce M q (.betweenAnd x low negated :: fs) v
      = reduce M q fs (M.between x low v negated) := by
  rw [reduce, Frame.close?, if_pos h]

/-- Whatever stands behind. -/
def anything : List Char → Bool :=
  fun _ => true

/-- The reader goes over the text of pieces from a stack and a mode to others, if what stands behind
the text is as `behind` says. -/
def Passes (M : Meaning α) (style : ParamStyle) (behind : List Char → Bool) (ps : List Piece)
    (fs : List (Frame α)) (m : Mode α) (fs' : List (Frame α)) (m' : Mode α) : Prop :=
  ∀ (position : Nat) (more : List BoundParam) (rest : List Char), behind rest = true →
    Reader.run M style ⟨Piece.params style position ps ++ more, fs, m⟩
        ((Piece.renderFrom style position ps).toList ++ rest)
      = Reader.run M style ⟨more, fs', m'⟩ rest

/-- One text after the other. -/
theorem Passes.append {behind behind' : List Char → Bool} {ps qs : List Piece}
    {fs fs' fs'' : List (Frame α)} {m m' m'' : Mode α}
    (h : Passes M style behind ps fs m fs' m') (h' : Passes M style behind' qs fs' m' fs'' m'')
    (hbehind : ∀ position rest, behind' rest = true →
      behind ((Piece.renderFrom style position qs).toList ++ rest) = true) :
    Passes M style behind' (ps ++ qs) fs m fs'' m'' := by
  intro position more rest hrest
  rw [Piece.params_append, Piece.renderFrom_append, String.toList_append, List.append_assoc,
    List.append_assoc, h position _ _ (hbehind _ rest hrest), h' _ more rest hrest]

/-- One text after the other, where it shows in the second that the first has ended. -/
theorem Passes.append_sql {behind behind' : List Char → Bool} {ps qs : List Piece} {text : String}
    {fs fs' fs'' : List (Frame α)} {m m' m'' : Mode α}
    (h : Passes M style behind ps fs m fs' m')
    (h' : Passes M style behind' (.sql text :: qs) fs' m' fs'' m'')
    (hbehind : ∀ cs, behind (text.toList ++ cs) = true) :
    Passes M style behind' (ps ++ .sql text :: qs) fs m fs'' m'' := by
  refine h.append h' fun position rest _ => ?_
  rw [Piece.renderFrom_sql, String.toList_append, List.append_assoc]
  exact hbehind _

/-- Tokens are taken one after the other. -/
theorem run_of_scan {cs rest : List Char} {ts : List Token}
    (h : scan style cs = ts ++ scan style rest) (r : Reader α) :
    Reader.run M style r cs = Reader.run M style (ts.foldl (Reader.step M) r) rest := by
  rw [Reader.run, Reader.run, h, List.foldl_append]

/-- A token is taken. -/
theorem run_of_scan_cons {cs rest : List Char} {t : Token}
    (h : scan style cs = t :: scan style rest) (r : Reader α) :
    Reader.run M style r cs = Reader.run M style (Reader.step M r t) rest := by
  rw [Reader.run, Reader.run, h, List.foldl_cons]

/-- A fixed text is passed over by taking its tokens. -/
theorem passes_sql (ts : List Token) {behind : List Char → Bool} {text : String}
    {fs fs' : List (Frame α)} {m m' : Mode α}
    (hscan : ∀ rest, behind rest = true → scan style (text.toList ++ rest) = ts ++ scan style rest)
    (hstep : ∀ more, ts.foldl (Reader.step M) ⟨more, fs, m⟩ = ⟨more, fs', m'⟩) :
    Passes M style behind [.sql text] fs m fs' m' := by
  intro position more rest hrest
  rw [Piece.renderFrom_sql, Piece.renderFrom_nil, String.append_empty,
    run_of_scan (hscan rest hrest)]
  exact congrArg (fun r => Reader.run M style r rest) (hstep more)

/-- Pieces are read as a value by themselves, on any stack. -/
def ReadsAtom (M : Meaning α) (style : ParamStyle) (ps : List Piece) (v : α) : Prop :=
  ∀ fs, Passes M style endsOperand ps fs .operand fs (.operator v)

/-- A name is that of a column, unless a parenthesis or a dot follows. -/
theorem step_named {t : Token} (h : t.extendsName = false) (params : List BoundParam)
    (fs : List (Frame α)) (n : String) :
    Reader.step M ⟨params, fs, .named n⟩ t
      = Reader.step M ⟨params, fs, .operator (M.column none n)⟩ t := by
  cases t with
  | opening | dot => cases h
  | _ => rfl

/-- A name at the end of an operand is that of a column. -/
theorem run_named {rest : List Char} (h : endsOperand rest = true) (params : List BoundParam)
    (fs : List (Frame α)) (n : String) :
    Reader.run M style ⟨params, fs, .named n⟩ rest
      = Reader.run M style ⟨params, fs, .operator (M.column none n)⟩ rest := by
  rw [Reader.run, Reader.run]
  obtain hnil | ⟨t, ts, hcons, ht⟩ := scan_endsOperand style h
  · rw [hnil]
    cases params <;> rfl
  · rw [hcons, List.foldl_cons, List.foldl_cons, step_named ht]

/-- An identifier does not go on behind an operand. -/
theorem head?_ne_quote {rest : List Char} (h : endsOperand rest = true) {q : Char}
    (hq : q = '"' ∨ q = '\'') : rest.head? ≠ some q := by
  obtain rfl | ⟨c, cs, rfl, hc⟩ := endsOperand_cases h
  · intro h
    cases h
  · rintro ⟨⟩
    rcases hc with rfl | rfl | rfl <;> rcases hq with hq | hq <;> cases hq

/-- An identifier where an operand is expected. -/
theorem step_identToken (name : String) (params : List BoundParam) (fs : List (Frame α)) :
    Reader.step M ⟨params, fs, .operand⟩ (identToken name) = ⟨params, fs, .named name⟩ := by
  unfold identToken
  split <;> rfl

/-- A column. -/
theorem readsAtom_column {name : String} (h : isNumbered style name.toList = false) :
    ReadsAtom M style [.ident name] (M.column none name) := by
  intro fs position more rest hrest
  have hscan := scan_ident h (endsWord_of_endsOperand hrest) (head?_ne_quote hrest (.inl rfl))
  rw [Piece.renderFrom_ident, Piece.renderFrom_nil, String.append_empty,
    run_of_scan_cons hscan, step_identToken, run_named hrest]
  rfl

/-- A column of a relation. -/
theorem readsAtom_qualified {relation name : String}
    (hr : isNumbered style relation.toList = false) (h : isNumbered style name.toList = false) :
    ReadsAtom M style ([.ident relation, .sql "."] ++ [.ident name])
      (M.column (some relation) name) := by
  intro fs position more rest hrest
  have hname := scan_ident h (endsWord_of_endsOperand hrest) (head?_ne_quote hrest (.inl rfl))
  have hdot : ∀ cs, scan style ('.' :: cs) = .dot :: scan style cs := fun cs => rfl
  -- Two names and a dot are three tokens, which the reader takes as one column.
  have hscan : scan style ((Identifier.text relation).toList
      ++ '.' :: ((Identifier.text name).toList ++ rest))
      = [identToken relation, .dot, identToken name] ++ scan style rest := by
    rw [scan_ident hr rfl (by simp), hdot, hname]
    rfl
  have hstep : ∀ params : List BoundParam,
      [identToken relation, .dot, identToken name].foldl (Reader.step M) ⟨params, fs, .operand⟩
        = ⟨params, fs, .operator (M.column (some relation) name)⟩ := by
    intro params
    simp only [List.foldl_cons, List.foldl_nil, step_identToken]
    unfold identToken
    split <;> rfl
  have htext : (Piece.renderFrom style position
      ([.ident relation, .sql "."] ++ [.ident name])).toList ++ rest
        = (Identifier.text relation).toList
        ++ '.' :: ((Identifier.text name).toList ++ rest) := by
    simp [String.toList_append]
  rw [htext, run_of_scan hscan, hstep]
  rfl

/-- A number. -/
theorem readsAtom_integer (n : Nat) : ReadsAtom M style [.sql (toString n)] (M.integer n) := by
  intro fs
  refine passes_sql [.integer n] ?_ fun more => rfl
  intro rest hrest
  rw [Nat.toString_eq_repr, Nat.toList_repr, scan_toDigits style n (endsWord_of_endsOperand hrest)]
  rfl

/-- A string. -/
theorem readsAtom_string (s : String) : ReadsAtom M style [.string s] (M.string s) := by
  intro fs position more rest hrest
  have hscan := scan_doubled style (.inr rfl) s (head?_ne_quote hrest (.inr rfl))
  have htoken : quotedToken '\'' s.toList = .string s := by
    rw [quotedToken, if_pos rfl, String.ofList_toList]
  rw [htoken] at hscan
  rw [Piece.renderFrom_string, Piece.renderFrom_nil, String.append_empty,
    run_of_scan_cons hscan]
  rfl

/-- Null. -/
theorem readsAtom_null : ReadsAtom M style [.sql "NULL"] M.null := by
  intro fs
  refine passes_sql [.keyword .null] ?_ fun more => rfl
  intro rest hrest
  exact scan_word style (w := ['N', 'U', 'L', 'L']) (by decide) (by decide)
    (endsWord_of_endsOperand hrest)

/-- The row number. -/
theorem readsAtom_rowNumber : ReadsAtom M style [.verbatim "ROWNUM"] M.rowNumber := by
  intro fs position more rest hrest
  have hscan : scan style ("ROWNUM".toList ++ rest) = [.keyword .rowNumber] ++ scan style rest :=
    scan_word style (w := ['R', 'O', 'W', 'N', 'U', 'M']) (by decide) (by decide)
      (endsWord_of_endsOperand hrest)
  rw [Piece.renderFrom_verbatim, Piece.renderFrom_nil, String.append_empty, run_of_scan hscan]
  rfl

/-- A parameter takes the value that is bound to its placeholder. -/
theorem readsAtom_param (name : String) (value : Option Literal) :
    ReadsAtom M style [.param name value] (M.param name value) := by
  intro fs position more rest hrest
  have hscan := scan_marker style position (endsWord_of_endsOperand hrest)
  rw [Piece.renderFrom_param, Piece.renderFrom_nil, String.append_empty,
    run_of_scan_cons hscan]
  simp [Piece.params, Reader.step, Reader.atOperand]

end SqlCompiler.Reading
