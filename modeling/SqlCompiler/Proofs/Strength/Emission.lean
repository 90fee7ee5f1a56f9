import Mathlib
import SqlCompiler.Proofs.Comments.Expression
import SqlCompiler.Proofs.Strength.Terms

/-!
# Reading emissions

An emission is read part by part. Between two parts stands a fixed text that ends a lexeme where it
meets them: on both sides (`Link`), or where nothing stands before it or behind it, on one side
(`Lead`, `Tail`). What stands in parentheses is passed over.
-/

namespace SqlCompiler.Strength

/-! ## Fixed texts between parts -/

/-- A fixed text that may stand before a part. -/
def Lead (text : String) (a b : Spot) (ops : List Operator) : Prop :=
  FixedText text.toList a b ops ∧ EndsLoose a.depth text.toList

/-- A fixed text that may stand behind a part. -/
def Tail (text : String) (a b : Spot) (ops : List Operator) : Prop :=
  FixedText text.toList a b ops ∧ StartsLoose a.depth text.toList

/-- A fixed text that may stand between two parts. -/
def Link (text : String) (a b : Spot) (ops : List Operator) : Prop :=
  Tail text a b ops ∧ EndsLoose a.depth text.toList

instance (text : String) (a b : Spot) (ops : List Operator) : Decidable (Lead text a b ops) :=
  inferInstanceAs (Decidable (_ ∧ _))

instance (text : String) (a b : Spot) (ops : List Operator) : Decidable (Tail text a b ops) :=
  inferInstanceAs (Decidable (_ ∧ _))

instance (text : String) (a b : Spot) (ops : List Operator) : Decidable (Link text a b ops) :=
  inferInstanceAs (Decidable (_ ∧ _))

/-! ## Emissions -/

/-- The text of an emission leads the reader from one spot to another. -/
def Reads (s : Settings) (a b : Spot) (ops : List Operator) (e : Emission) : Prop :=
  Writes s e (Passes a b ops)

/-- The same of an emission that a part may stand behind. -/
def Trails (s : Settings) (a b : Spot) (ops : List Operator) (e : Emission) : Prop :=
  Writes s e fun cs => Passes a b ops cs ∧ EndsLoose a.depth cs

/-- The text of an emission matches its quotes and parentheses. -/
abbrev Closes (s : Settings) (e : Emission) : Prop :=
  Keeps (PiecesCross s.paramStyle) 0 0 e

variable {s : Settings} {a b c : Spot} {xs ys : List Operator} {e f : Emission}

namespace Trails

/-- A fixed text leads to what stands behind it. -/
theorem lead {text : String} (h : Lead text a b xs) : Trails s a b xs (.sql text) :=
  Writes.piece fun _ => ⟨h.1.passes, h.2⟩

/-- What is read after a part is read on from there. -/
theorem append (he : Trails s a b xs e) (hf : Reads s b c ys f) : Reads s a c (xs ++ ys) (e ++ f) :=
  Writes.append (fun _ _ hcs hds => hcs.1.append hds (.inl hcs.2)) he hf

end Trails

namespace Reads

/-- Where nothing is written, anything is read. -/
theorem fail (f : Fault) : Reads s a b xs (.fail f) :=
  Writes.fail f

/-- The empty text leaves the reader where it is. -/
theorem empty : Reads s a a [] .empty :=
  Writes.empty .nil

/-- A fixed text is read by itself. -/
theorem fixed {text : String} (h : FixedText text.toList a b xs) : Reads s a b xs (.sql text) :=
  Writes.piece fun _ => h.passes

/-- A fixed text is read behind a part. -/
theorem tail (he : Reads s a b xs e) {text : String} (h : Tail text b c ys) :
    Reads s a c (xs ++ ys) (e ++ .sql text) := by
  have htext : Writes s (.sql text) (· = text.toList) := Writes.piece fun _ => rfl
  refine Writes.append (fun cs ds hcs hds => ?_) he htext
  obtain rfl := hds
  exact hcs.append h.1.passes (.inr h.2)

/-- A fixed text behind a part leads to the next one. -/
theorem link (he : Reads s a b xs e) {text : String} (h : Link text b c ys) :
    Trails s a c (xs ++ ys) (e ++ .sql text) := by
  have htext : Writes s (.sql text) (· = text.toList) := Writes.piece fun _ => rfl
  refine Writes.append (fun cs ds hcs hds => ?_) he htext
  obtain rfl := hds
  exact ⟨hcs.append h.1.1.passes (.inr h.1.2), endsLoose_append hcs h.2⟩

/-- What stands in parentheses is passed over. -/
theorem enclosed (h : Closes s e) : Reads s .hidden .hidden [] e :=
  Writes.imp (T := Crosses 0 0) h fun _ hcs => .of_crosses hcs

end Reads

/-- A text opens a parenthesis that is closed behind what stands in it. -/
theorem Trails.enclose (he : Trails s a .hidden xs e) (hf : Closes s f) :
    Reads s a .done xs (e ++ f ++ .sql ")") := by
  have hclose : Tail ")" .hidden .done [] := by decide
  simpa using (he.append (.enclosed hf)).tail hclose

namespace Reads

/-- Parentheses hide what stands in them, and are an operand. -/
theorem parens (he : Closes s e) : Reads s .due .done [] (.parens e) := by
  have hopen : Lead "(" .due .hidden [] := by decide
  exact (Trails.lead hopen).enclose he

/-- A name is an operand. -/
theorem ident (name : String) (m : Mode) : Reads s ⟨0, m⟩ .done [] (.ident name) :=
  Writes.piece fun _ => passes_identifier name m

/-- A literal shows the sign of a negative number. -/
theorem literal (l : Literal) : Reads s .due .done (signs l.isNegative) (l.emit s) := by
  cases l with
  | null => exact fixed (by decide)
  | boolean b =>
    refine fixed ?_
    cases s.emulateBooleans <;> cases b <;> decide
  | integer n =>
    -- The sign of a negative integer is read as an operator.
    have hlt : decide (n.toInt < 0) = (Literal.integer n).isNegative := by
      rw [Literal.isNegative, decide_eq_decide, Int64.lt_iff_toInt_lt]
      rfl
    rw [← hlt]
    exact Writes.piece fun _ => passes_integer n.toInt
  | float x =>
    rw [Literal.emit]
    split
    · next hx =>
      obtain ⟨hspelled, hnegative⟩ := Data.inspectLayout.spelled_numeral x
      refine Writes.piece fun _ => ?_
      rw [show (Literal.float x).isNegative = x.isNegative from rfl, ← hnegative]
      show Passes _ _ _ (Data.inspectLayout.text x).toList
      rw [toList_float _ hx]
      exact passes_numeral hspelled
    · exact fail _
  | string content => exact Writes.piece fun _ => passes_doubled .string content .operand

/-- A parameter shows the sign of a negative number that is inlined. -/
theorem param (name : String) (value : Option Literal) :
    Reads s .due .done (signs (s.paramStyle = .inline && value.any Literal.isNegative))
      (emitParam s name value) := by
  unfold emitParam
  split
  · next hs =>
    cases value with
    | none => exact fail _
    | some l => simpa [hs] using literal l
  · next hs =>
    rw [decide_eq_false hs, Bool.false_and]
    exact Writes.piece fun position => passes_marker s.paramStyle position .operand

end Reads

/-! ## `CASE` expressions -/

/-- Nothing counts inside a `CASE` expression. -/
theorem passes_case {body : List Char} {ops : List Operator} (h : Passes .due .done ops body)
    (hstart : StartsLoose 0 body) :
    Passes .due .done [] ("CASE".toList ++ (body ++ " END".toList)) := by
  have hcase : (Place.inside 0).after "CASE".toList = .inside 0 := by decide
  have hend : (Place.inside 0).after " END".toList = .inside 0 := by decide
  -- Inside the case distinction one more is open, so nothing that is read there counts.
  refine ⟨?_, fun cases found => ?_⟩
  · rw [Place.after_append, Place.after_append, hcase, h.place, hend]
  · have hstart : (marks (.inside 0) (body ++ " END".toList)).head?.all isLoose = true :=
      all_of_any (startsLoose_append 0 hstart _)
    have hloose : (marks (.inside 0) " END".toList).head?.all isLoose = true := by decide
    have hfirst : lexemes (marks (.inside 0) "CASE".toList) = [.caseStart] := by decide
    have hlast : lexemes (marks (.inside 0) " END".toList) = [.caseEnd] := by decide
    have hreads := h.reads (cases + 1) found
    rw [marks_append, hcase, lexemes_append (.inr hstart), marks_append, h.place,
      lexemes_append (.inr hloose), hfirst, hlast, List.foldl_append, List.foldl_append]
    simp only [List.foldl_cons, List.foldl_nil, Reader.step]
    rw [hreads]
    simp

/-- The text of an emission begins with a mark that goes on with no lexeme. -/
def Starts (s : Settings) (e : Emission) : Prop :=
  Writes s e (StartsLoose 0)

/-- An emission starts as its first part does. -/
theorem Starts.append (he : Starts s e) (f : Emission) : Starts s (e ++ f) := by
  have hf : Writes s f fun _ => True := fun _ _ _ => trivial
  exact Writes.append (fun cs ds hcs _ => startsLoose_append 0 hcs ds) he hf

/-- A fixed text starts as it does. -/
theorem Starts.sql {text : String} (h : StartsLoose 0 text.toList) : Starts s (.sql text) :=
  Writes.piece fun _ => h

namespace Reads

/-- A case distinction is an operand that shows no operators. -/
theorem caseEnd (he : Reads s .due .done xs e) (hs : Starts s e) :
    Reads s .due .done [] (.sql "CASE" ++ e ++ .sql " END") := by
  -- The body starts loose, so the word before it is a lexeme of its own.
  have hbody : Writes s e fun cs => Passes .due .done xs cs ∧ StartsLoose 0 cs :=
    fun ps hps position => ⟨he ps hps position, hs ps hps position⟩
  have hcase : Writes s (.sql "CASE") (· = "CASE".toList) := Writes.piece fun _ => rfl
  have hend : Writes s (.sql " END") (· = " END".toList) := Writes.piece fun _ => rfl
  have htail : Writes s (e ++ .sql " END") fun cs => ∃ body, cs = body ++ " END".toList ∧
      Passes .due .done xs body ∧ StartsLoose 0 body :=
    Writes.append (fun cs ds hcs hds => ⟨cs, hds ▸ rfl, hcs⟩) hbody hend
  rw [Emission.append_assoc]
  refine Writes.append (fun cs ds hcs hds => ?_) hcase htail
  obtain ⟨body, rfl, hpasses, hstart⟩ := hds
  obtain rfl := hcs
  exact passes_case hpasses hstart

/-- A branch behind what stands before it in a `CASE` expression. -/
theorem branch {m : Mode} (he : Reads s .due ⟨0, m⟩ xs e) {b : Branch}
    (hcondition : Reads s .due .done ys (b.condition.emit s)) {zs : List Operator}
    (hvalue : Reads s .due .done zs (b.value.emit s)) (bs : List Branch) :
    ∃ f, e ++ emitBranches s (b :: bs) = f ++ emitBranches s bs ∧
      Reads s .due .done (xs ++ ys ++ zs) f := by
  obtain ⟨condition, value⟩ := b
  have hwhen : Link " WHEN " ⟨0, m⟩ .due [] := by cases m <;> decide
  have hthen : Link " THEN " .done .due [] := by decide
  refine ⟨e ++ .sql " WHEN " ++ condition.emit s ++ .sql " THEN " ++ value.emit s, ?_, ?_⟩
  · simp only [emitBranches, Emission.append_assoc]
  · simpa using (((he.link hwhen).append hcondition).link hthen).append hvalue

/-- Branches are read behind what stands before them. -/
theorem branches (he : Reads s .due .done xs e) {bs : List Branch}
    (h : ∀ b ∈ bs, (∃ ops, Reads s .due .done ops (b.condition.emit s)) ∧
      ∃ ops, Reads s .due .done ops (b.value.emit s)) :
    ∃ ops, Reads s .due .done ops (e ++ emitBranches s bs) := by
  induction bs generalizing e xs with
  | nil => exact ⟨xs, by rwa [emitBranches, Emission.append_empty]⟩
  | cons b bs ih =>
    obtain ⟨⟨⟨ys, hcondition⟩, zs, hvalue⟩, hbs⟩ := List.forall_mem_cons.mp h
    obtain ⟨f, heq, hf⟩ := he.branch hcondition hvalue bs
    rw [heq]
    exact ih hf hbs

end Reads

end SqlCompiler.Strength
