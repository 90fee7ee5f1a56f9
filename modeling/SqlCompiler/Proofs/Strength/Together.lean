import Mathlib
import SqlCompiler.Proofs.Brackets.Expression
import SqlCompiler.Proofs.Comments.Statement
import SqlCompiler.Proofs.Strength.Declared

/-!
# Texts that keep together

A text that is put beside an operator is one operand of it if nothing in the text ends it early or
reaches beyond it, and no operator that it shows binds weaker (`KeepsTogether`). The text of an
expression does at every strength up to the declared one, if the caller brings words only
(`Expr.keepsTogether`).
-/

namespace SqlCompiler

open Strength

/-- A text is one operand beside operators of strength `bound`. Wherever its parameters are counted
from, its parentheses nest with its commas inside them, it opens no comment, it is read from where
an operand is due to where one has been read, and no operator that it shows binds weaker. -/
structure KeepsTogether (style : ParamStyle) (bound : Nat) (text : List Piece) : Prop where
  nests : ∀ position, Leads 0 0 (Piece.renderFrom style position text).toList
  uncommented : ∀ position,
    opensComment .code (Piece.renderFrom style position text).toList = false
  term : ∀ position, IsTerm (Piece.renderFrom style position text)
  binds : ∀ position op, Counts (operators (Piece.renderFrom style position text).toList) op →
    bound ≤ op.strength

/-- The node brings no text of the caller but words that are not reserved, and doubles no minus. -/
def Node.isOrderly (s : Settings) (n : Node) : Bool :=
  (n.isPlain && n.bringsNames) && (n.callerText.all isName && !n.doublesMinus s)

/-- The text of an expression keeps together at a strength that it declares, if the caller brings
words only, no minus is doubled, and the parts that do not declare their strength keep to it. -/
theorem Expr.keepsTogether {s : Settings} {e : Expr} {ps : List Piece}
    (h : (e.emit s).outcome = .ok ps)
    (horderly : ∀ n, (Node.expr e).Visits n → n.isOrderly s = true) {bound : Nat}
    (hbound : bound ≤ e.strength)
    (hundeclared : ∀ n, e.Exposes s n → n.isDeclared s = false →
      ∀ op, Counts (n.exposed s) op → bound ≤ op.strength) :
    KeepsTogether s.paramStyle bound ps := by
  have hsplit : ∀ n, (Node.expr e).Visits n →
      (n.isPlain = true ∧ n.bringsNames = true) ∧
        n.callerText.all isName = true ∧ n.doublesMinus s = false := by
    intro n hn
    have hn := horderly n hn
    rwa [Node.isOrderly, Bool.and_eq_true, Bool.and_eq_true, Bool.and_eq_true,
      Bool.not_eq_true'] at hn
  have hcaller : ∀ n, (Node.expr e).Visits n → ∀ text ∈ n.callerText, Crosses 0 0 text.toList :=
    fun n hn text htext =>
      crosses_of_isName ((Option.all_eq_true ..).mp (hsplit n hn).2.1 text htext)
  have hterms : ∀ n, e.Shows s n → n.IsTerm :=
    fun n hn => n.isTerm_of_isName (hsplit _ hn.visits).2.1
  have hexposed : ∀ n, e.Exposes s n → n.IsTerm := fun n hn => hterms n hn.shows
  have hreads : ∀ position, Passes .due .done (e.exposed s)
      (Piece.renderFrom s.paramStyle position ps).toList :=
    reads_emit hcaller hterms ps h
  refine ⟨fun position => ?_, fun position => ?_, fun position => ?_, fun position => ?_⟩
  · -- The pieces are plain, and plain pieces keep to their parentheses.
    have hplain : ∀ p ∈ ps, p.IsPlain :=
      Node.keeps_emit nodeLaw_isPlain (m := .expr e) (fun n hn p hp =>
        List.forall_mem_singleton.mpr (Node.isPlain_of_mem (hsplit n hn).1.2 hp)) ps h
    exact follows_emit textLaw_leads h (fun p hp => (hplain p hp).follows _) 0 position
  · rw [← Bool.not_eq_true]
    intro hopens
    obtain ⟨n, hn, hdoubles⟩ :=
      ((Node.expr e).scans_emit (fun n hn => (hsplit n hn).1.1) ps h position).only hopens
    rw [(hsplit n hn).2.2] at hdoubles
    cases hdoubles
  · have hoperators := (hreads position).operators_eq
    refine ⟨hoperators ▸ hreads position, ?_⟩
    rw [hoperators]
    exact paired_exposed hexposed
  · rw [(hreads position).operators_eq]
    exact le_strength_of_undeclared hexposed hbound hundeclared

end SqlCompiler
