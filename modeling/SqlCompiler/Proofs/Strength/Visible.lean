import Mathlib
import SqlCompiler.Proofs.Brackets.Outside
import SqlCompiler.Proofs.Comments.Emission
import SqlCompiler.Proofs.Nodes.Pieces

/-!
# Text outside quotes and parentheses

Only what stands outside quotes and parentheses can be torn apart by an operator beside it. A text
is read with a mark for each of its characters: the character itself if it is visible, and none if
it is hidden (`marks`). Whatever a node writes is hidden inside parentheses, as long as the texts of
the caller match their quotes and parentheses (`Node.crosses_emit`, `hidden_of_crosses`).
-/

namespace SqlCompiler

namespace Strength

/-! ## Places and marks -/

/-- Where a character of SQL text stands: in a zone and inside parentheses. -/
structure Place where
  zone : Zone
  depth : Nat
  deriving DecidableEq

namespace Place

/-- Outside quotes, inside parentheses. -/
def inside (depth : Nat) : Place :=
  ⟨.code, depth⟩

/-- The place after one more character. -/
def next (p : Place) (c : Char) : Place :=
  { zone := p.zone.next c
    depth :=
      if p.zone ≠ .code then p.depth
      else if c = '(' then p.depth + 1
      else if c = ')' then p.depth - 1
      else p.depth }

/-- The place after a text. -/
def after (p : Place) (cs : List Char) : Place :=
  cs.foldl next p

/-- A text is read one character at a time. -/
theorem after_cons (p : Place) (c : Char) (cs : List Char) :
    p.after (c :: cs) = (p.next c).after cs :=
  rfl

/-- Of two texts, the second is read in the place that the first leaves. -/
theorem after_append (p : Place) (cs ds : List Char) :
    p.after (cs ++ ds) = (p.after cs).after ds :=
  List.foldl_append

/-- What is seen of a character: nothing inside quotes and parentheses, and nothing of these
themselves. -/
def mark (p : Place) (c : Char) : Option Char :=
  if p = inside 0 ∧ p.next c = inside 0 ∧ c ≠ ')' then some c else none

end Place

/-- The marks of the characters of a text that begins at a place. -/
def marks : Place → List Char → List (Option Char)
  | _, [] => []
  | p, c :: cs => p.mark c :: marks (p.next c) cs

/-- Of two texts, the second is marked from the place that the first leaves. -/
theorem marks_append (p : Place) (cs ds : List Char) :
    marks p (cs ++ ds) = marks p cs ++ marks (p.after cs) ds := by
  induction cs generalizing p with
  | nil => rfl
  | cons c cs ih => rw [List.cons_append, marks, ih, marks, Place.after_cons, List.cons_append]

/-! ## Visible and hidden text -/

/-- A character that changes no place. -/
def isPlain (c : Char) : Bool :=
  c != '\'' && c != '"' && c != '(' && c != ')'

/-- A text without quotes and parentheses is visible where it stands outside them. -/
theorem visible_of_plain {cs : List Char} (h : ∀ c ∈ cs, isPlain c = true) :
    (Place.inside 0).after cs = .inside 0 ∧ marks (.inside 0) cs = cs.map some := by
  induction cs with
  | nil => exact ⟨rfl, rfl⟩
  | cons c cs ih =>
    obtain ⟨hc, hcs⟩ := List.forall_mem_cons.mp h
    simp only [isPlain, Bool.and_eq_true, bne_iff_ne] at hc
    have hnext : (Place.inside 0).next c = .inside 0 := by
      simp [Place.next, Place.inside, Zone.next, hc]
    have hmark : (Place.inside 0).mark c = some c := if_pos ⟨rfl, hnext, hc.2⟩
    obtain ⟨hplace, hmarks⟩ := ih hcs
    rw [Place.after_cons, marks, hnext, hmark, hplace, hmarks]
    exact ⟨rfl, rfl⟩

/-- Inside quotes and parentheses no character is visible. -/
theorem mark_of_hidden {p : Place} (h : p ≠ .inside 0) (c : Char) : p.mark c = none :=
  if_neg fun hp => h hp.1

/-- A text that crosses from one depth to another does so inside a further parenthesis, and nothing
of it is seen. -/
theorem hidden_of_outside {z : Zone} {cs : List Char} {i j : Nat} (hzone : z.after cs = .code)
    (hdepth : ((outside z cs).filter (· ≠ ',')).foldl nest (some i) = some j) :
    Place.after ⟨z, i + 1⟩ cs = .inside (j + 1) ∧
      marks ⟨z, i + 1⟩ cs = List.replicate cs.length none := by
  induction cs generalizing z i with
  | nil =>
    obtain rfl : z = .code := hzone
    obtain rfl := Option.some.inj hdepth
    exact ⟨rfl, rfl⟩
  | cons c cs ih =>
    have hmark : Place.mark ⟨z, i + 1⟩ c = none := mark_of_hidden (by simp [Place.inside]) c
    suffices hnext : ∃ k, Place.next ⟨z, i + 1⟩ c = ⟨z.next c, k + 1⟩ ∧
        ((outside (z.next c) cs).filter (· ≠ ',')).foldl nest (some k) = some j by
      obtain ⟨k, hnext, hrest⟩ := hnext
      obtain ⟨hplace, hmarks⟩ := ih hzone hrest
      rw [Place.after_cons, marks, hmark, hnext, hplace, hmarks]
      exact ⟨rfl, rfl⟩
    rw [outside] at hdepth
    split at hdepth
    · next hcode =>
      -- The character stands outside quotes, so it may be a parenthesis.
      obtain ⟨rfl, hcode⟩ := hcode
      by_cases hcomma : c = ','
      · subst hcomma
        exact ⟨i, rfl, by simpa using hdepth⟩
      · rw [List.filter_cons_of_pos (by simpa using hcomma)] at hdepth
        obtain ⟨k, hk, hrest⟩ := foldl_nest_cons hdepth
        refine ⟨k, ?_, hrest⟩
        obtain ⟨rfl, rfl⟩ | ⟨rfl, rfl⟩ | ⟨rfl, -⟩ | ⟨hopen, hclose, -, rfl⟩ := nest_inversion hk
        · rfl
        · rfl
        · exact absurd rfl hcomma
        · simp [Place.next, hopen, hclose]
    · next hquote =>
      refine ⟨i, ?_, hdepth⟩
      -- A quote opens here, or the character stands in quotes already.
      by_cases hz : z = .code
      · subst hz
        have hne : c ≠ '(' ∧ c ≠ ')' := by
          constructor
          all_goals
            rintro rfl
            exact hquote ⟨rfl, rfl⟩
        simp [Place.next, hne]
      · simp [Place.next, hz]

/-- A text that matches its quotes and parentheses is hidden inside parentheses. -/
theorem hidden_of_crosses {cs : List Char} (h : Crosses 0 0 cs) :
    (Place.inside 1).after cs = .inside 1 ∧
      marks (.inside 1) cs = List.replicate cs.length none :=
  hidden_of_outside h.zone h.depth

end Strength

/-! ## Nodes -/

/-- A fixed text that bridges depths crosses them. -/
theorem crosses_of_bridges {text : String} {i j : Nat} (h : Bridges text i j) :
    Crosses i j text.toList := by
  obtain ⟨⟨hsingle, hdouble⟩, hdepth⟩ := h
  obtain ⟨hzone, houtside⟩ := outside_of_unquoted fun c hc =>
    ⟨fun heq => hsingle (heq ▸ hc), fun heq => hdouble (heq ▸ hc)⟩
  exact ⟨hzone, by rw [houtside, hdepth]⟩

/-- Pieces cross from one depth to another, wherever their parameters are counted from. -/
def PiecesCross (style : ParamStyle) (i j : Nat) (ps : List Piece) : Prop :=
  ∀ position, Crosses i j (Piece.renderFrom style position ps).toList

/-- Crossing depths is a law of the pieces of nodes. -/
theorem nodeLaw_cross (style : ParamStyle) : NodeLaw (PiecesCross style) where
  nil _ := (leads_of_neutral (List.forall_mem_nil _) 0).crosses
  sql text i j h position := by
    rw [Piece.renderFrom_singleton]
    exact crosses_of_bridges h
  verbatim text h position := by
    rw [Piece.renderFrom_singleton]
    exact (leads_of_neutral (fun c hc => isNeutral_of_class (by decide) (h c hc)) 0).crosses
  append hps hqs position := by
    rw [Piece.renderFrom_append, String.toList_append]
    exact (hps position).append (hqs _)
  lift h position := (h position).lift

/-- The text of a node matches its quotes and parentheses, if the caller's texts in it do. -/
theorem Node.crosses_emit {s : Settings} {m : Node}
    (h : ∀ n, m.Visits n → ∀ text ∈ n.callerText, Crosses 0 0 text.toList) :
    Writes s (m.emit s) (Crosses 0 0) := by
  refine Node.keeps_emit (nodeLaw_cross s.paramStyle) fun n hn p hp position => ?_
  rw [Piece.renderFrom_singleton]
  obtain ⟨name, rfl⟩ | ⟨content, rfl⟩ | ⟨name, value, rfl⟩ | ⟨text, htext, rfl⟩ :=
    ownPieces_cases hp
  · exact (leads_identifier name 0).crosses
  · exact (leads_doubled .string content 0).crosses
  · exact (leads_of_neutral (isNeutral_marker _ _) 0).crosses
  · exact h n hn text htext

end SqlCompiler
