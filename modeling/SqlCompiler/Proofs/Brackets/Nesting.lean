import Mathlib
import SqlCompiler.Proofs.Agreement.Pieces
import SqlCompiler.Proofs.Ordering.Cuts

/-!
# Parentheses that nest

The depth of parentheses in a text is followed one character at a time (`nest`). A relation between
the depths before and after a text that holds of the pieces of an expression, each by itself, holds
of the whole text (`pieceLaw_follows`), as it is kept when texts are put one after the other.
-/

namespace SqlCompiler

open OrderText (Whole)

/-! ## Depths -/

/-- Parentheses that nest do so inside other ones. -/
theorem foldl_nest_add {cs : List Char} {i j : Nat} (h : cs.foldl nest (some i) = some j)
    (depth : Nat) : cs.foldl nest (some (depth + i)) = some (depth + j) := by
  -- The state of the reading is the depth, moved inward.
  refine foldl_of_nest (fun i => some (depth + i)) (fun {i k c} hk => ?_) h
  obtain ⟨rfl, rfl⟩ | ⟨rfl, rfl⟩ | ⟨rfl, hpos, rfl⟩ | ⟨hopen, hclose, hcomma, rfl⟩ :=
    nest_inversion hk
  · rfl
  · rfl
  · simp [nest, Nat.ne_of_gt hpos]
  · simp [nest, hopen, hclose, hcomma]

/-- The depth is the number of parentheses that are open. -/
theorem count_of_nest {cs : List Char} {i j : Nat} (h : cs.foldl nest (some i) = some j) :
    i + cs.count '(' = j + cs.count ')' := by
  induction cs generalizing i with
  | nil =>
    obtain rfl := Option.some.inj h
    rfl
  | cons c cs ih =>
    obtain ⟨k, hk, hrest⟩ := foldl_nest_cons h
    have hcount := ih hrest
    -- Only the two parentheses change the balance.
    obtain ⟨rfl, rfl⟩ | ⟨rfl, rfl⟩ | ⟨rfl, -, rfl⟩ | ⟨hopen, hclose, -, rfl⟩ := nest_inversion hk
    · simp only [List.count_cons_self, List.count_cons_of_ne (by decide : '(' ≠ ')')]
      omega
    · simp only [List.count_cons_self, List.count_cons_of_ne (by decide : ')' ≠ '(')]
      omega
    · exact hcount
    · rwa [List.count_cons_of_ne hopen, List.count_cons_of_ne hclose]

/-- A comma of a text whose parentheses nest stands inside some. -/
theorem comma_of_nest {before after : List Char} {j : Nat}
    (h : (before ++ ',' :: after).foldl nest (some 0) = some j) :
    ∃ k, 0 < k ∧ before.foldl nest (some 0) = some k ∧ after.foldl nest (some k) = some j := by
  rw [List.foldl_append] at h
  cases hbefore : before.foldl nest (some 0) with
  | none =>
    rw [hbefore, foldl_nest_none] at h
    cases h
  | some k =>
    rw [hbefore] at h
    obtain ⟨k', hk', hafter⟩ := foldl_nest_cons h
    -- The character is a comma, so only the third case is possible.
    obtain ⟨hc, -⟩ | ⟨hc, -⟩ | ⟨-, hpos, rfl⟩ | ⟨-, -, hc, -⟩ := nest_inversion hk'
    · cases hc
    · cases hc
    · exact ⟨_, hpos, rfl, hafter⟩
    · exact absurd rfl hc

/-- A text whose parentheses nest is not cut at any of its commas. -/
theorem whole_of_nest {cs : List Char} {j : Nat} (h : cs.foldl nest (some 0) = some j) :
    Whole cs := by
  rintro before after rfl hbalanced
  obtain ⟨k, hpos, hbefore, -⟩ := comma_of_nest h
  -- A cut needs as many opening as closing parentheses, which is depth zero.
  have hcount := count_of_nest hbefore
  rw [hbalanced] at hcount
  omega

/-- A text whose parentheses are all closed does not end in a comma. -/
theorem getLast?_of_nest {cs : List Char} (h : cs.foldl nest (some 0) = some 0) :
    cs.getLast? ≠ some ',' := by
  intro hlast
  obtain ⟨front, rfl⟩ := List.getLast?_eq_some_iff.mp hlast
  obtain ⟨k, hpos, -, hend⟩ := comma_of_nest h
  have hzero : k = 0 := Option.some.inj hend
  omega

/-- A character that has nothing to do with parentheses, and no comma. -/
def isFlat (c : Char) : Bool :=
  c != '(' && c != ')' && c != ','

/-- A flat character stays at its depth. -/
theorem nest_of_isFlat {c : Char} (h : isFlat c = true) (i : Nat) : nest (some i) c = some i := by
  simp only [isFlat, Bool.and_eq_true, bne_iff_ne] at h
  simp [nest, h]

/-- A text without parentheses and commas stays at its depth. -/
theorem foldl_nest_of_flat {cs : List Char} (h : ∀ c ∈ cs, isFlat c = true) (i : Nat) :
    cs.foldl nest (some i) = some i := by
  induction cs with
  | nil => rfl
  | cons c cs ih =>
    obtain ⟨hc, hcs⟩ := List.forall_mem_cons.mp h
    rw [List.foldl_cons, nest_of_isFlat hc]
    exact ih hcs

/-! ## Texts of pieces -/

/-- A relation between the depths before and after a text that is kept when texts are put one after
the other. -/
structure TextLaw (L : Nat → Nat → List Char → Prop) : Prop where
  nil : ∀ i, L i i []
  append : ∀ {i j k cs ds}, L i j cs → L j k ds → L i k (cs ++ ds)

/-- A piece follows a relation of depths: a fixed text as far as it fits, inside any number of
further parentheses, and any other piece at one depth. -/
def Piece.Follows (L : Nat → Nat → List Char → Prop) (style : ParamStyle) : Piece → Prop
  | .sql text => ∀ i j, Fits text i j → ∀ depth, L (depth + i) (depth + j) text.toList
  | p => ∀ depth position, L depth depth (p.text style position).toList

/-- A piece that is no fixed text follows a relation at any depth. -/
theorem Piece.Follows.of_ne_sql {L : Nat → Nat → List Char → Prop} {style : ParamStyle} {p : Piece}
    (h : p.Follows L style) (hp : ∀ text, p ≠ .sql text) (depth position : Nat) :
    L depth depth (p.text style position).toList := by
  cases p with
  | sql text => exact absurd rfl (hp text)
  | _ => exact h depth position

/-- The text of pieces follows a relation of depths if each piece does. -/
def FollowEach (L : Nat → Nat → List Char → Prop) (style : ParamStyle) (i j : Nat)
    (ps : List Piece) : Prop :=
  (∀ p ∈ ps, p.Follows L style) → ∀ depth position,
    L (depth + i) (depth + j) (Piece.renderFrom style position ps).toList

/-- One piece is rendered as its text. -/
theorem Piece.renderFrom_singleton (style : ParamStyle) (position : Nat) (p : Piece) :
    Piece.renderFrom style position [p] = p.text style position := by
  cases p <;> simp [Piece.text]

/-- The text of one piece that is no fixed text follows the relation that the piece follows. -/
theorem followEach_singleton {L : Nat → Nat → List Char → Prop} {style : ParamStyle} {p : Piece}
    (hp : ∀ text, p ≠ .sql text) : FollowEach L style 0 0 [p] := by
  intro hps depth position
  rw [Piece.renderFrom_singleton]
  exact (hps p (List.mem_singleton_self p)).of_ne_sql hp depth position

/-- Following a relation of depths piece by piece is a law of pieces. -/
theorem pieceLaw_follows {L : Nat → Nat → List Char → Prop} (law : TextLaw L)
    (style : ParamStyle) : PieceLaw style (FollowEach L style) where
  nil _ depth _ := law.nil depth
  sql text i j h hps depth position := by
    rw [Piece.renderFrom_singleton]
    exact hps _ (List.mem_singleton_self _) i j h depth
  verbatim _ := followEach_singleton fun _ => Piece.noConfusion
  ident _ := followEach_singleton fun _ => Piece.noConfusion
  string _ := followEach_singleton fun _ => Piece.noConfusion
  param _ _ _ := followEach_singleton fun _ => Piece.noConfusion
  append hp hq hps depth position := by
    rw [Piece.renderFrom_append, String.toList_append]
    exact law.append (hp (fun p hp => hps p (List.mem_append_left _ hp)) depth position)
      (hq (fun q hq => hps q (List.mem_append_right _ hq)) depth _)
  lift {i j ps} h hps depth position := by
    have hlift := h hps (depth + 1) position
    rwa [Nat.add_assoc, Nat.add_comm 1, Nat.add_assoc, Nat.add_comm 1] at hlift

/-- The text of an expression follows a relation of depths if each of its pieces does. -/
theorem Expr.follows_emit {L : Nat → Nat → List Char → Prop} (law : TextLaw L) {s : Settings}
    {e : Expr} {ps : List Piece} (h : (e.emit s).outcome = .ok ps)
    (hps : ∀ p ∈ ps, p.Follows L s.paramStyle) (depth position : Nat) :
    L depth depth (Piece.renderFrom s.paramStyle position ps).toList :=
  Expr.emit_agree (pieceLaw_follows law s.paramStyle).grammarLaw e e (e.agree_self fun _ => rfl) ps
    h hps depth position

end SqlCompiler
