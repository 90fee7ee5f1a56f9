import Mathlib
import SqlCompiler.Proofs.Comments.Scan
import SqlCompiler.Proofs.Nodes.Visits
import SqlCompiler.Proofs.Ordering.Guards

/-!
# Phrases

Pieces are a phrase if, where two of them meet, one is a fixed text of the grammar that has a guard
there. What is cut at guards is found in the text of a phrase only if it is found in the text of one
of its pieces (`Phrase.exists_piece`). Emissions of phrases are put together from a phrase and what
goes on with it (`Phrased.append`).
-/

namespace SqlCompiler

/-! ## Pieces that meet at guards -/

/-- What stands at an end of a fixed text. -/
inductive Edge where
  /-- A guard, for another piece to meet. -/
  | guarded
  /-- Anything but a blank. -/
  | plain

/-- The character at an end of a text is as the edge wants it. -/
def Edge.admits : Edge → Option Char → Bool
  | .guarded, c => c.any (· ∈ guards)
  | .plain, c => c.any (!Text.isBlank ·)

/-- The fixed texts that give a direction. -/
def directionTexts : List String :=
  [" ASC", " DESC"]

/-- A fixed text with the given ends. It does not hold the mark of an ordering term, and no
direction unless it is one. -/
@[mk_iff]
structure IsFixed (first last : Edge) (text : String) : Prop where
  first : first.admits text.toList.head? = true
  last : last.admits text.toList.getLast? = true
  unmarked : occursIn windowMarker.toList text.toList = false
  undirected : text ∈ directionTexts ∨ OrderText.isDirected text.toList = false

instance (first last : Edge) (text : String) : Decidable (IsFixed first last text) :=
  decidable_of_iff' _ (isFixed_iff first last text)

/-- Pieces that meet at guards, with no blank of the grammar at the ends. -/
inductive Phrase : List Piece → Prop where
  | atom {p : Piece} (h : ∀ text, p ≠ .sql text) : Phrase [p]
  | fixed {text : String} (h : IsFixed .plain .plain text) : Phrase [.sql text]
  | front {text : String} {ps : List Piece} (h : IsFixed .plain .guarded text) (hps : Phrase ps) :
      Phrase (.sql text :: ps)
  | back {text : String} {ps : List Piece} (hps : Phrase ps) (h : IsFixed .guarded .plain text) :
      Phrase (ps ++ [.sql text])
  | glue {text : String} {ps qs : List Piece} (hps : Phrase ps)
      (h : IsFixed .guarded .guarded text) (hqs : Phrase qs) : Phrase (ps ++ .sql text :: qs)

/-- The text of a piece, where a parameter is written as `?`. -/
def Piece.chars (p : Piece) : List Char :=
  (p.text .questionMark 1).toList

/-- The text of pieces with `?` is their characters one after the other. -/
theorem Piece.toList_render (ps : List Piece) :
    (Piece.render .questionMark ps).toList = ps.flatMap Piece.chars := by
  -- With `?` the position of a parameter makes no difference.
  have hfrom : ∀ position,
      (Piece.renderFrom .questionMark position ps).toList = ps.flatMap Piece.chars := by
    induction ps with
    | nil => exact fun _ => rfl
    | cons p ps ih =>
      intro position
      cases p <;> simp [ih, Piece.chars, Piece.text, ParamStyle.marker]
  rw [Piece.render_eq_renderFrom]
  exact hfrom 1

/-- A fixed text with a guard in front begins with it. -/
theorem IsFixed.exists_first {last : Edge} {text : String} (h : IsFixed .guarded last text) :
    ∃ g ∈ guards, ∃ rest, text.toList = g :: rest := by
  obtain ⟨g, hg, hmem⟩ := Option.any_eq_true _ _ |>.mp h.first
  obtain ⟨rest, hrest⟩ := List.head?_eq_some_iff.mp hg
  exact ⟨g, of_decide_eq_true hmem, rest, hrest⟩

/-- A fixed text with a guard behind ends in it. -/
theorem IsFixed.exists_last {first : Edge} {text : String} (h : IsFixed first .guarded text) :
    ∃ g ∈ guards, ∃ rest, text.toList = rest ++ [g] := by
  obtain ⟨g, hg, hmem⟩ := Option.any_eq_true _ _ |>.mp h.last
  obtain ⟨rest, hrest⟩ := List.getLast?_eq_some_iff.mp hg
  exact ⟨g, of_decide_eq_true hmem, rest, hrest⟩

namespace CutsAtGuards

variable {D : List Char → Prop}

/-- A text is cut before a fixed text that begins with a guard. -/
theorem before_fixed (hD : CutsAtGuards D) {last : Edge} {text : String}
    (h : IsFixed .guarded last text) {x y : List Char} (hxy : D (x ++ (text.toList ++ y))) :
    D x ∨ D (text.toList ++ y) := by
  obtain ⟨g, hg, rest, htext⟩ := h.exists_first
  rw [htext, List.cons_append] at hxy ⊢
  exact hD.before hg x _ hxy

/-- A text is cut behind a fixed text that ends with a guard. -/
theorem behind_fixed (hD : CutsAtGuards D) {first : Edge} {text : String}
    (h : IsFixed first .guarded text) {y : List Char} (hy : D (text.toList ++ y)) :
    D text.toList ∨ D y := by
  obtain ⟨g, hg, rest, htext⟩ := h.exists_last
  rw [htext, List.append_assoc, List.singleton_append] at hy
  rw [htext]
  exact hD.behind hg rest y hy

end CutsAtGuards

namespace Phrase

/-- What is cut at guards is found in the text of one piece. -/
theorem exists_piece {D : List Char → Prop} (hD : CutsAtGuards D) {ps : List Piece}
    (h : Phrase ps) (ht : D (ps.flatMap Piece.chars)) : ∃ p ∈ ps, D p.chars := by
  -- Wherever two pieces meet, the guard is at the end of a fixed text, and the text is cut there.
  induction h with
  | @atom p _ => exact ⟨p, List.mem_singleton_self p, by simpa using ht⟩
  | @fixed text _ => exact ⟨.sql text, List.mem_singleton_self _, by simpa using ht⟩
  | @front text ps hfixed _ ih =>
    rw [List.flatMap_cons] at ht
    obtain ht | ht := hD.behind_fixed hfixed ht
    · exact ⟨.sql text, List.mem_cons_self, ht⟩
    · obtain ⟨p, hp, hDp⟩ := ih ht
      exact ⟨p, List.mem_cons_of_mem _ hp, hDp⟩
  | @back text ps _ hfixed ih =>
    rw [List.flatMap_append, List.flatMap_cons] at ht
    obtain ht | ht := hD.before_fixed hfixed ht
    · obtain ⟨p, hp, hDp⟩ := ih ht
      exact ⟨p, List.mem_append_left _ hp, hDp⟩
    · rw [List.flatMap_nil, List.append_nil] at ht
      exact ⟨.sql text, by simp, ht⟩
  | @glue text ps qs _ hfixed _ ihps ihqs =>
    rw [List.flatMap_append, List.flatMap_cons] at ht
    obtain ht | ht := hD.before_fixed hfixed ht
    · obtain ⟨p, hp, hDp⟩ := ihps ht
      exact ⟨p, List.mem_append_left _ hp, hDp⟩
    · obtain ht | ht := hD.behind_fixed hfixed ht
      · exact ⟨.sql text, by simp, ht⟩
      · obtain ⟨p, hp, hDp⟩ := ihqs ht
        exact ⟨p, by simp [hp], hDp⟩

/-- Every fixed text of a phrase is one of the grammar. -/
theorem isFixed {ps : List Piece} (h : Phrase ps) {text : String} (ht : .sql text ∈ ps) :
    ∃ first last, IsFixed first last text := by
  -- The text is the piece that has just been added, or one of the others.
  induction h with
  | atom hp => exact absurd (List.mem_singleton.mp ht).symm (hp text)
  | fixed hfixed =>
    obtain rfl := Piece.sql.inj (List.mem_singleton.mp ht)
    exact ⟨_, _, hfixed⟩
  | front hfixed _ ih =>
    obtain ht | ht := List.mem_cons.mp ht
    · obtain rfl := Piece.sql.inj ht
      exact ⟨_, _, hfixed⟩
    · exact ih ht
  | back _ hfixed ih =>
    obtain ht | ht := List.mem_append.mp ht
    · exact ih ht
    · obtain rfl := Piece.sql.inj (List.mem_singleton.mp ht)
      exact ⟨_, _, hfixed⟩
  | glue _ hfixed _ ihps ihqs =>
    obtain ht | ht := List.mem_append.mp ht
    · exact ihps ht
    · obtain ht | ht := List.mem_cons.mp ht
      · obtain rfl := Piece.sql.inj ht
        exact ⟨_, _, hfixed⟩
      · exact ihqs ht

end Phrase

/-! ## Emissions of phrases -/

/-- The pieces of an emission are a phrase. -/
def Phrased (e : Emission) : Prop :=
  ∀ ps, e.outcome = .ok ps → Phrase ps

/-- Behind a phrase, the pieces of an emission go on with it. -/
def Trails (e : Emission) : Prop :=
  ∀ ps, e.outcome = .ok ps → ∀ qs, Phrase qs → Phrase (qs ++ ps)

/-- Nothing goes on with a phrase. -/
theorem Trails.empty : Trails .empty := by
  intro ps hps qs hqs
  obtain rfl := Except.ok.inj hps
  rwa [List.append_nil]

/-- What goes on with a phrase may go on in turn. -/
theorem Trails.append {a b : Emission} (ha : Trails a) (hb : Trails b) : Trails (a ++ b) := by
  intro ps hps qs hqs
  obtain ⟨pa, pb, hpa, hpb, rfl⟩ := Emission.outcome_append_ok hps
  rw [← List.append_assoc]
  exact hb pb hpb _ (ha pa hpa qs hqs)

/-- A fixed text with a guard in front goes on with a phrase. -/
theorem Trails.back {text : String} (h : IsFixed .guarded .plain text) : Trails (.sql text) := by
  intro ps hps qs hqs
  obtain rfl := Except.ok.inj hps
  exact hqs.back h

/-- A fixed text with guards on both sides goes on with a phrase and another one. -/
theorem Trails.glue {text : String} (h : IsFixed .guarded .guarded text) {e : Emission}
    (he : Phrased e) : Trails (.sql text ++ e) := by
  intro ps hps qs hqs
  obtain ⟨p, pe, hp, hpe, rfl⟩ := Emission.outcome_append_ok hps
  obtain rfl := Except.ok.inj hp
  exact hqs.glue h (he pe hpe)

/-- A failed emission goes on with anything. -/
theorem Trails.fail (f : Fault) : Trails (.fail f) := by
  intro ps hps
  cases hps

namespace Phrased

/-- A failed emission is a phrase. -/
theorem fail (f : Fault) : Phrased (.fail f) := by
  intro ps hps
  cases hps

/-- What follows a computation is a phrase if it is for every result. -/
theorem bind {α : Type} {x : Traced α} {f : α → Emission}
    (h : ∀ a, x.outcome = .ok a → Phrased (f a)) : Phrased (x.bind f) := by
  intro ps hps
  obtain ⟨a, ha, hps⟩ := Traced.outcome_bind_ok hps
  exact h a ha ps hps

/-- A note changes nothing. -/
theorem note (n : Note) {e : Emission} (he : Phrased e) : Phrased (.note n ++ e) := by
  intro ps hps
  rw [Emission.outcome_note_append] at hps
  exact he ps hps

/-- One piece that is no fixed text is a phrase. -/
theorem piece {p : Piece} (h : ∀ text, p ≠ .sql text) : Phrased (.piece p) := by
  intro ps hps
  obtain rfl := Except.ok.inj hps
  exact .atom h

/-- A text of the caller is a phrase. -/
theorem verbatim (text : String) : Phrased (.verbatim text) :=
  piece fun _ => Piece.noConfusion

/-- A name is a phrase. -/
theorem ident (name : String) : Phrased (.ident name) :=
  piece fun _ => Piece.noConfusion

/-- A fixed text is a phrase. -/
theorem sql {text : String} (h : IsFixed .plain .plain text) : Phrased (.sql text) := by
  intro ps hps
  obtain rfl := Except.ok.inj hps
  exact .fixed h

/-- A phrase and what goes on with it are a phrase. -/
theorem append {a b : Emission} (ha : Phrased a) (hb : Trails b) : Phrased (a ++ b) := by
  intro ps hps
  obtain ⟨pa, pb, hpa, hpb, rfl⟩ := Emission.outcome_append_ok hps
  exact hb pb hpb pa (ha pa hpa)

/-- A fixed text with a guard behind may stand in front of a phrase. -/
theorem front {text : String} (h : IsFixed .plain .guarded text) {e : Emission} (he : Phrased e) :
    Phrased (.sql text ++ e) := by
  intro ps hps
  obtain ⟨p, pe, hp, hpe, rfl⟩ := Emission.outcome_append_ok hps
  obtain rfl := Except.ok.inj hp
  exact .front h (he pe hpe)

/-- Parentheses are guards. -/
theorem parens {e : Emission} (he : Phrased e) : Phrased (.parens e) := by
  rw [Emission.parens, Emission.append_assoc]
  exact front (by decide) (he.append (.back (by decide)))

/-- A list is a phrase if its items are and the separator has guards on both sides. -/
theorem join {separator : String} (hsep : IsFixed .guarded .guarded separator)
    {es : List Emission} (hne : es ≠ []) (h : ∀ e ∈ es, Phrased e) :
    Phrased (.join separator es) := by
  induction es with
  | nil => exact absurd rfl hne
  | cons e es ih =>
    obtain ⟨he, hes⟩ := List.forall_mem_cons.mp h
    cases es with
    | nil => exact he
    | cons e' es => exact he.append (.glue hsep (ih (List.cons_ne_nil e' es) hes))

/-- A list, be it empty or not, is a phrase with the parenthesis that closes it. -/
theorem closedList {es : List Emission} (h : ∀ e ∈ es, Phrased e) :
    Phrased (.join ", " es ++ .sql ")") := by
  -- An empty list leaves the closing parenthesis alone, which is a guard.
  cases es with
  | nil =>
    show Phrased (.empty ++ .sql ")")
    rw [Emission.empty_append]
    exact sql (by decide)
  | cons e es =>
    exact (join (by decide) (List.cons_ne_nil e es) h).append (.back (by decide))

/-- An operand is a phrase if its expression is. -/
theorem operand {r : Rendered} (h : Phrased r.emission) {side : Side} {strength : Nat}
    {a : Associativity} : Phrased (r.operand side strength a) := by
  unfold Rendered.operand
  split
  · exact h.parens
  · exact h

end Phrased

/-- A clause goes on with a phrase. -/
theorem Trails.clause {word : String} (hword : IsFixed .guarded .guarded word)
    {es : List Emission} (h : ∀ e ∈ es, Phrased e) : Trails (.clause word ", " es) := by
  cases es with
  | nil => exact .empty
  | cons e es => exact .glue hword (.join (by decide) (List.cons_ne_nil e es) h)

/-- A clause of conditions goes on with a phrase. -/
theorem Trails.conditions {word : String} (hword : IsFixed .guarded .guarded word)
    {rs : List Rendered} (h : ∀ r ∈ rs, Phrased r.emission) :
    Trails (SqlCompiler.conditions word rs) := by
  match rs, h with
  | [], _ => exact .empty
  | [r], h => exact .glue hword (h r List.mem_cons_self)
  | r :: r' :: rs, h =>
    refine .glue hword (.join (by decide) (by simp) (List.forall_mem_map.mpr fun x hx => ?_))
    exact .operand (h x hx)

/-- A direction goes on with a phrase. -/
theorem Trails.direction (d : Option SortDirection) : Trails (emitDirection d) := by
  obtain _ | _ | _ := d
  · exact .empty
  · exact .back (by decide)
  · exact .back (by decide)

/-- A word with its negation goes on with a phrase. -/
theorem Trails.negatable (negated : Bool) {positive negative : String}
    (hp : IsFixed .guarded .plain positive) (hn : IsFixed .guarded .plain negative) :
    Trails (negatable negated positive negative) := by
  cases negated
  · exact .back hp
  · exact .back hn

/-- A word with its negation goes on with a phrase and another one. -/
theorem Trails.negatable_append (negated : Bool) {positive negative : String}
    (hp : IsFixed .guarded .guarded positive) (hn : IsFixed .guarded .guarded negative)
    {e : Emission} (he : Phrased e) :
    Trails (SqlCompiler.negatable negated positive negative ++ e) := by
  cases negated
  · exact .glue hp he
  · exact .glue hn he

/-- What stands after a word goes on with a phrase. -/
theorem Trails.after {word : String} (hword : IsFixed .guarded .guarded word)
    {x : Option Emission} (h : ∀ e ∈ x, Phrased e) : Trails (SqlCompiler.after word x) := by
  cases x with
  | none => exact .empty
  | some e => exact .glue hword (h e rfl)

/-- A phrase stays one behind the name of a relation. -/
theorem Phrased.qualified (relation : Option String) {e : Emission} (he : Phrased e) :
    Phrased (qualifier relation ++ e) := by
  cases relation with
  | none =>
    rw [qualifier, Emission.empty_append]
    exact he
  | some name =>
    rw [qualifier, Emission.append_assoc]
    exact (ident name).append (.glue (by decide) he)

/-! ## Numbers and value lists -/

/-- The characters of numbers can be listed. -/
theorem mem_of_isNumeric {c : Char} (h : isNumeric c = true) : c ∈ "0123456789-+.e".toList := by
  have hdigit : c.isDigit = true → c ∈ "0123456789".toList := by
    intro hc
    have hrange : 48 ≤ c.toNat ∧ c.toNat ≤ 57 := by
      simpa [Char.isDigit, UInt32.le_iff_toNat_le] using hc
    obtain ⟨hlow, hhigh⟩ := hrange
    rw [← Char.ofNat_toNat c]
    generalize c.toNat = n at hlow hhigh
    interval_cases n <;> decide
  simp only [isNumeric, Bool.or_eq_true, beq_iff_eq] at h
  -- A digit, or one of four signs.
  obtain (((h | rfl) | rfl) | rfl) | rfl := h
  · have hsplit : "0123456789-+.e".toList = "0123456789".toList ++ "-+.e".toList := by decide
    rw [hsplit]
    exact List.mem_append_left _ (hdigit h)
  all_goals decide

/-- A number is a fixed text. -/
theorem isFixed_of_numeric {text : String} (hne : text.toList ≠ [])
    (h : ∀ c ∈ text.toList, isNumeric c = true) : IsFixed .plain .plain text := by
  -- None of these characters is a blank or begins the mark or a direction.
  have hall : "0123456789-+.e".toList.all (fun c => !Text.isBlank c && c != 'F'
      && Text.foldLetter c != 'a' && Text.foldLetter c != 'd') = true := by
    decide
  have hchar : ∀ c ∈ text.toList, Text.isBlank c = false ∧ c ≠ 'F' ∧ Text.foldLetter c ≠ 'a' ∧
      Text.foldLetter c ≠ 'd' := by
    intro c hc
    simpa [and_assoc] using List.all_eq_true.mp hall c (mem_of_isNumeric (h c hc))
  obtain ⟨c, cs, hcs⟩ := List.exists_cons_of_ne_nil hne
  refine ⟨?_, ?_, ?_, .inr ?_⟩
  · rw [hcs]
    simpa [Edge.admits] using (hchar c (by simp [hcs])).1
  · rw [List.getLast?_eq_some_getLast hne]
    simpa [Edge.admits] using (hchar _ (List.getLast_mem hne)).1
  · rw [Bool.eq_false_iff, Ne, occursIn_iff]
    intro hwithin
    exact (hchar 'F' (hwithin.subset (by decide))).2.1 rfl
  · -- There is no blank in the text, and it does not begin with a direction.
    have hnone : ∀ cs : List Char, (∀ c ∈ cs, Text.isBlank c = false) →
        OrderText.hasDirection cs = false := by
      intro cs hcs
      induction cs with
      | nil => rfl
      | cons c cs ih =>
        obtain ⟨hc, hcs⟩ := List.forall_mem_cons.mp hcs
        rw [OrderText.hasDirection, hc, ih hcs]
        rfl
    have hfirst := hchar c (by simp [hcs])
    have hlength : OrderText.directionLength? text.toList = none := by
      rw [hcs]
      simp [OrderText.directionLength?, Text.startsWithWord, Text.dropLetters?, hfirst]
    rw [OrderText.isDirected, OrderText.hasDirection, hlength, hnone _ fun c hc => (hchar c hc).1]
    rfl

namespace Phrased

variable {s : Settings}

/-- A literal is a phrase. -/
theorem literal (l : Literal) : Phrased (l.emit s) := by
  cases l with
  | null => exact sql (by decide)
  | boolean b =>
    refine sql ?_
    cases s.emulateBooleans <;> cases b <;> decide
  | integer n => exact sql (isFixed_of_numeric (integer_text _).2.1 (numeric_toString _))
  | float x =>
    rw [Literal.emit]
    split
    · next h => exact sql (isFixed_of_numeric (float_text _ h).2.1 (numeric_float _ h))
    · exact fail _
  | string content => exact piece fun _ => Piece.noConfusion

/-- A parameter is a phrase. -/
theorem param (name : String) (value : Option Literal) : Phrased (emitParam s name value) := by
  unfold emitParam
  split
  · cases value with
    | none => exact fail _
    | some l => exact literal l
  · exact piece fun _ => Piece.noConfusion

/-- A test for literals is a phrase if its operand is. -/
theorem single {operand : Emission} (h : Phrased operand) (negated : Bool)
    (values : List Literal) : Phrased (InValues.single s operand negated values) := by
  have hlist : Phrased (.join ", " (values.map (·.emit s)) ++ .sql ")") :=
    closedList (List.forall_mem_map.mpr fun l _ => literal l)
  rw [InValues.single, Emission.append_assoc, Emission.append_assoc]
  exact h.append (.glue (by cases negated <;> decide) hlist)

/-- A test for literals is a phrase, split or not. -/
theorem inLiterals {operand : Emission} (negated : Bool) (values : List Literal)
    (h : (values.isEmpty && negated) = false → Phrased operand) :
    Phrased (InValues.emit s operand negated values) := by
  unfold InValues.emit
  -- Without literals the operand is tested against a null, and a negated test has no operand.
  split
  · cases negated with
    | true => exact sql (by decide)
    | false => exact (h (by simp)).append (.back (by decide))
  · next hvalues =>
    have hsingle : ∀ part, Phrased (InValues.single s operand negated part) :=
      fun part => single (h (by simp [hvalues])) negated part
    split
    · next max _ =>
      split
      · refine note _ (parens (join ?_ ?_ (List.forall_mem_map.mpr fun part _ => hsingle part)))
        · cases negated <;> decide
        · simpa using chunks_ne_nil max (by simpa using hvalues)
      · exact hsingle values
    · exact hsingle values

end Phrased

end SqlCompiler
