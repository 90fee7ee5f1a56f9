import Mathlib
import SqlCompiler.Sql.OrderAlias

/-!
# Where a text can be cut

Two things are looked for in the text of an ordering query: the mark of an ordering term, and a
direction behind a blank. Neither goes across a character that stands in no word: a text that is cut
there has it exactly if one of the parts has it (`occursIn_append_guard`,
`hasDirection_append_guard`).
-/

namespace SqlCompiler

/-- The characters with which the fixed texts of the grammar meet what stands beside them. -/
def guards : List Char :=
  [' ', '(', ')', ',', '.', '-']

/-- No guard stands in a word. -/
theorem isWord_of_mem_guards {g : Char} (h : g ∈ guards) : Text.isWord g = false := by
  have hall : guards.all (!Text.isWord ·) = true := by decide +kernel
  simpa using List.all_eq_true.mp hall g h

/-- No guard stands in the mark. -/
theorem not_mem_marker_of_mem_guards {g : Char} (h : g ∈ guards) : g ∉ windowMarker.toList := by
  have hall : guards.all (fun g => g ∉ windowMarker.toList) = true := by decide
  simpa using List.all_eq_true.mp hall g h

/-! ## A word without guards -/

/-- A word without the guard does not begin across it. -/
theorem isPrefixOf_append_guard {word x y : List Char} {g : Char} (hg : g ∉ word) :
    word.isPrefixOf (x ++ g :: y) = word.isPrefixOf x := by
  induction word generalizing x with
  | nil => simp
  | cons c word ih =>
    rw [List.mem_cons, not_or] at hg
    cases x with
    | nil => simp [List.isPrefixOf, Ne.symm hg.1]
    | cons d x =>
      rw [List.cons_append, List.isPrefixOf, List.isPrefixOf, ih hg.2]

/-- A word occurs before a character that is not in it, or behind it. -/
theorem occursIn_append_guard {word : List Char} (hne : word ≠ []) {g : Char} (hg : g ∉ word)
    (x y : List Char) :
    occursIn word (x ++ g :: y) = (occursIn word x || occursIn word y) := by
  have hempty : word.isPrefixOf [] = false := by
    cases word with
    | nil => exact absurd rfl hne
    | cons c word => rfl
  -- The word begins before the guard, and ends there, or behind it.
  induction x with
  | nil =>
    have hfirst := isPrefixOf_append_guard (x := []) (y := y) hg
    rw [List.nil_append, hempty] at hfirst
    have hnone : occursIn word [] = false := by
      rw [occursIn, List.isEmpty_eq_false_iff.mpr hne]
    show (word.isPrefixOf (g :: y) || occursIn word y) = _
    rw [hfirst, hnone]
  | cons c x ih =>
    have hfirst := isPrefixOf_append_guard (x := c :: x) (y := y) hg
    rw [List.cons_append] at hfirst
    rw [List.cons_append, occursIn, hfirst, ih, occursIn, Bool.or_assoc]

/-- A word occurs in a text if it is a part of it. -/
theorem occursIn_iff {word cs : List Char} : occursIn word cs = true ↔ word <:+: cs := by
  induction cs with
  | nil => simp [occursIn, List.isEmpty_iff]
  | cons c cs ih =>
    rw [occursIn, Bool.or_eq_true, ih, List.infix_cons_iff, List.isPrefixOf_iff_prefix]

/-! ## Directions -/

namespace OrderText

/-- The text holds a direction with a blank before it. -/
def hasDirection : List Char → Bool
  | [] => false
  | c :: cs => Text.isBlank c && (directionLength? cs).isSome || hasDirection cs

/-- What folds to a letter is no blank. -/
theorem isBlank_of_foldLetter {c l : Char} (hl : l.isLower = true)
    (h : Text.foldLetter c = l) : Text.isBlank c = false := by
  have hletter : 97 ≤ l.toNat ∧ l.toNat ≤ 122 := by
    simpa [Char.isLower, UInt32.le_iff_toNat_le] using hl
  have hrange : 65 ≤ c.toNat → c.toNat ≤ 122 → Text.isBlank c = false := by
    intro hlow hhigh
    refine Bool.eq_false_iff.mpr fun hblank => ?_
    simp only [Text.isBlank, Text.inRanges, Text.blankRanges, List.any_cons, List.any_nil,
      Bool.or_eq_true, Bool.and_eq_true, decide_eq_true_eq, Bool.false_eq_true, or_false] at hblank
    omega
  -- Two characters beyond ASCII fold to letters, all others fold as in ASCII.
  unfold Text.foldLetter at h
  split at h
  · next hs =>
    subst hs
    decide
  · split at h
    · next hk =>
      subst hk
      decide
    · unfold Char.toLower at h
      split at h
      · next hupper =>
        have hupper : 65 ≤ c.toNat ∧ c.toNat ≤ 90 := by
          simpa [UInt32.le_iff_toNat_le] using hupper
        exact hrange hupper.1 (by omega)
      · subst h
        exact hrange (by omega) hletter.2

/-- Letters are dropped from a text that begins with them, in either case. -/
theorem dropLetters?_eq_some_iff {letters cs rest : List Char} :
    Text.dropLetters? letters cs = some rest
      ↔ ∃ word, cs = word ++ rest ∧ word.map Text.foldLetter = letters := by
  -- Letter by letter, each folded to its lower case.
  induction letters generalizing cs with
  | nil => simp [Text.dropLetters?]
  | cons l ls ih =>
    cases cs with
    | nil =>
      simp only [Text.dropLetters?, reduceCtorEq, false_iff]
      rintro ⟨word, hcs, hword⟩
      obtain ⟨rfl, -⟩ := List.append_eq_nil_iff.mp hcs.symm
      cases hword
    | cons c cs =>
      rw [Text.dropLetters?]
      split
      · next hc =>
        rw [ih]
        constructor
        · rintro ⟨word, rfl, rfl⟩
          exact ⟨c :: word, rfl, by simp [hc]⟩
        · rintro ⟨_ | ⟨d, word⟩, hcs, hword⟩
          · cases hword
          · obtain ⟨rfl, rfl⟩ := List.cons.inj hcs
            exact ⟨word, rfl, (List.cons.inj hword).2⟩
      · next hc =>
        simp only [reduceCtorEq, false_iff]
        rintro ⟨_ | ⟨d, word⟩, hcs, hword⟩
        · cases hword
        · obtain ⟨rfl, rfl⟩ := List.cons.inj hcs
          exact hc (List.cons.inj hword).1

/-- Letters are not dropped across a guard. -/
theorem dropLetters?_append_guard {letters : List Char} {g : Char}
    (hg : Text.foldLetter g ∉ letters) (x y : List Char) :
    Text.dropLetters? letters (x ++ g :: y)
      = (Text.dropLetters? letters x).map (· ++ g :: y) := by
  induction letters generalizing x with
  | nil => rfl
  | cons l ls ih =>
    rw [List.mem_cons, not_or] at hg
    -- The text ends at the guard, which is none of the letters.
    cases x with
    | nil => exact if_neg hg.1
    | cons c x =>
      rw [List.cons_append, Text.dropLetters?, Text.dropLetters?]
      split
      · exact ih hg.2 x
      · rfl

/-- Before a guard a word ends as at the end of a text. -/
theorem startsWithWord_append_guard {word : List Char} {g : Char} (hword : Text.isWord g = false)
    (hg : Text.foldLetter g ∉ word) (x y : List Char) :
    Text.startsWithWord word (x ++ g :: y) = Text.startsWithWord word x := by
  rw [Text.startsWithWord, dropLetters?_append_guard hg, Text.startsWithWord]
  cases Text.dropLetters? word x with
  | none => rfl
  | some rest =>
    cases rest with
    | nil => simp [hword]
    | cons c rest => rfl

/-- A direction does not go across a guard. -/
theorem directionLength?_append_guard {g : Char} (h : g ∈ guards) (x y : List Char) :
    directionLength? (x ++ g :: y) = directionLength? x := by
  have hall : guards.all (fun g => Text.foldLetter g ∉ "asc".toList
      ∧ Text.foldLetter g ∉ "desc".toList) = true := by
    decide
  obtain ⟨hasc, hdesc⟩ := of_decide_eq_true (List.all_eq_true.mp hall g h)
  have hword := isWord_of_mem_guards h
  rw [directionLength?, startsWithWord_append_guard hword hasc,
    startsWithWord_append_guard hword hdesc, directionLength?]

/-- There is a direction before a guard, or from the guard on. -/
theorem hasDirection_append_guard {g : Char} (h : g ∈ guards) (x y : List Char) :
    hasDirection (x ++ g :: y) = (hasDirection x || hasDirection (g :: y)) := by
  -- The guard may be the blank before a direction, so it stays with what is behind it.
  induction x with
  | nil => rfl
  | cons c x ih =>
    show (_ && (directionLength? (x ++ g :: y)).isSome || hasDirection (x ++ g :: y)) = _
    rw [directionLength?_append_guard h, ih, ← Bool.or_assoc]
    rfl

/-- Behind a blank, the text holds a direction. -/
def isDirected (cs : List Char) : Bool :=
  hasDirection (' ' :: cs)

/-- A text that holds a direction is directed. -/
theorem isDirected_of_hasDirection {cs : List Char} (h : hasDirection cs = true) :
    isDirected cs = true := by
  rw [isDirected, hasDirection, h, Bool.or_true]

/-- A direction behind a character begins the text or stands in it. -/
theorem isDirected_of_cons {g : Char} {cs : List Char} (h : hasDirection (g :: cs) = true) :
    isDirected cs = true := by
  rw [hasDirection, Bool.or_eq_true, Bool.and_eq_true] at h
  rw [isDirected, hasDirection, Bool.or_eq_true, Bool.and_eq_true]
  exact h.imp_left fun hfirst => ⟨by decide, hfirst.2⟩

end OrderText

/-! ## Properties of texts that are cut -/

/-- A property of texts that holds of one part, where a text is cut before or behind a guard. -/
structure CutsAtGuards (D : List Char → Prop) : Prop where
  before : ∀ {g : Char}, g ∈ guards → ∀ x y, D (x ++ g :: y) → D x ∨ D (g :: y)
  behind : ∀ {g : Char}, g ∈ guards → ∀ x y, D (x ++ g :: y) → D (x ++ [g]) ∨ D y

/-- Looking for the mark is cut at guards. -/
theorem cutsAtGuards_marker : CutsAtGuards fun cs => occursIn windowMarker.toList cs = true where
  before {g} h x y hxy := by
    rw [occursIn_append_guard (by decide) (not_mem_marker_of_mem_guards h), Bool.or_eq_true] at hxy
    refine hxy.imp_right fun hy => ?_
    exact occursIn_iff.mpr ((occursIn_iff.mp hy).trans (List.suffix_cons g y).isInfix)
  behind {g} h x y hxy := by
    rw [occursIn_append_guard (by decide) (not_mem_marker_of_mem_guards h), Bool.or_eq_true] at hxy
    refine hxy.imp_left fun hx => ?_
    exact occursIn_iff.mpr ((occursIn_iff.mp hx).trans (List.prefix_append x [g]).isInfix)

/-- Looking for directions is cut at guards. -/
theorem cutsAtGuards_isDirected : CutsAtGuards fun cs => OrderText.isDirected cs = true where
  before {g} h x y hxy := by
    have hcut := OrderText.hasDirection_append_guard h (' ' :: x) y
    rw [OrderText.isDirected, ← List.cons_append, hcut, Bool.or_eq_true] at hxy
    exact hxy.imp_right OrderText.isDirected_of_hasDirection
  behind {g} h x y hxy := by
    have hcut := OrderText.hasDirection_append_guard h (' ' :: x)
    rw [OrderText.isDirected, ← List.cons_append, hcut y, Bool.or_eq_true] at hxy
    refine hxy.imp (fun hx => ?_) OrderText.isDirected_of_cons
    rw [OrderText.isDirected, ← List.cons_append, hcut [], hx, Bool.true_or]

end SqlCompiler
