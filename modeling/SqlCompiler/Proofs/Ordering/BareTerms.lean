import Mathlib
import SqlCompiler.Proofs.Ordering.Cuts
import SqlCompiler.Proofs.Ordering.Guards

/-!
# Terms without their directions

The terms of an ordering text lose every direction in them and the blanks around them. Of the text
of one expression, with a direction behind it, exactly the expression is left if it is kept
(`Kept`): it is not cut, holds no direction of its own, and has no blank at its ends. If not,
something is lost, so that what is left of several orders is their expressions only if each of them
is kept (`flatMap_bareTerms_iff`).
-/

namespace SqlCompiler.OrderText

/-! ## Dropping directions -/

/-- No direction begins with a blank. -/
theorem directionLength?_of_blank {c : Char} (h : Text.isBlank c = true) (cs : List Char) :
    directionLength? (c :: cs) = none := by
  have hfold : ∀ l : Char, l.isLower = true → Text.foldLetter c ≠ l := by
    intro l hl heq
    rw [isBlank_of_foldLetter hl heq] at h
    cases h
  simp [directionLength?, Text.startsWithWord, Text.dropLetters?, hfold 'a' (by decide),
    hfold 'd' (by decide)]

/-- A direction is not longer than the text that begins with it. -/
theorem directionLength?_le {cs : List Char} {length : Nat}
    (h : directionLength? cs = some length) : length ≤ cs.length := by
  have hword : ∀ {word : List Char}, Text.startsWithWord word cs = true →
      word.length ≤ cs.length := by
    intro word hstarts
    rw [Text.startsWithWord] at hstarts
    cases hrest : Text.dropLetters? word cs with
    | none =>
      rw [hrest] at hstarts
      cases hstarts
    | some rest =>
      obtain ⟨letters, rfl, rfl⟩ := dropLetters?_eq_some_iff.mp hrest
      simp
  unfold directionLength? at h
  -- The direction is one of two words, which stands in the text.
  split at h
  · next hasc =>
    obtain rfl := Option.some.inj h
    exact hword hasc
  · split at h
    · next hdesc =>
      obtain rfl := Option.some.inj h
      exact hword hdesc
    · cases h

/-- Dropping directions adds nothing. -/
theorem length_dropDirectionsFrom_le (skip : Nat) (blanks cs : List Char) :
    (dropDirectionsFrom skip blanks cs).length ≤ blanks.length + cs.length := by
  fun_induction dropDirectionsFrom skip blanks cs <;>
    simp only [List.length_reverse, List.length_append, List.length_cons, List.length_nil] at * <;>
    omega

/-- A blank is held back until it is known whether a direction follows. -/
theorem dropDirectionsFrom_blank {c : Char} (h : Text.isBlank c = true) (blanks cs : List Char) :
    dropDirectionsFrom 0 blanks (c :: cs) = dropDirectionsFrom 0 (c :: blanks) cs :=
  if_pos h

/-- What begins with no blank is a direction, if blanks have been passed, or a character that
stays. -/
theorem dropDirectionsFrom_cases {c : Char} (h : Text.isBlank c = false) (blanks cs : List Char) :
    (∃ length, blanks ≠ [] ∧ directionLength? (c :: cs) = some length ∧
      dropDirectionsFrom 0 blanks (c :: cs) = dropDirectionsFrom (length - 1) [] cs) ∨
    ((blanks = [] ∨ directionLength? (c :: cs) = none) ∧
      dropDirectionsFrom 0 blanks (c :: cs)
        = blanks.reverse ++ c :: dropDirectionsFrom 0 [] cs) := by
  cases blanks with
  | nil => exact .inr ⟨.inl rfl, by simp [dropDirectionsFrom, h]⟩
  | cons b bs =>
    cases hlength : directionLength? (c :: cs) with
    | none => exact .inr ⟨.inr rfl, by simp [dropDirectionsFrom, h, hlength]⟩
    | some length =>
      exact .inl ⟨length, List.cons_ne_nil b bs, rfl, by simp [dropDirectionsFrom, h, hlength]⟩

/-- A text without a direction stays as it is, unless it begins with one behind blanks. -/
theorem dropDirectionsFrom_eq_self {blanks cs : List Char} (h : hasDirection cs = false)
    (hblanks : blanks ≠ [] → directionLength? cs = none) :
    dropDirectionsFrom 0 blanks cs = blanks.reverse ++ cs := by
  induction cs generalizing blanks with
  | nil => exact (List.append_nil _).symm
  | cons c cs ih =>
    rw [hasDirection, Bool.or_eq_false_iff] at h
    -- A blank is held back; any other character releases the blanks before it.
    cases hc : Text.isBlank c with
    | true =>
      have hnone : directionLength? cs = none := by simpa [hc] using h.1
      rw [dropDirectionsFrom_blank hc, ih h.2 fun _ => hnone, List.reverse_cons, List.append_assoc,
        List.singleton_append]
    | false =>
      obtain ⟨length, hne, hlength, -⟩ | ⟨-, hstep⟩ := dropDirectionsFrom_cases hc blanks cs
      · rw [hblanks hne] at hlength
        cases hlength
      · have hrest : dropDirectionsFrom 0 [] cs = cs := ih h.2 fun hne => absurd rfl hne
        rw [hstep, hrest]

/-- A text with a direction gets shorter. -/
theorem length_dropDirectionsFrom_lt {blanks cs : List Char}
    (h : hasDirection cs = true ∨ blanks ≠ [] ∧ (directionLength? cs).isSome = true) :
    (dropDirectionsFrom 0 blanks cs).length < blanks.length + cs.length := by
  induction cs generalizing blanks with
  | nil => simp [hasDirection, directionLength?, Text.startsWithWord, Text.dropLetters?] at h
  | cons c cs ih =>
    cases hc : Text.isBlank c with
    | true =>
      -- A direction begins behind this blank, or later.
      rw [hasDirection, hc, directionLength?_of_blank hc] at h
      have hlater : hasDirection cs = true ∨
          c :: blanks ≠ [] ∧ (directionLength? cs).isSome = true := by
        simpa [or_comm] using h
      have hlt := ih hlater
      rw [dropDirectionsFrom_blank hc]
      simp only [List.length_cons] at hlt ⊢
      omega
    | false =>
      rw [hasDirection, hc, Bool.false_and, Bool.false_or] at h
      -- The direction is here, and dropped with its blanks, or it comes later.
      obtain ⟨length, -, -, hstep⟩ | ⟨hnone, hstep⟩ := dropDirectionsFrom_cases hc blanks cs
      · have hle := length_dropDirectionsFrom_le (length - 1) [] cs
        rw [hstep]
        simp only [List.length_cons, List.length_nil] at hle ⊢
        omega
      · have hcs : hasDirection cs = true := by
          refine h.resolve_right ?_
          rintro ⟨hne, hsome⟩
          rw [hnone.resolve_left hne] at hsome
          cases hsome
        have hlt : (dropDirectionsFrom 0 [] cs).length < ([] : List Char).length + cs.length :=
          ih (.inl hcs)
        rw [hstep]
        simp only [List.length_append, List.length_reverse, List.length_cons, List.length_nil]
          at hlt ⊢
        omega

/-- A direction behind a text is dropped with the blanks before it. -/
theorem dropDirectionsFrom_append (d : SortDirection) {skip : Nat} {blanks cs : List Char}
    (hblanks : ∀ c ∈ blanks, Text.isBlank c = true) (hskip : skip ≤ cs.length) :
    ∃ tail, (∀ c ∈ tail, Text.isBlank c = true) ∧ dropDirectionsFrom skip blanks cs
      = dropDirectionsFrom skip blanks (cs ++ ' ' :: d.text.toList) ++ tail := by
  induction cs generalizing skip blanks with
  | nil =>
    obtain rfl := Nat.le_zero.mp hskip
    refine ⟨blanks.reverse, by simpa using hblanks, ?_⟩
    cases d <;> rfl
  | cons c cs ih =>
    -- Inside a direction characters are skipped, and it ends before the text does.
    cases skip with
    | succ skip => exact ih (by simp) (Nat.le_of_succ_le_succ hskip)
    | zero =>
      rw [List.cons_append]
      cases hc : Text.isBlank c with
      | true =>
        rw [dropDirectionsFrom_blank hc, dropDirectionsFrom_blank hc]
        exact ih (List.forall_mem_cons.mpr ⟨hc, hblanks⟩) (Nat.zero_le _)
      | false =>
        -- The blank before the direction ends a word as the end of the text does.
        have hsame : directionLength? (c :: (cs ++ ' ' :: d.text.toList))
            = directionLength? (c :: cs) :=
          directionLength?_append_guard (by decide) (c :: cs) _
        obtain ⟨length, hne, hlength, hstep⟩ | ⟨hnone, hstep⟩ :=
          dropDirectionsFrom_cases hc blanks cs
        · obtain ⟨length', -, hlength', hstep'⟩ | ⟨hnone', -⟩ :=
            dropDirectionsFrom_cases hc blanks (cs ++ ' ' :: d.text.toList)
          · rw [hsame, hlength] at hlength'
            obtain rfl := Option.some.inj hlength'
            have hle : length ≤ (c :: cs).length := directionLength?_le hlength
            rw [hstep, hstep']
            exact ih (by simp) (by simp only [List.length_cons] at hle; omega)
          · rw [hsame, hlength] at hnone'
            exact absurd (hnone'.resolve_right (by simp)) hne
        · obtain ⟨length', hne, hlength', -⟩ | ⟨-, hstep'⟩ :=
            dropDirectionsFrom_cases hc blanks (cs ++ ' ' :: d.text.toList)
          · rw [hsame, hnone.resolve_left hne] at hlength'
            cases hlength'
          · obtain ⟨tail, htail, hrest⟩ := ih (List.forall_mem_nil _) (Nat.zero_le cs.length)
            refine ⟨tail, htail, ?_⟩
            rw [hstep, hstep', hrest, List.append_assoc, List.cons_append]

/-! ## Terms without blanks at their ends -/

/-- Blanks at the end make no difference to what is left after trimming. -/
theorem trim_append_blanks (cs : List Char) {tail : List Char}
    (h : ∀ c ∈ tail, Text.isBlank c = true) : Text.trim (cs ++ tail) = Text.trim cs := by
  have hend : ∀ cs : List Char, Text.trimEnd (cs ++ tail) = Text.trimEnd cs := by
    intro cs
    rw [Text.trimEnd, List.reverse_append, List.dropWhile_append_of_pos (by simpa using h)]
    rfl
  rw [Text.trim, List.dropWhile_append]
  split
  · next hnil =>
    have hblank : tail.dropWhile Text.isBlank = [] := List.dropWhile_eq_nil_iff.mpr h
    rw [hblank, Text.trim, List.isEmpty_iff.mp hnil]
  · exact hend _

/-- Trimming leaves out characters only. -/
theorem trim_sublist (cs : List Char) : (Text.trim cs).Sublist cs :=
  (List.rdropWhile_prefix Text.isBlank _).sublist.trans (List.dropWhile_sublist _)

/-- A text that is not empty, with no blanks at its ends. -/
def Trimmed (cs : List Char) : Prop :=
  cs.head?.any (!Text.isBlank ·) = true ∧ cs.getLast?.any (!Text.isBlank ·) = true

/-- Nothing is lost of a text by trimming exactly if it has no blanks at its ends. -/
theorem trim_eq_self_iff {cs : List Char} (hne : cs ≠ []) : Text.trim cs = cs ↔ Trimmed cs := by
  have hfirst : cs.dropWhile Text.isBlank = cs ↔ cs.head?.any (!Text.isBlank ·) = true := by
    obtain ⟨c, cs, rfl⟩ := List.exists_cons_of_ne_nil hne
    rw [List.dropWhile_eq_self_iff]
    simp
  have hlast : Text.trimEnd cs = cs ↔ cs.getLast?.any (!Text.isBlank ·) = true := by
    show cs.rdropWhile Text.isBlank = cs ↔ _
    rw [List.rdropWhile_eq_self_iff, List.getLast?_eq_some_getLast hne]
    simp [hne]
  rw [Trimmed, ← hfirst, ← hlast]
  constructor
  · intro htrim
    have hdrop : cs.dropWhile Text.isBlank = cs := by
      refine (List.dropWhile_sublist _).eq_of_length_le ?_
      calc cs.length = (Text.trim cs).length := by rw [htrim]
        _ ≤ (cs.dropWhile Text.isBlank).length := (List.rdropWhile_prefix _ _).length_le
    rw [Text.trim, hdrop] at htrim
    exact ⟨hdrop, htrim⟩
  · rintro ⟨hdrop, hend⟩
    rw [Text.trim, hdrop, hend]

/-! ## Terms that are kept -/

/-- A term without its directions is not longer. -/
theorem length_bareTerm_le (term : List Char) : (bareTerm term).length ≤ term.length := by
  calc (bareTerm term).length
      ≤ (dropDirectionsFrom 0 [] term).length := (trim_sublist _).length_le
    _ ≤ ([] : List Char).length + term.length := length_dropDirectionsFrom_le 0 [] term
    _ = term.length := Nat.zero_add _

/-- A term without directions and blanks at its ends stays as it is. -/
theorem bareTerm_eq_self {term : List Char} (h : hasDirection term = false) (ht : Trimmed term) :
    bareTerm term = term := by
  have hne : term ≠ [] := by
    rintro rfl
    cases ht.1
  have hdrop : dropDirectionsFrom 0 [] term = term :=
    dropDirectionsFrom_eq_self h fun hnil => absurd rfl hnil
  rw [bareTerm, hdrop, (trim_eq_self_iff hne).mpr ht]

/-- If nothing is lost of a term, it has no direction and no blanks at its ends. -/
theorem of_length_bareTerm {term : List Char} (hne : term ≠ [])
    (h : term.length ≤ (bareTerm term).length) : hasDirection term = false ∧ Trimmed term := by
  have hdirection : hasDirection term = false := by
    refine Bool.eq_false_iff.mpr fun hsome => ?_
    have hlt : (dropDirectionsFrom 0 [] term).length < ([] : List Char).length + term.length :=
      length_dropDirectionsFrom_lt (.inl hsome)
    have hle : (bareTerm term).length ≤ (dropDirectionsFrom 0 [] term).length :=
      (trim_sublist _).length_le
    rw [List.length_nil, Nat.zero_add] at hlt
    omega
  have hdrop : dropDirectionsFrom 0 [] term = term :=
    dropDirectionsFrom_eq_self hdirection fun hnil => absurd rfl hnil
  rw [bareTerm, hdrop] at h
  exact ⟨hdirection, (trim_eq_self_iff hne).mp ((trim_sublist term).eq_of_length_le h)⟩

/-- A direction behind a term is dropped with the blank before it. -/
theorem bareTerm_append_direction (d : SortDirection) (term : List Char) :
    bareTerm (term ++ ' ' :: d.text.toList) = bareTerm term := by
  obtain ⟨tail, htail, hdrop⟩ :=
    dropDirectionsFrom_append d (List.forall_mem_nil _) (Nat.zero_le term.length)
  rw [bareTerm, bareTerm, hdrop, trim_append_blanks _ htail]

/-- The text of a direction behind an expression. -/
def directionChars : Option SortDirection → List Char
  | none => []
  | some d => ' ' :: d.text.toList

/-- What is left of the terms of an expression with a direction behind it. -/
def bareTerms (direction : Option SortDirection) (text : List Char) : List (List Char) :=
  ((splitTerms (text ++ directionChars direction)).map bareTerm).filter (!·.isEmpty)

/-- The text of an expression is left as it is: no comma cuts it, and neither a direction nor a
blank or a comma at its ends is taken away. -/
structure Kept (direction : Option SortDirection) (text : List Char) : Prop where
  whole : Whole text
  undirected : hasDirection text = false
  trimmed : Trimmed text
  noComma : direction = none → text.getLast? ≠ some ','

/-- A direction holds no comma. -/
theorem comma_not_mem_directionChars (direction : Option SortDirection) :
    ',' ∉ directionChars direction := by
  obtain _ | _ | _ := direction <;> decide

/-- A text with a direction behind it does not end in a comma. -/
theorem getLast?_append_direction (text : List Char) (d : SortDirection) :
    (text ++ directionChars (some d)).getLast? ≠ some ',' := by
  have hne : directionChars (some d) ≠ [] := List.cons_ne_nil _ _
  rw [List.getLast?_append_of_ne_nil _ hne]
  cases d <;> decide

/-! ## Texts that are not cut -/

/-- The front of a text that is not cut is not cut. -/
theorem Whole.of_append {x y : List Char} (h : Whole (x ++ y)) : Whole x := by
  rintro before after rfl
  exact h before (after ++ y) (by simp)

/-- Text without commas behind a text that is not cut is not cut either. -/
theorem Whole.append {x y : List Char} (h : Whole x) (hy : ',' ∉ y) : Whole (x ++ y) := by
  intro before after heq
  -- The cut would be in the first text, as the second has no comma.
  obtain ⟨w, rfl, hw⟩ | ⟨w, rfl, hw⟩ := List.append_eq_append_iff.mp heq
  · exact absurd (by simp [hw]) hy
  · cases w with
    | nil =>
      rw [List.nil_append] at hw
      exact absurd (hw ▸ List.mem_cons_self) hy
    | cons c w =>
      obtain ⟨rfl, -⟩ := List.cons.inj hw
      exact h before w rfl

/-- A text without commas at its end keeps its end. -/
theorem rdropWhile_comma {text : List Char} (h : text.getLast? ≠ some ',') :
    text.rdropWhile (· == ',') = text := by
  rw [List.rdropWhile_eq_self_iff]
  intro hne hcomma
  rw [List.getLast?_eq_some_getLast hne] at h
  exact h (congrArg some (beq_iff_eq.mp hcomma))

/-- A text that is not cut is one term. -/
theorem splitTerms_eq_singleton {text : List Char} (hwhole : Whole text) (hne : text ≠ [])
    (hlast : text.getLast? ≠ some ',') : splitTerms text = [text] := by
  obtain ⟨hjoined, hbalanced, -⟩ := splitTerms_spec text
  rw [rdropWhile_comma hlast] at hjoined
  -- With two terms or more there would be a cut between the first two.
  match hterms : splitTerms text with
  | [] =>
    rw [hterms] at hjoined
    exact absurd hjoined.symm hne
  | [term] =>
    rw [hterms, List.intercalate_singleton] at hjoined
    rw [hjoined]
  | term :: next :: terms =>
    rw [hterms, intercalate_cons term (List.cons_ne_nil next terms)] at hjoined
    exact absurd (hbalanced term (by simp [hterms])) (hwhole term _ hjoined.symm)

/-- The text of a kept expression is what is left of it. -/
theorem Kept.bareTerms_eq {direction : Option SortDirection} {text : List Char}
    (h : Kept direction text) : bareTerms direction text = [text] := by
  have hne : text ≠ [] := by
    rintro rfl
    cases h.trimmed.1
  have hlast : (text ++ directionChars direction).getLast? ≠ some ',' := by
    cases direction with
    | none =>
      rw [directionChars, List.append_nil]
      exact h.noComma rfl
    | some d => exact getLast?_append_direction text d
  have hwhole := h.whole.append (comma_not_mem_directionChars direction)
  have hbare : bareTerm (text ++ directionChars direction) = text := by
    cases direction with
    | none =>
      rw [directionChars, List.append_nil]
      exact bareTerm_eq_self h.undirected h.trimmed
    | some d =>
      rw [directionChars, bareTerm_append_direction]
      exact bareTerm_eq_self h.undirected h.trimmed
  rw [bareTerms, splitTerms_eq_singleton hwhole (by simp [hne]) hlast, List.map_singleton, hbare]
  simp [hne]

/-! ## What is lost otherwise -/

/-- Text without commas behind joined parts belongs to the last of them. -/
theorem exists_last_part {init : List (List Char)} {last text tail : List Char}
    (htail : ',' ∉ tail) (h : [','].intercalate (init ++ [last]) = text ++ tail) :
    ∃ cut, last = cut ++ tail ∧ text = [','].intercalate (init ++ [cut]) := by
  -- The last part ends in the tail, which holds no comma.
  obtain rfl | hinit := eq_or_ne init []
  · rw [List.nil_append, List.intercalate_singleton] at h
    exact ⟨text, h, by rw [List.nil_append, List.intercalate_singleton]⟩
  · rw [intercalate_append hinit (List.cons_ne_nil _ _), List.intercalate_singleton] at h
    obtain ⟨w, rfl, hw⟩ | ⟨w, -, rfl⟩ := List.append_eq_append_iff.mp h
    · cases w with
      | nil =>
        rw [List.nil_append] at hw
        exact absurd (hw ▸ List.mem_cons_self) htail
      | cons c cut =>
        obtain ⟨rfl, rfl⟩ := List.cons.inj hw
        refine ⟨cut, rfl, ?_⟩
        rw [intercalate_append hinit (List.cons_ne_nil _ _), List.intercalate_singleton]
    · exact absurd (by simp) htail

/-- What is left of an expression comes from its text, cut at commas. -/
theorem exists_cuts (direction : Option SortDirection) (text : List Char) :
    ∃ cuts commas, text = [','].intercalate cuts ++ commas ∧
      bareTerms direction text = (cuts.map bareTerm).filter (!·.isEmpty) ∧
      (∀ cut ∈ cuts, Whole cut) ∧
      (direction = none → [','].intercalate cuts = text.rdropWhile (· == ',')) := by
  obtain ⟨hjoined, -, hwhole⟩ := splitTerms_spec (text ++ directionChars direction)
  -- Without a direction commas at the end are dropped; a direction comes behind them.
  cases direction with
  | none =>
    rw [directionChars, List.append_nil] at hjoined hwhole
    refine ⟨splitTerms text, text.rtakeWhile (· == ','), ?_, ?_, hwhole, fun _ => hjoined⟩
    · rw [hjoined, List.rdropWhile_append_rtakeWhile]
    · rw [bareTerms, directionChars, List.append_nil]
  | some d =>
    rw [rdropWhile_comma (getLast?_append_direction text d)] at hjoined
    obtain hnil | ⟨init, last, hterms⟩ :=
      List.eq_nil_or_concat' (splitTerms (text ++ directionChars (some d)))
    · rw [hnil] at hjoined
      exact absurd hjoined.symm (by simp [directionChars])
    · rw [hterms] at hjoined hwhole
      obtain ⟨cut, rfl, htext⟩ := exists_last_part (comma_not_mem_directionChars _) hjoined
      refine ⟨init ++ [cut], [], by rw [htext, List.append_nil], ?_, ?_, fun h => by cases h⟩
      · rw [bareTerms, hterms, List.map_append, List.map_append, List.map_singleton,
          List.map_singleton, directionChars, bareTerm_append_direction]
      · intro part hpart
        obtain hpart | hpart := List.mem_append.mp hpart
        · exact hwhole part (List.mem_append_left _ hpart)
        · obtain rfl := List.mem_singleton.mp hpart
          exact (hwhole _ (List.mem_append_right _ (List.mem_singleton_self _))).of_append

/-- The number of characters in a list of texts. -/
def total (texts : List (List Char)) : Nat :=
  (texts.map List.length).sum

/-- A text that is cut into parts is as long as the parts and the commas between them. -/
theorem length_intercalate (parts : List (List Char)) :
    ([','].intercalate parts).length = total parts + (parts.length - 1) := by
  induction parts with
  | nil => rfl
  | cons part parts ih =>
    obtain rfl | hne := eq_or_ne parts []
    · simp [total]
    · have hpos := List.length_pos_iff.mpr hne
      rw [intercalate_cons part hne, List.length_append, List.length_cons, ih]
      simp only [total, List.map_cons, List.sum_cons, List.length_cons]
      omega

/-- What is left of parts is not longer than the parts. -/
theorem total_bare_le (cuts : List (List Char)) :
    total ((cuts.map bareTerm).filter (!·.isEmpty)) ≤ total cuts := by
  induction cuts with
  | nil => exact Nat.le_refl _
  | cons cut cuts ih =>
    have hcut := length_bareTerm_le cut
    unfold total at ih ⊢
    rw [List.map_cons, List.filter_cons]
    split <;> simp only [List.map_cons, List.sum_cons] <;> omega

/-- What is left of an ordering text is not longer than its expression. -/
theorem total_bareTerms_le (direction : Option SortDirection) (text : List Char) :
    total (bareTerms direction text) ≤ text.length := by
  obtain ⟨cuts, commas, htext, hbare, -, -⟩ := exists_cuts direction text
  calc total (bareTerms direction text)
      ≤ total cuts := hbare ▸ total_bare_le cuts
    _ ≤ ([','].intercalate cuts).length := by rw [length_intercalate]; omega
    _ ≤ text.length := by rw [htext, List.length_append]; omega

/-- If nothing is lost of an expression, it is kept. -/
theorem kept_of_total {direction : Option SortDirection} {text : List Char} (hne : text ≠ [])
    (h : total (bareTerms direction text) = text.length) : Kept direction text := by
  obtain ⟨cuts, commas, htext, hbare, hwhole, hnone⟩ := exists_cuts direction text
  have hle := total_bare_le cuts
  have hlength : text.length = total cuts + (cuts.length - 1) + commas.length := by
    rw [htext, List.length_append, length_intercalate]
  rw [hbare] at h
  -- No comma is lost, so there is one part and nothing behind it.
  obtain rfl : commas = [] := List.length_eq_zero_iff.mp (by omega)
  match cuts, htext with
  | [], htext => exact absurd htext hne
  | [cut], htext =>
    rw [List.append_nil, List.intercalate_singleton] at htext
    subst htext
    have hfull : text.length ≤ (bareTerm text).length := by
      rw [← h, List.map_singleton, List.filter_cons]
      split <;> simp [total]
    obtain ⟨hundirected, htrimmed⟩ := of_length_bareTerm hne hfull
    refine ⟨hwhole text (List.mem_singleton_self _), hundirected, htrimmed, fun hd hcomma => ?_⟩
    have hself := hnone hd
    rw [List.intercalate_singleton, eq_comm, List.rdropWhile_eq_self_iff] at hself
    rw [List.getLast?_eq_some_getLast hne] at hcomma
    exact hself hne (by simpa using hcomma)
  | _ :: _ :: _, _ =>
    simp only [List.length_cons] at hlength
    omega

/-- Lengths add up over lists of texts. -/
theorem total_append (l r : List (List Char)) : total (l ++ r) = total l + total r := by
  rw [total, List.map_append, List.sum_append, total, total]

/-- Lengths add up along a list of texts. -/
theorem total_cons (text : List Char) (texts : List (List Char)) :
    total (text :: texts) = text.length + total texts := rfl

/-- What is left of several orders is not longer than their expressions. -/
theorem total_flatMap_le (orders : List (Option SortDirection × List Char)) :
    total (orders.flatMap fun o => bareTerms o.1 o.2) ≤ total (orders.map (·.2)) := by
  induction orders with
  | nil => exact Nat.le_refl _
  | cons o os ih =>
    have ho := total_bareTerms_le o.1 o.2
    rw [List.flatMap_cons, total_append, List.map_cons, total_cons]
    omega

/-- If nothing is lost of several expressions together, each of them is kept. -/
theorem kept_of_total_flatMap {orders : List (Option SortDirection × List Char)}
    (hne : ∀ o ∈ orders, o.2 ≠ [])
    (h : total (orders.flatMap fun o => bareTerms o.1 o.2) = total (orders.map (·.2))) :
    ∀ o ∈ orders, Kept o.1 o.2 := by
  induction orders with
  | nil => exact List.forall_mem_nil _
  | cons o os ih =>
    obtain ⟨ho, hos⟩ := List.forall_mem_cons.mp hne
    have hfirst := total_bareTerms_le o.1 o.2
    have hrest := total_flatMap_le os
    rw [List.flatMap_cons, total_append, List.map_cons, total_cons] at h
    exact List.forall_mem_cons.mpr ⟨kept_of_total ho (by omega), ih hos (by omega)⟩

/-- What is left of several orders is the texts of their expressions exactly if each of them is
kept. -/
theorem flatMap_bareTerms_iff (orders : List (Option SortDirection × List Char)) :
    orders.flatMap (fun o => bareTerms o.1 o.2) = orders.map (·.2) ↔
      ∀ o ∈ orders, Kept o.1 o.2 := by
  constructor
  · intro h
    refine kept_of_total_flatMap (fun o ho hnil => ?_) (congrArg total h)
    have hmem : o.2 ∈ orders.flatMap fun o => bareTerms o.1 o.2 := by
      rw [h]
      exact List.mem_map_of_mem ho
    -- What is left is never empty, so neither is a text among it.
    obtain ⟨o', -, hleft⟩ := List.mem_flatMap.mp hmem
    have hnonempty := (List.mem_filter.mp hleft).2
    rw [hnil] at hnonempty
    cases hnonempty
  · intro h
    induction orders with
    | nil => rfl
    | cons o os ih =>
      obtain ⟨ho, hos⟩ := List.forall_mem_cons.mp h
      rw [List.flatMap_cons, ho.bareTerms_eq, ih hos]
      rfl

end SqlCompiler.OrderText
