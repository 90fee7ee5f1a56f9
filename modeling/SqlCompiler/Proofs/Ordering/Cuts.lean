import Mathlib
import SqlCompiler.Sql.OrderText

/-!
# Cutting the text of an ordering

The terms of an ordering are its text, cut at the commas before which as many parentheses close as
open. The terms are made otherwise: the text is split at all commas, and the parts are joined again
until the parentheses of what has been joined balance. Both agree because the text before a cut is
balanced, so that counting may begin anew after it (`cutAt_of_whole`). The terms are those of
`split_order_string`.
-/

namespace SqlCompiler.OrderText

/-- As many parentheses close as open. -/
def Balanced (cs : List Char) : Prop :=
  cs.count '(' = cs.count ')'

/-- The test counts parentheses as `Balanced` does. -/
theorem isBalanced_iff {cs : List Char} : isBalanced cs = true ↔ Balanced cs :=
  beq_iff_eq

/-- The parts are the text, cut at the commas before which `P` holds and at no others: with commas
between them they are the text, and a comma stands between two of them if `P` holds of the text
before it. -/
structure CutAt (P : List Char → Prop) (text : List Char) (parts : List (List Char)) : Prop where
  joined : [','].intercalate parts = text
  cuts : ∀ before after, text = before ++ ',' :: after →
    (P before ↔ ∃ l r, parts = l ++ r ∧ l ≠ [] ∧ r ≠ [] ∧
      [','].intercalate l = before ∧ [','].intercalate r = after)

/-- No comma of the text stands where its parentheses balance. -/
def Whole (text : List Char) : Prop :=
  ∀ before after, text = before ++ ',' :: after → ¬Balanced before

/-! ## Parts with commas between them -/

/-- A comma stands between a part and the parts behind it. -/
theorem intercalate_cons (part : List Char) {parts : List (List Char)} (h : parts ≠ []) :
    [','].intercalate (part :: parts) = part ++ ',' :: [','].intercalate parts := by
  obtain ⟨next, parts, rfl⟩ := List.exists_cons_of_ne_nil h
  rw [List.intercalate_cons_cons, List.append_assoc]
  rfl

/-- A comma stands between two lists of parts. -/
theorem intercalate_append {l r : List (List Char)} (hl : l ≠ []) (hr : r ≠ []) :
    [','].intercalate (l ++ r) = [','].intercalate l ++ ',' :: [','].intercalate r := by
  induction l with
  | nil => exact absurd rfl hl
  | cons part l ih =>
    cases l with
    | nil => rw [List.singleton_append, intercalate_cons part hr, List.intercalate_singleton]
    | cons next l =>
      rw [List.cons_append, intercalate_cons part (by simp), ih (by simp),
        intercalate_cons part (by simp), List.append_assoc, List.cons_append]

/-- A comma of the joined parts stands between two of them or within one. -/
theorem comma_cases {parts : List (List Char)} {before after : List Char}
    (h : [','].intercalate parts = before ++ ',' :: after) :
    (∃ l r, parts = l ++ r ∧ l ≠ [] ∧ r ≠ [] ∧ [','].intercalate l = before ∧
      [','].intercalate r = after) ∨
    ∃ l b a r, parts = l ++ (b ++ ',' :: a) :: r ∧ before = [','].intercalate (l ++ [b]) := by
  -- The comma stands between two parts or in one of them.
  induction parts generalizing before with
  | nil => simp at h
  | cons part parts ih =>
    obtain rfl | hne := eq_or_ne parts []
    · rw [List.intercalate_singleton] at h
      exact .inr ⟨[], before, after, [], by rw [h]; rfl, List.intercalate_singleton.symm⟩
    · rw [intercalate_cons part hne] at h
      obtain ⟨w, rfl, hw⟩ | ⟨w, rfl, hw⟩ := List.append_eq_append_iff.mp h
      · -- The comma stands after the first part: right after it, or in what follows.
        cases w with
        | nil =>
          rw [List.nil_append, List.cons.injEq] at hw
          refine .inl ⟨[part], parts, rfl, by simp, hne, ?_, hw.2⟩
          rw [List.intercalate_singleton, List.append_nil]
        | cons c w =>
          obtain ⟨rfl, htail⟩ := List.cons.inj hw
          obtain ⟨l, r, rfl, hl, hr, rfl, rfl⟩ | ⟨l, b, a, r, rfl, rfl⟩ := ih htail
          · exact .inl ⟨part :: l, r, rfl, by simp, hr, intercalate_cons part hl, rfl⟩
          · exact .inr ⟨part :: l, b, a, r, rfl, (intercalate_cons part (by simp)).symm⟩
      · cases w with
        | nil =>
          rw [List.nil_append, List.cons.injEq] at hw
          exact .inl ⟨[before], parts, by rw [List.append_nil]; rfl, by simp, hne,
            List.intercalate_singleton, hw.2.symm⟩
        | cons c w =>
          obtain ⟨rfl, -⟩ := List.cons.inj hw
          exact .inr ⟨[], before, w, parts, rfl, List.intercalate_singleton.symm⟩

/-- Behind balanced parts the count may begin anew. -/
theorem balanced_append_iff {l : List (List Char)} (hl : ∀ part ∈ l, Balanced part)
    (b : List Char) : Balanced ([','].intercalate (l ++ [b])) ↔ Balanced b := by
  induction l with
  | nil => rw [List.nil_append, List.intercalate_singleton]
  | cons part l ih =>
    obtain ⟨hpart, hl⟩ := List.forall_mem_cons.mp hl
    rw [← ih hl, List.cons_append, intercalate_cons part (by simp)]
    unfold Balanced at hpart ⊢
    simp only [List.count_append, hpart, List.count_cons_of_ne (show ',' ≠ '(' by decide),
      List.count_cons_of_ne (show ',' ≠ ')' by decide), Nat.add_left_cancel_iff]

/-- Whole parts, all of them balanced but possibly the last, are a text cut at its balanced
commas. -/
theorem cutAt_of_whole {parts : List (List Char)}
    (hbalanced : ∀ part ∈ parts.dropLast, Balanced part)
    (hwhole : ∀ part ∈ parts, Whole part) : CutAt Balanced ([','].intercalate parts) parts where
  joined := rfl
  cuts before after h := by
    -- What stands before the last part or before a part in it is balanced.
    have hinit : ∀ l r, parts = l ++ r → r ≠ [] → ∀ part ∈ l, Balanced part := by
      rintro l r rfl hr part hpart
      refine hbalanced part ?_
      rw [List.dropLast_append_of_ne_nil hr]
      exact List.mem_append_left _ hpart
    constructor
    · intro hbefore
      obtain hcut | ⟨l, b, a, r, hparts, rfl⟩ := comma_cases h
      · exact hcut
      · have hl := hinit l _ hparts (by simp)
        exact absurd ((balanced_append_iff hl b).mp hbefore)
          (hwhole _ (by rw [hparts]; simp) b a rfl)
    · rintro ⟨l, r, hparts, hl, hr, rfl, -⟩
      have hall := hinit l r hparts hr
      rw [← List.dropLast_append_getLast hl] at hall ⊢
      exact (balanced_append_iff (fun part hpart => hall part (List.mem_append_left _ hpart)) _).mpr
        (hall _ (by simp))

/-! ## Joining until the parentheses balance -/

/-- A text without commas is not cut. -/
theorem whole_of_not_mem {part : List Char} (h : ',' ∉ part) : Whole part := by
  rintro before after rfl
  exact absurd (by simp) h

/-- A comma behind what is not balanced is no cut. -/
theorem whole_joined {pending part : List Char} (hpending : ¬Balanced pending)
    (hwhole : Whole pending) (hpart : ',' ∉ part) : Whole (pending ++ ',' :: part) := by
  intro before after h
  -- What is pending does not balance, so there is no cut behind it, and none further on.
  obtain ⟨w, rfl, hw⟩ | ⟨w, rfl, hw⟩ := List.append_eq_append_iff.mp h
  · cases w with
    | nil => rwa [List.append_nil]
    | cons c w =>
      obtain ⟨rfl, rfl⟩ := List.cons.inj hw
      exact absurd (by simp) hpart
  · cases w with
    | nil => rwa [List.append_nil] at hpending
    | cons c w =>
      obtain ⟨rfl, -⟩ := List.cons.inj hw
      exact hwhole before w rfl

/-- Something is left after joining if there was something before. -/
theorem joinBalanced_ne_nil {pending : Option (List Char)} {parts : List (List Char)}
    (h : pending.isSome ∨ parts ≠ []) : joinBalanced pending parts ≠ [] := by
  fun_induction joinBalanced pending parts with
  | case1 => simp at h
  | case2 => simp
  | case3 => simp
  | case4 _ _ _ _ _ ih => exact ih (.inl rfl)

/-- What is joined from parts between commas is whole and balanced, the last one apart. What is
pending has not balanced so far. -/
theorem joinBalanced_spec (pending : Option (List Char)) (parts : List (List Char))
    (hpending : ∀ p ∈ pending, ¬Balanced p ∧ Whole p) (hparts : ∀ part ∈ parts, ',' ∉ part) :
    [','].intercalate (joinBalanced pending parts) = [','].intercalate (pending.toList ++ parts) ∧
      (∀ part ∈ (joinBalanced pending parts).dropLast, Balanced part) ∧
      ∀ part ∈ joinBalanced pending parts, Whole part := by
  induction parts generalizing pending with
  | nil =>
    cases pending with
    | none => simp [joinBalanced]
    | some pending => simpa [joinBalanced] using (hpending pending rfl).2
  | cons part parts ih =>
    obtain ⟨hpart, hparts⟩ := List.forall_mem_cons.mp hparts
    -- With what is pending, the part makes a term that is finished if it balances.
    obtain ⟨term, hterm, hwhole, hjoin⟩ : ∃ term, joinBalanced pending (part :: parts)
        = (if isBalanced term then term :: joinBalanced none parts
          else joinBalanced (some term) parts) ∧ Whole term ∧
        [','].intercalate (pending.toList ++ part :: parts)
          = [','].intercalate (term :: parts) := by
      cases pending with
      | none => exact ⟨part, by rw [joinBalanced], whole_of_not_mem hpart, rfl⟩
      | some pending =>
        obtain ⟨hunbalanced, hwhole⟩ := hpending pending rfl
        refine ⟨pending ++ ',' :: part, by rw [joinBalanced],
          whole_joined hunbalanced hwhole hpart, ?_⟩
        show [','].intercalate (pending :: part :: parts) = _
        obtain rfl | hne := eq_or_ne parts []
        · rw [intercalate_cons _ (by simp), List.intercalate_singleton, List.intercalate_singleton]
        · rw [intercalate_cons _ (by simp), intercalate_cons _ hne, intercalate_cons _ hne,
            List.append_assoc, List.cons_append]
    rw [hterm, hjoin]
    -- A term that balances is finished; otherwise it stays pending.
    split
    · next hbalanced =>
      obtain ⟨hrest, hinit, hwholes⟩ := ih none (by simp) hparts
      refine ⟨?_, ?_, List.forall_mem_cons.mpr ⟨hwhole, hwholes⟩⟩
      all_goals obtain rfl | hne := eq_or_ne parts []
      · rfl
      · rw [intercalate_cons _ (joinBalanced_ne_nil (.inr hne)), hrest, intercalate_cons _ hne]
        rfl
      · simp [joinBalanced]
      · rw [List.dropLast_cons_of_ne_nil (joinBalanced_ne_nil (.inr hne))]
        exact List.forall_mem_cons.mpr ⟨isBalanced_iff.mp hbalanced, hinit⟩
    · next hunbalanced =>
      refine ih (some term) ?_ hparts
      rintro _ ⟨⟩
      exact ⟨mt isBalanced_iff.mpr hunbalanced, hwhole⟩

/-! ## Splitting at all commas -/

/-- The text is split at all commas. -/
theorem splitCommas_eq_splitOn (text : List Char) : splitCommas text = text.splitOn ',' := by
  induction text with
  | nil => rfl
  | cons c text ih =>
    rw [splitCommas, List.splitOn_cons_eq_if_modifyHead, ih]
    by_cases hc : c = ','
    · simp [hc]
    · obtain ⟨part, parts, hparts⟩ := List.exists_cons_of_ne_nil (List.splitOn_ne_nil ',' text)
      simp [hc, hparts]

/-- No comma is left in a part. -/
theorem not_mem_of_mem_splitCommas {text part : List Char} (h : part ∈ splitCommas text) :
    ',' ∉ part := by
  -- Along the splitting: a comma ends a part, any other character joins the first one.
  fun_induction splitCommas text generalizing part with
  | case1 => simp_all
  | case2 text ih =>
    obtain rfl | h := List.mem_cons.mp h
    · exact List.not_mem_nil
    · exact ih h
  | case3 c text hc hnil =>
    obtain rfl := List.mem_singleton.mp h
    exact fun hmem => hc (List.mem_singleton.mp hmem).symm
  | case4 c text hc first parts hparts ih =>
    obtain rfl | h := List.mem_cons.mp h
    · rw [List.mem_cons, not_or]
      exact ⟨Ne.symm hc, ih (by rw [hparts]; exact List.mem_cons_self)⟩
    · exact ih (by rw [hparts]; exact List.mem_cons_of_mem _ h)

/-- A character other than a comma at the end of a text stands at the end of its last part. -/
theorem splitCommas_concat (text : List Char) {c : Char} (hc : c ≠ ',') :
    ∃ parts last, splitCommas (text ++ [c]) = parts ++ [last ++ [c]] := by
  induction text with
  | nil => exact ⟨[], [], by simp [splitCommas, hc]⟩
  | cons d text ih =>
    obtain ⟨parts, last, h⟩ := ih
    rw [List.cons_append, splitCommas, h]
    split
    · exact ⟨[] :: parts, last, rfl⟩
    · cases parts with
      | nil => exact ⟨[], d :: last, rfl⟩
      | cons part parts => exact ⟨(d :: part) :: parts, last, rfl⟩

/-- Dropping the empty parts at the end drops the commas at the end of the text. -/
theorem dropTrailingEmpty_splitCommas (text : List Char) :
    dropTrailingEmpty (splitCommas text)
      = if text.rdropWhile (· == ',') = [] then []
        else splitCommas (text.rdropWhile (· == ',')) := by
  -- From the end, as empty parts are dropped there.
  induction text using List.reverseRecOn with
  | nil => rfl
  | append_singleton text c ih =>
    by_cases hc : c = ','
    · have hsplit : splitCommas (text ++ [c]) = splitCommas text ++ [[]] := by
        rw [splitCommas_eq_splitOn, splitCommas_eq_splitOn, hc, List.splitOn_append_cons_self]
        rfl
      rw [List.rdropWhile_concat_pos _ _ _ (by simp [hc]), ← ih, hsplit, dropTrailingEmpty,
        dropTrailingEmpty, List.reverse_append]
      rfl
    · obtain ⟨parts, last, hparts⟩ := splitCommas_concat text hc
      rw [List.rdropWhile_concat_neg _ _ _ (by simp [hc]), if_neg (by simp), hparts,
        dropTrailingEmpty]
      simp

/-! ## The terms of an ordering -/

/-- The terms of a text are whole, and all but the last are balanced. Joined with commas they are
the text without the commas at its end. -/
theorem splitTerms_spec (text : List Char) :
    [','].intercalate (splitTerms text) = text.rdropWhile (· == ',') ∧
      (∀ term ∈ (splitTerms text).dropLast, Balanced term) ∧
      ∀ term ∈ splitTerms text, Whole term := by
  rw [splitTerms, dropTrailingEmpty_splitCommas]
  split
  · next hnil => simp [joinBalanced, hnil]
  · obtain ⟨hjoined, hbalanced, hwhole⟩ := joinBalanced_spec none
      (splitCommas (text.rdropWhile (· == ','))) (by simp) fun _ => not_mem_of_mem_splitCommas
    refine ⟨hjoined.trans ?_, hbalanced, hwhole⟩
    rw [splitCommas_eq_splitOn]
    exact List.intercalate_splitOn ','

/-- There are no terms exactly if the text is nothing but commas. -/
theorem splitTerms_eq_nil_iff {text : List Char} :
    splitTerms text = [] ↔ text.rdropWhile (· == ',') = [] := by
  rw [splitTerms, dropTrailingEmpty_splitCommas]
  split
  · next hnil => simp [joinBalanced, hnil]
  · next hne =>
    refine iff_of_false (joinBalanced_ne_nil (.inr ?_)) hne
    rw [splitCommas_eq_splitOn]
    exact List.splitOn_ne_nil _ _

end SqlCompiler.OrderText

namespace SqlCompiler

open OrderText

/-- An ordering text without the commas at its end has no terms if nothing is left, and is cut into
its terms at exactly the commas before which as many parentheses close as open. Joined with commas
the terms give it back, all of them but possibly the last are balanced, and none can be cut
further. -/
theorem splitOrderText_cutAt (text : String) :
    let t := text.toList.rdropWhile (· == ',')
    let terms := (splitOrderText text).map String.toList
    (t = [] ∧ splitOrderText text = []) ∨
    (t ≠ [] ∧ CutAt Balanced t terms ∧ [','].intercalate terms = t ∧
      (∀ term ∈ terms.dropLast, Balanced term) ∧
      ∀ term ∈ terms, ∀ before after, term = before ++ ',' :: after → ¬Balanced before) := by
  intro t terms
  have hterms : terms = splitTerms text.toList := by
    simp [terms, splitOrderText, Function.comp_def]
  obtain ⟨hjoined, hbalanced, hwhole⟩ := splitTerms_spec text.toList
  obtain hnil | hne := eq_or_ne t []
  · refine .inl ⟨hnil, ?_⟩
    rw [splitOrderText, splitTerms_eq_nil_iff.mpr hnil, List.map_nil]
  · have hcut := cutAt_of_whole hbalanced hwhole
    rw [hjoined] at hcut
    rw [hterms]
    exact .inr ⟨hne, hcut, hjoined, hbalanced, hwhole⟩

/-- Commas in parentheses, an unbalanced end and commas at the end. -/
example : splitOrderText "f(a,b), g(c),,h(d,e,," = ["f(a,b)", " g(c)", "", "h(d,e"] := by decide

end SqlCompiler
