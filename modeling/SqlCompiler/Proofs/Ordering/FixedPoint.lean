import Mathlib
import SqlCompiler.Proofs.Nodes.Expressible
import SqlCompiler.Proofs.OrderAlias
import SqlCompiler.Proofs.Ordering.BareTerms

/-!
# Ordering by aliases again

An ordering by aliases is itself an ordering of a query whose projections are marked, so it is put
in terms of aliases when it is looked at again. Nothing changes then: each of its texts is one term,
as it has no comma, and the term is descending exactly if the text was written so
(`splitTerms_aliasText`, `isDescending_aliasText`).
-/

namespace SqlCompiler

open OrderText

/-! ## The text of an alias -/

/-- The characters before the last one of an alias, and its direction. -/
theorem toList_aliasText (index : Nat) (descending : Bool) :
    (aliasText index descending).toList
      = "alias_".toList ++ Nat.toDigits 10 index ++ "__".toList
        ++ if descending then " DESC".toList else [] := by
  cases descending <;> simp [aliasText, orderAlias, Nat.toString_eq_repr]

/-- An alias holds no comma. -/
theorem comma_not_mem_aliasText (index : Nat) (descending : Bool) :
    ',' ∉ (aliasText index descending).toList := by
  have hdigits : ',' ∉ Nat.toDigits 10 index := fun h =>
    absurd (Nat.isDigit_of_mem_toDigits (by decide) (by decide) h) (by decide)
  rw [toList_aliasText]
  cases descending <;> simp [hdigits]

/-- The text of an alias is one term. -/
theorem splitTerms_aliasText (index : Nat) (descending : Bool) :
    splitTerms (aliasText index descending).toList = [(aliasText index descending).toList] := by
  have hcomma := comma_not_mem_aliasText index descending
  refine splitTerms_eq_singleton (whole_of_not_mem hcomma) ?_ fun hlast => ?_
  · simp [toList_aliasText]
  · exact hcomma (List.mem_of_getLast? hlast)

/-- The direction of an alias can be read off its text. -/
theorem isDescending_aliasText (index : Nat) (descending : Bool) :
    isDescending (aliasText index descending).toList = descending := by
  rw [toList_aliasText]
  cases descending with
  | true =>
    refine (isDescending_iff _).mpr
      ⟨"alias_".toList ++ Nat.toDigits 10 index ++ "__ ".toList, "DESC".toList, [], ?_, by decide,
        by simp, fun c hc => ?_⟩
    · simp
    · rw [List.getLast?_append_of_ne_nil _ (by decide)] at hc
      obtain rfl : ' ' = c := Option.some.inj hc
      exact isWord_of_mem_guards (by decide)
  | false =>
    -- The last character is no blank, and not the last letter of the word either.
    have hlow : Text.isBlank '_' = false := by decide
    have hletters : ∀ cs, Text.dropLetters? "csed".toList ('_' :: cs) = none := fun _ => rfl
    have hreverse : ("alias_".toList ++ Nat.toDigits 10 index ++ "__".toList).reverse
        = '_' :: '_' :: ("alias_".toList ++ Nat.toDigits 10 index).reverse := by
      simp
    rw [if_neg Bool.false_ne_true, List.append_nil, isDescending, Text.trimEnd,
      List.reverse_reverse, hreverse, List.dropWhile_cons_of_neg (by simp [hlow]), hletters]

/-! ## Aliases of aliases -/

/-- An alias for the text of an alias is the same alias, in the same direction. -/
theorem mapIdx_aliasText (terms : List (List Char)) :
    (((terms.map isDescending).mapIdx aliasText).map String.toList).mapIdx aliasTerm
      = terms.mapIdx aliasTerm := by
  apply List.ext_getElem
  · simp
  · intro i hi hi'
    simp [aliasTerm, isDescending_aliasText]

/-- Texts that are one term each are the terms of the orderings by them. -/
theorem orderTexts_verbatim (style : ParamStyle) {texts : List String}
    (h : ∀ text ∈ texts, splitTerms text.toList = [text.toList]) :
    (orderTexts style (texts.map .verbatim)).outcome = .ok (texts.map String.toList) := by
  induction texts with
  | nil => rfl
  | cons text texts ih =>
    obtain ⟨htext, htexts⟩ := List.forall_mem_cons.mp h
    have hrender : ((Emission.verbatim text).asText style).outcome = .ok text := by
      rw [outcome_asText (Emission.outcome_verbatim text), Piece.render_eq_renderFrom]
      simp
    rw [List.map_cons, orderTexts, Traced.outcome_bind_of_ok hrender,
      Traced.outcome_bind_of_ok (ih htexts), htext]
    rfl

/-- The terms of the ordering by aliases are the texts of the aliases. -/
theorem orderTexts_aliasOrder (terms : List (List Char)) :
    (orderTexts .questionMark (terms.mapIdx aliasOrder)).outcome
      = .ok (((terms.map isDescending).mapIdx aliasText).map String.toList) := by
  rw [mapIdx_aliasOrder]
  refine orderTexts_verbatim _ fun text htext => ?_
  obtain ⟨i, hi, rfl⟩ := List.mem_mapIdx.mp htext
  exact splitTerms_aliasText i _

namespace Select

variable {s : Settings} {q q' : Select}

/-- A query is left as it is, or it has a marked projection and is ordered by the aliases of its
terms. -/
theorem orderedByAlias_cases (h : (q.orderedByAlias s).outcome = .ok q') :
    q' = q ∨ ∃ terms : List (List Char),
      (anyMarked ((q.cores.flatMap (·.projections)).map
        (·.emit (s.withStyle .questionMark)))).outcome = .ok true ∧
      q' = { q with orders := terms.mapIdx aliasTerm } := by
  unfold orderedByAlias at h
  -- The ordering is replaced only if there is one and a projection is marked.
  split at h
  · exact .inl (Except.ok.inj h).symm
  · next hne =>
    obtain ⟨marked, hmarked, h⟩ := Traced.outcome_bind_ok h
    cases marked with
    | false => exact .inl (Except.ok.inj h).symm
    | true =>
      rw [probe_eq s (by simpa using hne)] at hmarked
      obtain ⟨terms, -, h⟩ := Traced.outcome_bind_ok h
      exact .inr ⟨terms, hmarked, (Except.ok.inj h).symm⟩

/-- A query that is ordered by aliases and has a marked projection stays as it is. -/
theorem orderedByAlias_aliasTerms (terms : List (List Char))
    (hmarked : (anyMarked ((q.cores.flatMap (·.projections)).map
      (·.emit (s.withStyle .questionMark)))).outcome = .ok true) :
    (({ q with orders := terms.mapIdx aliasTerm } : Select).orderedByAlias s).outcome
      = .ok { q with orders := terms.mapIdx aliasTerm } := by
  obtain rfl | hne := eq_or_ne terms []
  · rfl
  · have horders : terms.mapIdx aliasTerm ≠ [] := by simpa using hne
    rw [orderedByAlias, if_neg (by simpa using hne), probe_eq s horders, emit_aliasTerms,
      Traced.outcome_bind_of_ok hmarked, if_pos rfl,
      Traced.outcome_bind_of_ok (orderTexts_aliasOrder terms), mapIdx_aliasText]
    rfl

/-- Putting the ordering of a query in terms of aliases changes nothing but the ordering, and doing
it again changes nothing at all. So the query that has been put in these terms is written as the
query was. -/
theorem orderedByAlias_idempotent (hd : s.dialect = .oracle)
    (h : (q.orderedByAlias s).outcome = .ok q') :
    q'.cores = q.cores ∧ q'.limit = q.limit ∧ q'.offset = q.offset ∧ q'.lock = q.lock ∧
      (q'.orderedByAlias s).outcome = .ok q' ∧
      (q.emit s).outcome = ((q'.parts s).oracle s).outcome ∧
      (q'.emit s).outcome = (q.emit s).outcome := by
  have hagain : (q'.orderedByAlias s).outcome = .ok q' := by
    obtain rfl | ⟨terms, hmarked, rfl⟩ := orderedByAlias_cases h
    · exact h
    · exact orderedByAlias_aliasTerms terms hmarked
  have hemit : (q.emit s).outcome = ((q'.parts s).oracle s).outcome := by
    rw [emit_oracle_eq_bind hd, Traced.outcome_bind_of_ok h]
  have hemit' : (q'.emit s).outcome = ((q'.parts s).oracle s).outcome := by
    rw [emit_oracle_eq_bind hd, Traced.outcome_bind_of_ok hagain]
  obtain ⟨orders, rfl, -⟩ := orderedByAlias_inversion h
  exact ⟨rfl, rfl, rfl, rfl, hagain, hemit, hemit'.trans hemit.symm⟩

set_option maxRecDepth 4000 in
/-- A text of two terms and a column are put in terms of three aliases, which stay as they are. -/
theorem orderedByAlias_idempotent_of_three_terms :
    let s : Settings := ({ target := ⟨some .oracle⟩ } : Options).choices
    let q : Select := distinctQuery { name := "t" } [aliasProjection "id" 0 "a", .col "id"]
      [⟨.raw "a desc ,b", none⟩, ⟨.col "c", some .desc⟩]
    let q' : Select := { q with orders :=
      [⟨.raw "alias_0__ DESC", none⟩, ⟨.raw "alias_1__", none⟩, ⟨.raw "alias_2__ DESC", none⟩] }
    (q.orderedByAlias s).outcome = .ok q' ∧ (q'.orderedByAlias s).outcome = .ok q' ∧
      (q'.emit s).outcome = (q.emit s).outcome := by
  intro s q q'
  have h : (q.orderedByAlias s).outcome = .ok q' := by
    cbv
  obtain ⟨-, -, -, -, hagain, -, hemit⟩ := orderedByAlias_idempotent rfl h
  exact ⟨h, hagain, hemit⟩

end Select

end SqlCompiler
