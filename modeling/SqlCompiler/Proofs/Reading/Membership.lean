import Mathlib
import SqlCompiler.Proofs.QueryParts
import SqlCompiler.Proofs.Reading.Logic

/-!
# Membership in lists

A membership test is written in the same way around whatever operand and literals it has. So its
text is a template: parameters stand in the places of the operand and of the literals (`fill`), and
the template is read back for every value that they may have (`Template.truth?`).

A list that is too long is written as several lists; the whole test has the truth of a test in one
list (`inValues_split`). The two kinds of membership tests in literals have the same truth, unless
the list is empty and the test is not negated (`inList_agrees_iff`). The split is made by
`write_in_list`.
-/

namespace SqlCompiler

/-- The settings with another bound on the length of lists. -/
def Settings.withMaxInList (s : Settings) (max : Option Nat) : Settings :=
  { s with capabilities := { s.capabilities with maxInList := max } }

/-- An expression as the operand of a membership test. -/
def Expr.tested (s : Settings) (e : Expr) : Emission :=
  Rendered.operand ⟨e, e.emit s⟩ .left membershipStrength .left

namespace Reading

open Emission (sql join)

/-- The truth of a membership test, or of its opposite: the value equals one of the others. -/
def Value.isAmong (v : Value) (ws : List Value) (negated : Bool) : Truth :=
  Truth.negateIf negated (Truth.any (ws.map fun w => test (· == .eq) v w))

/-! ## Templates -/

/-- The pieces of a test, with parameters in the places of the operand and of the literals. -/
abbrev Template := List Piece

namespace Template

/-- The place of the operand. -/
def operand : Piece :=
  .param "operand" none

/-- The place of a literal. -/
def literal (l : Literal) : Piece :=
  .param "literal" (some l)

/-- What stands in a place of the template. -/
def fillPiece (s : Settings) (operand : Emission) : Piece → Emission
  | .param _ none => operand
  | .param _ (some l) => l.emit s
  | p => .piece p

/-- The emission of a template with its places filled. -/
def fill (s : Settings) (operand : Emission) (t : Template) : Emission :=
  t.foldr (fillPiece s operand · ++ ·) .empty

/-- Parameters have the values of the operand and of the literals. -/
def valuation (v : Value) (value : Literal → Value) : Valuation :=
  { (default : Valuation) with param := fun _ l => l.elim v value }

/-- The truth that a template is read as for a value of the operand and values of the literals. -/
def truth? (v : Value) (value : Literal → Value) (t : Template) : Option Truth :=
  (read (valuation v value).meaning .questionMark (Piece.render .questionMark t)
    (Piece.params .questionMark 1 t)).map Value.truth?

/-- Templates with a separator between them. -/
def joined (separator : String) (ts : List Template) : Template :=
  [.sql separator].intercalate ts

/-- A test in one list. -/
def single (negated : Bool) (values : List Literal) : Template :=
  operand :: .sql (if negated then " NOT IN (" else " IN (")
    :: (joined ", " (values.map ([literal ·])) ++ [.sql ")"])

/-- A test in several lists, in one pair of parentheses if there is more than one. -/
def several (negated : Bool) : List (List Literal) → Template
  | [part] => single negated part
  | parts =>
    .sql "(" :: (joined (if negated then " AND " else " OR ") (parts.map (single negated))
      ++ [.sql ")"])

/-! ### What a filled template emits -/

section Filled

variable (s : Settings) (e : Emission)

/-- An empty template is filled to nothing. -/
@[simp]
theorem fill_nil : fill s e [] = .empty :=
  rfl

/-- A template is filled piece by piece. -/
@[simp]
theorem fill_cons (p : Piece) (t : Template) :
    fill s e (p :: t) = fillPiece s e p ++ fill s e t :=
  rfl

/-- Templates one after the other are filled one after the other. -/
@[simp]
theorem fill_append (t u : Template) : fill s e (t ++ u) = fill s e t ++ fill s e u := by
  induction t with
  | nil => rw [List.nil_append, fill_nil, Emission.empty_append]
  | cons p t ih => rw [List.cons_append, fill_cons, ih, fill_cons, Emission.append_assoc]

/-- A list of templates is filled to the list of what they are filled to. -/
theorem fill_joined {β : Type} (separator : String) (f : β → Template) (xs : List β) :
    fill s e (joined separator (xs.map f)) = join separator (xs.map fun x => fill s e (f x)) := by
  induction xs with
  | nil => rfl
  | cons x xs ih =>
    -- A separator stands only before a further item.
    cases xs with
    | nil => simp [joined, join]
    | cons y ys =>
      simp only [joined, List.map_cons, List.intercalate_cons_cons] at ih ⊢
      rw [fill_append, fill_append, ih, fill_cons, fill_nil, Emission.append_empty,
        Emission.append_assoc]
      rfl

/-- A test in one list is what its template is filled to. -/
theorem fill_single (negated : Bool) (values : List Literal) :
    fill s e (single negated values) = InValues.single s e negated values := by
  rw [single, fill_cons, fill_cons, fill_append, fill_joined, InValues.single]
  simp only [fill_cons, fill_nil, Emission.append_empty, Emission.append_assoc]
  rfl

/-- A test in several lists is what its template is filled to. -/
theorem fill_several (negated : Bool) {parts : List (List Literal)} (h : 1 < parts.length) :
    fill s e (several negated parts)
      = .parens (join (if negated then " AND " else " OR ")
          (parts.map (InValues.single s e negated))) := by
  match parts, h with
  | part :: part' :: parts, _ =>
    rw [several, fill_cons, fill_append, fill_joined]
    · simp only [fill_single, fill_cons, fill_nil, Emission.append_empty, Emission.parens,
        Emission.append_assoc]
      rfl
    · rintro _ ⟨⟩

end Filled

/-! ### What a template is read as -/

section Read

variable {α : Type} {M : Meaning α} {style : ParamStyle}

/-- A list of emissions yields the list of templates that they yield. -/
theorem outcome_join {β : Type} (separator : String) (f : β → Template) (emission : β → Emission)
    (xs : List β) (h : ∀ x ∈ xs, (emission x).outcome = .ok (f x)) :
    (join separator (xs.map emission)).outcome = .ok (joined separator (xs.map f)) := by
  induction xs with
  | nil => rfl
  | cons x xs ih =>
    obtain ⟨hx, hxs⟩ := List.forall_mem_cons.mp h
    cases xs with
    | nil => simpa [join, joined] using hx
    | cons y ys =>
      have hrest := ih hxs
      simp only [joined, List.map_cons, List.intercalate_cons_cons, List.append_assoc] at hrest ⊢
      exact Emission.outcome_append_of_ok hx
        (Emission.outcome_append_of_ok (Emission.outcome_sql _) hrest)

/-- A test in one list is read as one. -/
theorem readsAs_single (negated : Bool) {values : List Literal} (hne : values ≠ []) :
    ReadsAs M style (Settled membershipLevel) (single negated values) membershipLevel
      (M.among (M.param "operand" none) (values.map fun l => M.param "literal" (some l))
        negated) := by
  -- The placeholder for the operand is read as any atom is.
  have hoperand : ReadsAs M style (Settled membershipLevel) [operand] membershipLevel
      (M.param "operand" none) := (readsAtom_param _ _).readsAs _ _
  obtain ⟨qs, hqs, hread⟩ := hoperand.among (fun l => .piece (literal l))
    (fun l => M.param "literal" (some l)) (Emission.outcome_piece operand) negated (Nat.le_refl _)
    (fun _ hfs => hfs) hne fun l _ => ⟨_, Emission.outcome_piece _,
      ((readsAtom_param _ _).readsAs (Settled 0) 0).inside fun f fs hf => hf.settled 0 fs⟩
  have hitems := outcome_join ", " ([literal ·]) (fun l => .piece (literal l)) values
    fun l _ => Emission.outcome_piece _
  have hsingle := Emission.outcome_append_of_ok (Emission.outcome_append_of_ok
    (Emission.outcome_append_of_ok (Emission.outcome_piece operand)
      (Emission.outcome_sql (if negated then " NOT IN (" else " IN ("))) hitems)
    (Emission.outcome_sql ")")
  obtain rfl := Except.ok.inj (hqs.symm.trans hsingle)
  simpa [single] using hread

/-- A test in one list binds stronger than the connective between tests, so it may stand behind
one. -/
theorem readsAs_single_onChain (negated : Bool) {values : List Literal} (hne : values ≠ []) :
    ReadsAs M style (OnChain (splitOp negated)) (single negated values)
      (infixLevel (splitOp negated))
      (M.among (M.param "operand" none) (values.map fun l => M.param "literal" (some l))
        negated) := by
  have hlevel : infixLevel (splitOp negated) < membershipLevel := by
    cases negated <;> decide
  refine (readsAs_single negated hne).mono ?_ (Nat.le_of_lt hlevel)
  rintro fs (hfs | ⟨w, fs', rfl, -⟩)
  · exact hfs.mono (Nat.le_of_lt hlevel)
  · exact hlevel

/-- A test in several lists is read as one in all their items, if a test may be split. -/
theorem readsAs_several (negated : Bool) {parts : List (List Literal)} (hne : parts ≠ [])
    (hparts : ∀ part ∈ parts, part ≠ [])
    (hsplit : ∀ v xs ys, M.binary (M.among v xs negated) (splitOp negated)
      (M.among v ys negated) = M.among v (xs ++ ys) negated) :
    ReadsAs M style (Settled membershipLevel) (several negated parts) membershipLevel
      (M.among (M.param "operand" none)
        (parts.flatten.map fun l => M.param "literal" (some l)) negated) := by
  -- One list alone stands without parentheses.
  match parts, hne with
  | [part], _ =>
    rw [several, List.flatten_singleton]
    exact readsAs_single negated (hparts part (List.mem_singleton.mpr rfl))
  | part :: part' :: parts, _ =>
    have hop : splitOp negated ≠ .concat := by cases negated <;> decide
    have hword : (if negated then " AND " else " OR ")
        = " " ++ (splitOp negated).text ++ " " := by
      cases negated <;> rfl
    obtain ⟨qs, hqs, hchain⟩ := readsAs_chain (fun x => Traced.ok (single negated x))
      (fun x => M.among (M.param "operand" none) (x.map fun l => M.param "literal" (some l))
        negated)
      hop part (part' :: parts)
      fun x hx => ⟨_, rfl, readsAs_single_onChain negated (hparts x hx)⟩
    rw [foldl_among (hsplit _), ← List.flatten_cons] at hchain
    have hjoined := outcome_join (" " ++ (splitOp negated).text ++ " ") (single negated)
      (fun x => Traced.ok (single negated x)) (part :: part' :: parts) fun _ _ => rfl
    obtain rfl := Except.ok.inj (hqs.symm.trans hjoined)
    rw [several, hword]
    · exact (hchain.inside fun f fs hf => hf.settled _ fs).parens.readsAs _ _
    · rintro _ ⟨⟩

end Read

/-- What a template is read as has a truth. -/
theorem truth?_of_readsAs {v : Value} {value : Literal → Value} {t : Template} {p q : Nat}
    {w : Value} (h : ReadsAs (valuation v value).meaning .questionMark (Settled p) t q w) :
    truth? v value t = some w.truth? := by
  rw [truth?, Piece.render_eq_renderFrom, read_of_readsAs h trivial]
  rfl

/-- Several lists have the truth of a test in all of them together. -/
theorem truth?_several (negated : Bool) {parts : List (List Literal)} (hne : parts ≠ [])
    (hparts : ∀ part ∈ parts, part ≠ []) (v : Value) (value : Literal → Value) :
    truth? v value (several negated parts)
      = some (v.isAmong (parts.flatten.map value) negated) := by
  rw [truth?_of_readsAs (readsAs_several negated hne hparts
    ((valuation v value).among_append negated))]
  simp only [Valuation.meaning, Value.truth?_ofTruth]
  rfl

/-- One list has the truth of a test in it. -/
theorem truth?_single (negated : Bool) {values : List Literal} (hne : values ≠ []) (v : Value)
    (value : Literal → Value) :
    truth? v value (single negated values) = some (v.isAmong (values.map value) negated) := by
  have hparts : ∀ part ∈ [values], part ≠ [] := List.forall_mem_singleton.mpr hne
  have h := truth?_several negated (List.cons_ne_nil values []) hparts v value
  rwa [List.flatten_singleton] at h

/-- A comparison of numbers is true or false whatever the operand is. -/
theorem truth?_constant (b : Bool) (v : Value) (value : Literal → Value) :
    truth? v value [.sql (if b then "1=1" else "1=0")] = some (some b) := by
  rw [truth?_of_readsAs (readsAs_constant b)]
  cases b <;> rfl

/-- Whether a value is null is unknown if it is asked by a membership test. -/
theorem truth?_inNull (v : Value) (value : Literal → Value) :
    truth? v value [operand, .sql " IN (NULL)"] = some none := by
  cases v <;> rfl

end Template

/-! ## Lists that are split -/

/-- A list is split into as many parts as are needed, and none is too long. -/
theorem chunksUpTo_bounds {β : Type} {k : Nat} (hk : 0 < k) (fuel : Nat) (xs : List β)
    (h : xs.length ≤ fuel) :
    (InValues.chunksUpTo k fuel xs).length = xs.length ⌈/⌉ k ∧
      ∀ part ∈ InValues.chunksUpTo k fuel xs, part.length ≤ k := by
  induction fuel generalizing xs with
  | zero =>
    obtain rfl : xs = [] := List.length_eq_zero_iff.mp (by omega)
    simp [InValues.chunksUpTo]
  | succ fuel ih =>
    cases xs with
    | nil => simp [InValues.chunksUpTo]
    | cons x xs =>
      have hdrop : ((x :: xs).drop k).length ≤ fuel := by
        rw [List.length_drop, List.length_cons] at *
        omega
      obtain ⟨hlength, hparts⟩ := ih _ hdrop
      rw [InValues.chunksUpTo]
      · refine ⟨?_, List.forall_mem_cons.mpr ⟨List.length_take_le _ _, hparts⟩⟩
        -- One part is taken off, which is all if the list is no longer than a part.
        rw [List.length_cons, hlength, List.length_drop, List.length_cons]
        simp only [Nat.ceilDiv_eq_add_pred_div]
        have hceil : xs.length + 1 + k - 1 = xs.length + k := by omega
        rw [hceil, Nat.add_div_right _ hk]
        by_cases hle : k ≤ xs.length
        · have hrest : xs.length + 1 - k + k - 1 = xs.length := by omega
          rw [hrest]
        · have hrest : xs.length + 1 - k + k - 1 = k - 1 := by omega
          rw [hrest, Nat.div_eq_of_lt (by omega), Nat.div_eq_of_lt (by omega)]
      · exact List.cons_ne_nil x xs

/-- The parts that a list is split into, if there is a bound on their length. -/
def partsUpTo {β : Type} (max : Option Nat) (xs : List β) : List (List β) :=
  match max with
  | some k => InValues.chunks k xs
  | none => [xs]

section Parts

variable {β : Type} {xs : List β}

/-- There is more than one part exactly if the list is longer than a part. -/
theorem one_lt_length_chunks {k : Nat} (hk : 0 < k) :
    1 < (InValues.chunks k xs).length ↔ k < xs.length := by
  have hle := ceilDiv_le_iff_le_smul (c := 1) (b := xs.length) hk
  rw [InValues.chunks, (chunksUpTo_bounds hk _ xs (Nat.le_refl _)).1]
  simp only [smul_eq_mul, mul_one] at hle
  omega

/-- A list is split without loss into parts that are not empty. -/
theorem partsUpTo_spec {max : Option Nat} (hmax : max ≠ some 0) (hne : xs ≠ []) :
    (partsUpTo max xs).flatten = xs ∧ partsUpTo max xs ≠ [] ∧
      ∀ part ∈ partsUpTo max xs, part ≠ [] := by
  cases max with
  | none =>
    exact ⟨List.flatten_singleton, List.cons_ne_nil _ _, List.forall_mem_singleton.mpr hne⟩
  | some k =>
    have hk : 0 < k := Nat.pos_of_ne_zero fun hzero => hmax (congrArg some hzero)
    obtain ⟨hflatten, hparts⟩ := chunksUpTo_spec hk xs.length xs (Nat.le_refl _)
    exact ⟨hflatten, chunks_ne_nil k hne, hparts⟩

/-- A list that is short enough is one part. -/
theorem chunks_of_le {k : Nat} (hk : 0 < k) (hne : xs ≠ []) (h : xs.length ≤ k) :
    InValues.chunks k xs = [xs] := by
  obtain ⟨hflatten, -⟩ := chunksUpTo_spec hk xs.length xs (Nat.le_refl _)
  have hlength : (InValues.chunks k xs).length = 1 := by
    have hpos := List.length_pos_of_ne_nil (chunks_ne_nil k hne)
    have hone : ¬1 < (InValues.chunks k xs).length :=
      mt (one_lt_length_chunks hk).mp (Nat.not_lt.mpr h)
    omega
  obtain ⟨part, hpart⟩ := List.length_eq_one_iff.mp hlength
  have hsame : part = xs := by
    rw [← hflatten, ← InValues.chunks, hpart, List.flatten_singleton]
  rw [hpart, hsame]

end Parts

/-! ## Tests as they are written -/

/-- A test is written as a template, with the operand in its place, whatever the operand is. -/
def WrittenAs (s : Settings) (test : Expr → Expr) (t : Template) : Prop :=
  ∀ left, ((test left).emit s).outcome = (Template.fill s (left.tested s) t).outcome

section Tests

variable {s : Settings} {values : List Literal} {negated : Bool}

/-- A test in literals is written in as many lists as the literals are split into. -/
theorem writtenAs_several (hmax : s.capabilities.maxInList ≠ some 0) (hne : values ≠ []) :
    WrittenAs s (.inValues · (values.map .literal) negated)
      (.several negated (partsUpTo s.capabilities.maxInList values)) := by
  intro left
  have hemit : ((Expr.inValues left (values.map .literal) negated).emit s).outcome
      = (InValues.emit s (left.tested s) negated values).outcome :=
    Traced.outcome_bind_of_ok (literals_map values) _
  rw [hemit, InValues.emit, if_neg (by simpa using hne)]
  cases hm : s.capabilities.maxInList with
  | none => rw [partsUpTo, Template.several, Template.fill_single]
  | some k =>
    have hk : 0 < k := Nat.pos_of_ne_zero fun hzero => hmax (hzero ▸ hm)
    rw [partsUpTo]
    -- Only a list that is longer than the maximum is split.
    by_cases hlong : k < values.length
    · rw [Template.fill_several _ _ _ ((one_lt_length_chunks hk).mpr hlong)]
      simp only [if_pos hlong, Emission.outcome_note_append]
    · rw [chunks_of_le hk hne (Nat.not_lt.mp hlong), Template.several, Template.fill_single]
      simp only [if_neg hlong]

end Tests

/-- Literals that are too many for one list are written in several: as few consecutive parts as will
do, in one pair of parentheses. For every value of the operand, the test has the truth of the test
in one list, which is what is written if there is no bound. -/
theorem inValues_split {k : Nat} (hk : 0 < k) {values : List Literal} (hne : values ≠ [])
    (negated : Bool) :
    ∃ parts : List (List Literal), parts.flatten = values ∧
      (∀ part ∈ parts, part ≠ [] ∧ part.length ≤ k) ∧ parts.length = values.length ⌈/⌉ k ∧
      (1 < parts.length ↔ k < values.length) ∧
      (∀ s : Settings, WrittenAs (s.withMaxInList (some k))
        (.inValues · (values.map .literal) negated) (.several negated parts)) ∧
      (∀ s : Settings, WrittenAs (s.withMaxInList none)
        (.inValues · (values.map .literal) negated) (.single negated values)) ∧
      ∀ v value, (Template.several negated parts).truth? v value
          = some (v.isAmong (values.map value) negated) ∧
        (Template.single negated values).truth? v value
          = some (v.isAmong (values.map value) negated) := by
  have hmax : some k ≠ some 0 := fun h => hk.ne' (Option.some.inj h)
  obtain ⟨hflatten, hparts, hnonempty⟩ := partsUpTo_spec hmax hne
  obtain ⟨hlength, hshort⟩ := chunksUpTo_bounds hk values.length values (Nat.le_refl _)
  refine ⟨InValues.chunks k values, hflatten, fun part hpart =>
    ⟨hnonempty part hpart, hshort part hpart⟩, hlength, one_lt_length_chunks hk,
    fun s => writtenAs_several hmax hne, fun s => ?_, fun v value => ⟨?_, ?_⟩⟩
  · exact writtenAs_several (s := s.withMaxInList none) (by simp [Settings.withMaxInList]) hne
  · have htruth := Template.truth?_several negated hparts hnonempty v value
    rwa [hflatten] at htruth
  · exact Template.truth?_single negated hne v value

/-- Five literals, one of them null, with at most two in a list: three lists. -/
theorem inValues_split_of_five :
    let values : List Literal := [.integer 1, .null, .string "a", .integer 2, .boolean true]
    ∃ parts : List (List Literal), parts.flatten = values ∧ parts.length = 3 ∧
      ∀ v value, (Template.several true parts).truth? v value
        = (Template.single true values).truth? v value := by
  intro values
  obtain ⟨parts, hflatten, -, hlength, -, -, -, htruth⟩ :=
    inValues_split (k := 2) (by decide) (List.cons_ne_nil _ _ : values ≠ []) true
  exact ⟨parts, hflatten, hlength, fun v value => (htruth v value).1.trans (htruth v value).2.symm⟩

/-! ## The two kinds of tests -/

namespace Template

/-- A test in a list of expressions that are literals. Nothing is in an empty list. -/
def inList (negated : Bool) (values : List Literal) : Template :=
  if values.isEmpty then [.sql (if negated then "1=1" else "1=0")] else single negated values

/-- A test in literals. Whether something is in an empty list is asked of null instead. -/
def inValues (max : Option Nat) (negated : Bool) (values : List Literal) : Template :=
  if values.isEmpty then
    if negated then [.sql "1=1"] else [operand, .sql " IN (NULL)"]
  else several negated (partsUpTo max values)

/-- Nothing is in an empty list of expressions. -/
theorem truth?_inList (negated : Bool) (values : List Literal) (v : Value)
    (value : Literal → Value) :
    (inList negated values).truth? v value = some (v.isAmong (values.map value) negated) := by
  cases values with
  | nil =>
    rw [inList, List.isEmpty_nil, if_pos rfl, truth?_constant]
    cases negated <;> rfl
  | cons l ls =>
    rw [inList, List.isEmpty_cons, if_neg Bool.false_ne_true]
    exact truth?_single negated (List.cons_ne_nil l ls) v value

/-- Membership in literals has its truth, unless it is asked of none of them. -/
theorem truth?_inValues {max : Option Nat} (hmax : max ≠ some 0) {negated : Bool}
    {values : List Literal} (h : values = [] → negated = true) (v : Value)
    (value : Literal → Value) :
    (inValues max negated values).truth? v value
      = some (v.isAmong (values.map value) negated) := by
  -- An empty list that is negated is a constant.
  cases values with
  | nil =>
    obtain rfl := h rfl
    exact truth?_constant true v value
  | cons l ls =>
    obtain ⟨hflatten, hparts, hnonempty⟩ := partsUpTo_spec hmax (List.cons_ne_nil l ls)
    have htruth := truth?_several negated hparts hnonempty v value
    rw [hflatten] at htruth
    rwa [inValues, List.isEmpty_cons, if_neg Bool.false_ne_true]

end Template

section Tests

variable {s : Settings}

/-- A test in a list of expressions that are literals is written as its template. -/
theorem writtenAs_inList (values : List Literal) (negated : Bool) :
    WrittenAs s (.inList · (values.map .literal) negated) (.inList negated values) := by
  intro left
  cases values with
  | nil => cases negated <;> rfl
  | cons l ls =>
    rw [Template.inList, List.isEmpty_cons, if_neg Bool.false_ne_true, Template.fill_single,
      Expr.emit, List.map_cons, List.isEmpty_cons, if_neg Bool.false_ne_true, emitEach_eq_map,
      ← List.map_cons, List.map_map]
    rfl

/-- A test in a list of literals is written as its template. -/
theorem writtenAs_inValues (hmax : s.capabilities.maxInList ≠ some 0) (values : List Literal)
    (negated : Bool) :
    WrittenAs s (.inValues · (values.map .literal) negated)
      (.inValues s.capabilities.maxInList negated values) := by
  -- An empty list is written apart: as a null, or without the operand.
  cases values with
  | nil =>
    intro left
    cases negated with
    | false =>
      show (left.tested s ++ sql " IN (NULL)").outcome
        = (left.tested s ++ (sql " IN (NULL)" ++ .empty)).outcome
      rw [Emission.append_empty]
    | true => rfl
  | cons l ls =>
    rw [Template.inValues, List.isEmpty_cons, if_neg Bool.false_ne_true]
    exact writtenAs_several hmax (List.cons_ne_nil l ls)

end Tests

/-! ## Texts with their operands

A template is read with a placeholder for the operand. The text that it is filled to is read with
the same truth if the text of the operand is itself read as an operand of the test. That leaves out
an operand that is written bare and yet binds weaker than the test, as `NOT EXISTS` does: the test
would be read as part of what is negated. -/

/-- The text of an expression is read as the operand of a membership test, with a value. -/
def ReadsOperand (ν : Valuation) (s : Settings) (left : Expr) (w : Value) : Prop :=
  ∃ ps, (left.tested s).outcome = .ok ps ∧
    ReadsAs ν.meaning s.paramStyle (Settled membershipLevel) ps membershipLevel w

/-- An emission is read with a truth, wherever its parameters are counted from. -/
def ReadsTruth (ν : Valuation) (s : Settings) (e : Emission) (truth : Option Truth) : Prop :=
  ∃ ps, e.outcome = .ok ps ∧ ∀ position,
    (read ν.meaning s.paramStyle (Piece.renderFrom s.paramStyle position ps)
      (Piece.params s.paramStyle position ps)).map Value.truth? = truth

section Texts

variable {ν : Valuation} {s : Settings} {left : Expr} {w : Value} {values : List Literal}
  {negated : Bool}

/-- An expression that is read back is read as the operand of a test. -/
theorem readsOperand_of_reads (h : Reads ν.meaning s left)
    (hlevel : membershipLevel < level left ∨ level left = left.strength) :
    ReadsOperand ν s left (mean ν.meaning left) :=
  readsAs_tested h hlevel

/-- What is read as an operand of some level is read with the truth of its value. -/
theorem ReadsAs.readsTruth {e : Emission} {ps : List Piece} {p q : Nat} {x : Value}
    (hps : e.outcome = .ok ps) (h : ReadsAs ν.meaning s.paramStyle (Settled p) ps q x) :
    ReadsTruth ν s e (some x.truth?) := by
  refine ⟨ps, hps, fun position => ?_⟩
  rw [read_of_readsAs h trivial position]
  rfl

/-- A membership test of values has the truth of one. -/
theorem truth?_among (ν : Valuation) (w : Value) (ws : List Value) (negated : Bool) :
    (ν.meaning.among w ws negated).truth? = w.isAmong ws negated := by
  simp only [Valuation.meaning, Value.truth?_ofTruth]
  rfl

/-- The text of a test in a list of literals is read with the truth of its template. -/
theorem readsTruth_inList (h : ReadsOperand ν s left w)
    (hvalues : ∀ l ∈ values, Reads ν.meaning s (.literal l)) :
    ReadsTruth ν s ((Expr.inList left (values.map .literal) negated).emit s)
      ((Template.inList negated values).truth? w fun l => mean ν.meaning (.literal l)) := by
  rw [Template.truth?_inList]
  cases values with
  | nil =>
    -- Nothing is in an empty list, whatever the operand is.
    have hconstant : ((Expr.inList left [] negated).emit s).outcome
        = .ok [.sql (if negated then "1=1" else "1=0")] := by
      cases negated <;> rfl
    have htruth := ReadsAs.readsTruth (ν := ν) (s := s) hconstant (readsAs_constant negated)
    cases negated <;> exact htruth
  | cons l ls =>
    obtain ⟨ps, hps, hread⟩ := h
    obtain ⟨qs, hqs, hsingle⟩ := readsAs_single hps hread negated (List.cons_ne_nil l ls) hvalues
    rw [← truth?_among ν]
    refine ReadsAs.readsTruth ?_ hsingle
    rw [← hqs, ← Template.fill_single]
    exact writtenAs_inList (l :: ls) negated left

/-- The text of a test in literals that may be split is read with the truth of its template. -/
theorem readsTruth_inValues (h : ReadsOperand ν s left w)
    (hvalues : ∀ l ∈ values, Reads ν.meaning s (.literal l))
    (hmax : s.capabilities.maxInList ≠ some 0) :
    ReadsTruth ν s ((Expr.inValues left (values.map .literal) negated).emit s)
      ((Template.inValues s.capabilities.maxInList negated values).truth? w fun l =>
        mean ν.meaning (.literal l)) := by
  obtain ⟨ps, hps, hread⟩ := h
  have hemit : ((Expr.inValues left (values.map .literal) negated).emit s).outcome
      = (InValues.emit s (left.tested s) negated values).outcome :=
    Traced.outcome_bind_of_ok (literals_map values) _
  cases values with
  | nil =>
    cases negated with
    | true =>
      rw [Template.truth?_inValues hmax fun _ => rfl]
      have hconstant : (InValues.emit s (left.tested s) true []).outcome = .ok [.sql "1=1"] := rfl
      exact ReadsAs.readsTruth (hemit.trans hconstant) (readsAs_constant true)
    | false =>
      -- A list with a null in it is written in the same text, though in other pieces.
      obtain ⟨qs, hqs, hnull⟩ := readsAs_single hps hread false (List.cons_ne_nil .null [])
        (List.forall_mem_singleton.mpr reads_null)
      have hsingle : (InValues.single s (left.tested s) false [.null]).outcome
          = .ok (ps ++ [.sql " IN ("] ++ [.sql "NULL"] ++ [.sql ")"]) :=
        Emission.outcome_append_of_ok (Emission.outcome_append_of_ok
          (Emission.outcome_append_of_ok hps (Emission.outcome_sql _)) rfl) (Emission.outcome_sql _)
      obtain rfl := Except.ok.inj (hqs.symm.trans hsingle)
      refine ⟨ps ++ [.sql " IN (NULL)"], hemit.trans
        (Emission.outcome_append_of_ok hps (Emission.outcome_sql _)), fun position => ?_⟩
      have hread := read_of_readsAs hnull trivial position
      have htext : Piece.renderFrom s.paramStyle position
            (ps ++ [.sql " IN ("] ++ [.sql "NULL"] ++ [.sql ")"])
          = Piece.renderFrom s.paramStyle position (ps ++ [.sql " IN (NULL)"]) := by
        simp only [List.append_assoc, Piece.renderFrom_append]
        rfl
      have hparams : Piece.params s.paramStyle position
            (ps ++ [.sql " IN ("] ++ [.sql "NULL"] ++ [.sql ")"])
          = Piece.params s.paramStyle position (ps ++ [.sql " IN (NULL)"]) := by
        simp only [List.append_assoc, Piece.params_append]
        rfl
      have hunknown : w.isAmong [mean ν.meaning (.literal .null)] false = none := by
        cases w <;> rfl
      rw [htext, hparams] at hread
      rw [hread, Option.map_some, truth?_among, List.map_singleton, hunknown]
      exact (Template.truth?_inNull w _).symm
  | cons l ls =>
    -- The template is read with the operand's and the literals' own texts in its places.
    obtain ⟨qs, hqs, hreadq⟩ := readsAs_values hps hread negated (List.cons_ne_nil l ls) hvalues
      hmax (ν.among_append negated w)
    rw [Template.truth?_inValues hmax (fun hnil => absurd hnil (List.cons_ne_nil l ls)),
      ← truth?_among ν]
    exact ReadsAs.readsTruth (hemit.trans hqs) hreadq

end Texts

/-- The two kinds of tests in literals have the same truth for every operand, unless the list is
empty and the test is not negated: nothing is in an empty list of expressions, but whether something
is in an empty list of literals is unknown. -/
theorem inList_agrees_iff {s : Settings} (hmax : s.capabilities.maxInList ≠ some 0)
    (values : List Literal) (negated : Bool) :
    let t := Template.inList negated values
    let u := Template.inValues s.capabilities.maxInList negated values
    WrittenAs s (.inList · (values.map .literal) negated) t ∧
      WrittenAs s (.inValues · (values.map .literal) negated) u ∧
      (∀ v value, t.truth? v value = some (v.isAmong (values.map value) negated)) ∧
      (values = [] → negated = false → ∀ v value, u.truth? v value = some none) ∧
      ((∀ v value, u.truth? v value = t.truth? v value) ↔ (values = [] → negated = true)) := by
  intro t u
  have hunknown : values = [] → negated = false → ∀ v value, u.truth? v value = some none := by
    rintro rfl rfl v value
    exact Template.truth?_inNull v value
  have hlist : ∀ v value, t.truth? v value = some (v.isAmong (values.map value) negated) :=
    Template.truth?_inList negated values
  refine ⟨writtenAs_inList values negated, writtenAs_inValues hmax values negated, hlist, hunknown,
    fun hsame hnil => ?_, fun h v value => ?_⟩
  · -- With an empty list that is not negated, one test is false and the other unknown.
    by_contra hnot
    have hfalse : negated = false := by simpa using hnot
    have hvalue := hsame .null fun _ => .null
    rw [hunknown hnil hfalse, hlist, hnil, hfalse] at hvalue
    cases hvalue
  · exact (Template.truth?_inValues hmax h v value).trans (hlist v value).symm

/-- With at most one value in a list, two values make two lists, and the test is still the same. -/
theorem inList_agrees_of_two :
    let o : Options :=
      { format := false, target := ⟨some .oracle⟩, signatureComment := false
        capabilities := some { maxInList := some 1 } }
    let query : Expr → Statement := fun e => .select ((Select.fromTable "t" []).withWhere e)
    let values : List Literal := [.integer 1, .null]
    (compile o (query (.inList (.col "x") (values.map .literal) true))).outcome
        = .ok ⟨"SELECT * FROM t WHERE x NOT IN (1, NULL)", []⟩ ∧
      (compile o (query (.inValues (.col "x") (values.map .literal) true))).outcome
        = .ok ⟨"SELECT * FROM t WHERE (x NOT IN (1) AND x NOT IN (NULL))", []⟩ ∧
      ∀ v value, (Template.inValues o.choices.capabilities.maxInList true values).truth? v value
        = (Template.inList true values).truth? v value := by
  intro o query values
  have hmax : o.choices.capabilities.maxInList ≠ some 0 := by decide
  obtain ⟨-, -, -, -, hagrees⟩ := inList_agrees_iff hmax values true
  exact ⟨by cbv, by cbv, hagrees.mpr fun _ => rfl⟩

/-- Nothing is in an empty list, so a query for what is not in it yields every row. With literals it
yields none, since nothing is known to be outside. -/
theorem not_agrees_of_empty :
    let o : Options := { format := false, signatureComment := false }
    let query : Expr → Statement := fun e => .select ((Select.fromTable "t" []).withWhere e)
    (compile o (query (.inList (.col "x") [] false))).outcome
        = .ok ⟨"SELECT * FROM t WHERE 1=0", []⟩ ∧
      (compile o (query (.inValues (.col "x") [] false))).outcome
        = .ok ⟨"SELECT * FROM t WHERE x IN (NULL)", []⟩ ∧
      ∀ ν : Valuation,
        (read ν.meaning .questionMark "1=0" []).map Value.truth? = some (some false) ∧
        (read ν.meaning .questionMark "x IN (NULL)" []).map Value.truth? = some none ∧
        (read ν.meaning .questionMark "NOT 1=0" []).map Value.truth? = some (some true) ∧
        (read ν.meaning .questionMark "NOT x IN (NULL)" []).map Value.truth? = some none := by
  intro o query
  refine ⟨by cbv, by cbv, fun ν => ?_⟩
  have hunknown : Truth.any [Value.test (· == .eq) (ν.column none "x") .null] = none := by
    cases ν.column none "x" <;> rfl
  have hread : read ν.meaning .questionMark "x IN (NULL)" []
      = some (.ofTruth (Truth.any [Value.test (· == .eq) (ν.column none "x") .null])) := rfl
  have hnot : read ν.meaning .questionMark "NOT x IN (NULL)" []
      = some (ν.meaning.unary .not
          (.ofTruth (Truth.any [Value.test (· == .eq) (ν.column none "x") .null]))) := rfl
  rw [hread, hnot, hunknown]
  exact ⟨rfl, rfl, rfl, rfl⟩

end Reading

end SqlCompiler
