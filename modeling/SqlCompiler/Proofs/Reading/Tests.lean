import SqlCompiler.Proofs.Reading.Tree

/-!
# Tests

The tests for null, for a range and for membership in a list are read back. Their operands group to
the left, so an operand as strong as the test needs no parentheses on the left only. Literals may be
split over several lists; the test is then read back if the meaning of a membership test may be
split likewise (`reads_inValues`).
-/

namespace SqlCompiler.Reading

variable {α : Type} {M : Meaning α} {st : Settings}

/-- The left operand of a test that groups to the left. -/
theorem readsAs_tested {e : Expr} (h : Reads M st e) {p : Nat}
    (hlevel : p < level e ∨ level e = e.strength) :
    ∃ ps, (Rendered.operand ⟨e, e.emit st⟩ .left p .left).outcome = .ok ps ∧
      ReadsAs M st.paramStyle (Settled p) ps p (mean M e) := by
  obtain ⟨ps, hps, hread, _⟩ := readsAs_operand h .left p .left (F := Settled p) (p := p) (by
    intro hbare
    have hle := le_strength_of_bare hbare
    have hlevel' : p ≤ level e := by omega
    exact ⟨hlevel', fun fs hfs => fits_of_settled hfs hlevel'⟩)
  exact ⟨ps, hps, hread⟩

/-- An end of a range, which binds stronger than the test or stands in parentheses. -/
theorem readsAs_bound {e : Expr} (h : Reads M st e) {p q : Nat}
    (hlevel : p < level e ∨ level e = e.strength) (hq : q ≤ p + 1) :
    ∃ ps, (Rendered.operand ⟨e, e.emit st⟩ .right p .left).outcome = .ok ps ∧
      ReadsAs M st.paramStyle (Settled (p + 1)) ps q (mean M e) := by
  obtain ⟨ps, hps, hread, _⟩ := readsAs_operand h .right p .left (F := Settled (p + 1)) (p := q) (by
    intro hbare
    have hle := le_strength_of_bare hbare
    -- An end as strong as the test stands in parentheses, since the test groups to the left.
    have hne : e.strength ≠ p := by
      intro heq
      rw [heq] at hbare
      exact absurd (covers_of_bare hbare) (by decide)
    have hlevel' : p + 1 ≤ level e := by omega
    exact ⟨by omega, fun fs hfs => fits_of_settled hfs hlevel'⟩)
  exact ⟨ps, hps, hread⟩

/-- A test for null. -/
theorem reads_isNull {e : Expr} (h : Reads M st e) (negated : Bool)
    (hlevel : isLevel < level e ∨ level e = e.strength) : Reads M st (.isNull e negated) := by
  obtain ⟨ps, hps, hread⟩ := readsAs_tested h hlevel
  refine ⟨ps ++ [.sql (if negated then " IS NOT NULL" else " IS NULL")], ?_, ?_, ?_⟩
  · exact Emission.outcome_append_of_ok hps (Emission.outcome_sql _)
  · exact hread.isNull negated (Nat.le_refl _) fun _ hfs => hfs
  · intro hstrong
    exact absurd hstrong (by decide : ¬ 13 < 5)

/-- A test for a range. -/
theorem reads_between {e low high : Expr} (h : Reads M st e) (hlow : Reads M st low)
    (hhigh : Reads M st high) (negated : Bool)
    (hlevel : ∀ x ∈ [e, low, high], membershipLevel < level x ∨ level x = x.strength) :
    Reads M st (.between e low high negated) := by
  obtain ⟨ps, hps, hread⟩ := readsAs_tested h (hlevel e (by simp))
  obtain ⟨qs, hqs, hreadLow⟩ := readsAs_bound (q := infixLevel .and) hlow (hlevel low (by simp))
    (by decide)
  obtain ⟨rs, hrs, hreadHigh⟩ := readsAs_bound (q := membershipLevel) hhigh
    (hlevel high (by simp)) (by decide)
  refine ⟨ps ++ .sql (if negated then " NOT BETWEEN " else " BETWEEN ")
    :: (qs ++ .sql " AND " :: rs), ?_, ?_, ?_⟩
  · show (_ ++ Emission.sql _ ++ _ ++ Emission.sql _ ++ _).outcome = _
    simp only [Emission.append_assoc]
    exact Emission.outcome_append_of_ok hps (Emission.outcome_append_of_ok (Emission.outcome_sql _)
      (Emission.outcome_append_of_ok hqs
        (Emission.outcome_append_of_ok (Emission.outcome_sql _) hrs)))
  · exact hread.between hreadLow hreadHigh negated (Nat.le_refl _) (Nat.le_refl _) (Nat.le_refl _)
      (fun _ hfs => hfs) (fun _ => Nat.lt_succ_self _) fun _ => Nat.lt_succ_self _
  · intro hstrong
    exact absurd hstrong (by decide : ¬ 13 < 7)

/-- A membership test in a list of expressions. An empty list is written as a comparison of
numbers. -/
theorem reads_inList {e : Expr} {list : List Expr} (h : Reads M st e)
    (hlist : ∀ x ∈ list, Reads M st x) (negated : Bool)
    (hlevel : membershipLevel < level e ∨ level e = e.strength)
    (hempty : M.among (mean M e) [] negated
      = M.binary (M.integer 1) .eq (M.integer (if negated then 1 else 0))) :
    Reads M st (.inList e list negated) := by
  -- An empty list is written as a comparison of constants, at another level.
  cases list with
  | nil =>
    refine ⟨[.sql (if negated then "1=1" else "1=0")], ?_, ?_, ?_⟩
    · rfl
    · show ReadsAs M _ _ _ _ (M.among (mean M e) [] negated)
      rw [hempty]
      exact readsAs_constant negated
    · intro hstrong
      exact absurd hstrong (by decide : ¬ 13 < 7)
  | cons x xs =>
    obtain ⟨ps, hps, hread⟩ := readsAs_tested h hlevel
    obtain ⟨qs, hqs, hreadq⟩ := hread.among (·.emit st) (mean M) hps negated (Nat.le_refl _)
      (fun _ hfs => hfs) (List.cons_ne_nil x xs) fun y hy => (hlist y hy).inside
    rw [← emitEach_eq_map] at hqs
    rw [← meanEach_eq_map] at hreadq
    refine ⟨qs, ?_, ?_, ?_⟩
    · exact hqs
    · exact hreadq
    · intro hstrong
      exact absurd hstrong (by decide : ¬ 13 < 7)

/-- The parts of a split test are tests in the parts of the list. -/
theorem foldl_among {op : BinaryOp} {v : α} {negated : Bool}
    (hsplit : ∀ xs ys, M.binary (M.among v xs negated) op (M.among v ys negated)
      = M.among v (xs ++ ys) negated) (item : Literal → α) (values : List Literal)
    (parts : List (List Literal)) :
    parts.foldl (fun w part => M.binary w op (M.among v (part.map item) negated))
        (M.among v (values.map item) negated)
      = M.among v ((values ++ parts.flatten).map item) negated := by
  induction parts generalizing values with
  | nil => rw [List.foldl_nil, List.flatten_nil, List.append_nil]
  | cons part parts ih =>
    rw [List.foldl_cons, hsplit, ← List.map_append, ih, List.append_assoc, List.flatten_cons]

/-- The connective between the parts of a split test. -/
def splitOp (negated : Bool) : BinaryOp :=
  if negated then .and else .or

/-- A membership test in one of the lists that literals are split into. -/
theorem readsAs_single {operand : Emission} {ps : List Piece} {v : α}
    (hps : operand.outcome = .ok ps)
    (hread : ReadsAs M st.paramStyle (Settled membershipLevel) ps membershipLevel v)
    (negated : Bool) {values : List Literal} (hne : values ≠ [])
    (hvalues : ∀ l ∈ values, Reads M st (.literal l)) :
    ∃ qs, (InValues.single st operand negated values).outcome = .ok qs ∧
      ReadsAs M st.paramStyle (Settled membershipLevel) qs membershipLevel
        (M.among v (values.map fun l => mean M (.literal l)) negated) := by
  have hinside : ∀ l ∈ values, ∃ ps, (Literal.emit st l).outcome = .ok ps ∧
      ReadsInside M st.paramStyle ps (mean M (.literal l)) := fun l hl => (hvalues l hl).inside
  unfold InValues.single
  exact hread.among (Literal.emit st) (fun l => mean M (.literal l)) hps negated (Nat.le_refl _)
    (fun _ hfs => hfs) hne hinside

/-- A test that is split into parts reads as one test. -/
theorem readsAs_parts {operand : Emission} {ps : List Piece} {v : α}
    (hps : operand.outcome = .ok ps)
    (hread : ReadsAs M st.paramStyle (Settled membershipLevel) ps membershipLevel v)
    (negated : Bool) {parts : List (List Literal)} (hne : parts ≠ [])
    (hparts : ∀ part ∈ parts, part ≠ [] ∧ ∀ l ∈ part, Reads M st (.literal l))
    (hsplit : ∀ xs ys, M.binary (M.among v xs negated) (splitOp negated) (M.among v ys negated)
      = M.among v (xs ++ ys) negated) :
    ∃ qs, (Emission.join (if negated then " AND " else " OR ")
        (parts.map (InValues.single st operand negated))).outcome = .ok qs ∧
      ReadsInside M st.paramStyle qs
        (M.among v (parts.flatten.map fun l => mean M (.literal l)) negated) := by
  have hop : splitOp negated ≠ .concat := by cases negated <;> decide
  have hword : (if negated then " AND " else " OR ") = " " ++ (splitOp negated).text ++ " " := by
    cases negated <;> rfl
  have hlevel : infixLevel (splitOp negated) < membershipLevel := by cases negated <;> decide
  cases parts with
  | nil => exact absurd rfl hne
  | cons part parts =>
    obtain ⟨qs, hqs, hchain⟩ := readsAs_chain (InValues.single st operand negated)
      (fun part => M.among v (part.map fun l => mean M (.literal l)) negated) hop part parts (by
        -- Each part binds stronger than the connective, so it may stand behind one.
        intro part' hpart'
        obtain ⟨hpne, hliterals⟩ := hparts part' hpart'
        obtain ⟨rs, hrs, hsingle⟩ := readsAs_single hps hread negated hpne hliterals
        refine ⟨rs, hrs, hsingle.mono ?_ (Nat.le_of_lt hlevel)⟩
        rintro fs (hfs | ⟨x, fs', rfl, _⟩)
        · exact hfs.mono (Nat.le_of_lt hlevel)
        · exact hlevel)
    rw [foldl_among hsplit] at hchain
    rw [← hword] at hqs
    exact ⟨qs, hqs, hchain.inside fun f fs hf => hf.settled _ fs⟩

/-- Literals are written as one list, or split if they are too many; either way the text is one
membership test. -/
theorem readsAs_values {operand : Emission} {ps : List Piece} {v : α}
    (hps : operand.outcome = .ok ps)
    (hread : ReadsAs M st.paramStyle (Settled membershipLevel) ps membershipLevel v)
    (negated : Bool) {values : List Literal} (hne : values ≠ [])
    (hvalues : ∀ l ∈ values, Reads M st (.literal l))
    (hmax : st.capabilities.maxInList ≠ some 0)
    (hsplit : ∀ xs ys, M.binary (M.among v xs negated) (splitOp negated) (M.among v ys negated)
      = M.among v (xs ++ ys) negated) :
    ∃ qs, (InValues.emit st operand negated values).outcome = .ok qs ∧
      ReadsAs M st.paramStyle (Settled membershipLevel) qs membershipLevel
        (M.among v (values.map fun l => mean M (.literal l)) negated) := by
  have hsingle := readsAs_single hps hread negated hne hvalues
  have hfull : values.isEmpty = false := by simpa using hne
  simp only [InValues.emit, hfull]
  cases hlimit : st.capabilities.maxInList with
  | none => exact hsingle
  | some size =>
    by_cases hlong : size < values.length
    · -- The parts together are the literals, and the parentheses around them make one operand.
      have hsize : 0 < size := Nat.pos_of_ne_zero fun hzero => hmax (hzero ▸ hlimit)
      obtain ⟨hflatten, hnonempty⟩ := chunksUpTo_spec hsize values.length values (Nat.le_refl _)
      have hparts : InValues.chunks size values ≠ [] := by
        intro hnil
        rw [InValues.chunks] at hnil
        rw [hnil] at hflatten
        exact hne hflatten.symm
      obtain ⟨qs, hqs, hinside⟩ := readsAs_parts hps hread negated hparts (fun part hpart =>
        ⟨hnonempty part hpart, fun l hl => hvalues l (hflatten ▸
          List.mem_flatten_of_mem hpart hl)⟩) hsplit
      rw [InValues.chunks, hflatten] at hinside
      refine ⟨_, ?_, hinside.parens.readsAs _ _⟩
      simp only [hlong, if_true]
      rw [if_neg Bool.false_ne_true, Emission.outcome_note_append]
      exact Emission.outcome_parens hqs
    · simp only [hlong]
      exact hsingle

/-- A membership test in a list of literals, which may be split. -/
theorem reads_inValues {e : Expr} {values : List Literal} (h : Reads M st e) (hne : values ≠ [])
    (hvalues : ∀ l ∈ values, Reads M st (.literal l)) (negated : Bool)
    (hmax : st.capabilities.maxInList ≠ some 0)
    (hlevel : membershipLevel < level e ∨ level e = e.strength)
    (hsplit : ∀ v xs ys, M.binary (M.among v xs negated) (splitOp negated)
      (M.among v ys negated) = M.among v (xs ++ ys) negated) :
    Reads M st (.inValues e (values.map .literal) negated) := by
  obtain ⟨ps, hps, hread⟩ := readsAs_tested h hlevel
  obtain ⟨qs, hqs, hreadq⟩ := readsAs_values hps hread negated hne hvalues hmax (hsplit (mean M e))
  have hmean : meanEach M (values.map .literal) = values.map fun l => mean M (.literal l) := by
    rw [meanEach_eq_map, List.map_map]
    rfl
  have hemit : ((Expr.inValues e (values.map .literal) negated).emit st).outcome
      = (InValues.emit st (Rendered.operand ⟨e, e.emit st⟩ .left membershipStrength .left) negated
          values).outcome :=
    Traced.outcome_bind_of_ok (literals_map values) _
  refine ⟨qs, hemit.trans hqs, ?_, ?_⟩
  · show ReadsAs M _ _ _ _ (M.among (mean M e) (meanEach M (values.map .literal)) negated)
    rw [hmean]
    exact hreadq
  · intro hstrong
    exact absurd hstrong (by decide : ¬ 13 < 7)

end SqlCompiler.Reading
