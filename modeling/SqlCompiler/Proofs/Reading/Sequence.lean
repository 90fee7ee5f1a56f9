import SqlCompiler.Proofs.Reading.Operand

/-!
# Lists and chains

Operands that stand in a row: the arguments of a call and the items of a membership test, with
commas between them and a parenthesis behind them (`ListFrame`), and operands with one operator
between them, which are grouped to the left (`readsAs_chain`). An operand that is a whole text is
what the text is read as (`read_of_readsAs`).
-/

namespace SqlCompiler.Reading

variable {α : Type} {M : Meaning α} {style : ParamStyle}

/-- What waits for the items of a list: a comma adds an item, and the closing parenthesis ends the
list. -/
structure ListFrame (M : Meaning α) (frame : List α → Frame α) (value : List α → α) : Prop where
  isOpen : ∀ items, (frame items).IsOpen
  comma : ∀ {fs fs' : List (Frame α)} {t v : α} {items : List α},
    reduce M 0 fs t = (frame items :: fs', v) → ∀ more,
      Reader.afterOperand M more fs t .comma = ⟨more, frame (items ++ [v]) :: fs', .operand⟩
  closing : ∀ {fs fs' : List (Frame α)} {t v : α} {items : List α},
    reduce M 0 fs t = (frame items :: fs', v) → ∀ more,
      Reader.afterOperand M more fs t .closing = ⟨more, fs', .operator (value (items ++ [v]))⟩

/-- The arguments of a call. -/
theorem listFrame_call (name : String) (distinct : Bool) :
    ListFrame M (.call name distinct) (M.call name distinct) where
  isOpen _ := trivial
  comma h more := by rw [Reader.afterOperand, h]
  closing h more := by rw [Reader.afterOperand, h]

/-- The items of a membership test. -/
theorem listFrame_among (v : α) (negated : Bool) :
    ListFrame M (.among v negated) (fun items => M.among v items negated) where
  isOpen _ := trivial
  comma h more := by rw [Reader.afterOperand, h]
  closing h more := by rw [Reader.afterOperand, h]

/-- The items of a list, with commas between them, and the closing parenthesis. -/
theorem ListFrame.passes {β : Type} {frame : List α → Frame α} {value : List α → α}
    (hframe : ListFrame M frame value) (emission : β → Emission) (mean : β → α) {items : List β}
    (hne : items ≠ [])
    (hitems : ∀ x ∈ items, ∃ ps, (emission x).outcome = .ok ps ∧ ReadsInside M style ps (mean x)) :
    ∃ ps, (Emission.join ", " (items.map emission)).outcome = .ok ps ∧ ∀ vs fs,
      Passes M style endsOperand (ps ++ [.sql ")"]) (frame vs :: fs) .operand fs
        (.operator (value (vs ++ items.map mean))) := by
  -- The items read so far are arbitrary, so that the induction can go on behind a comma.
  induction items with
  | nil => exact absurd rfl hne
  | cons x xs ih =>
    obtain ⟨ps, hps, hread⟩ := hitems x List.mem_cons_self
    cases xs with
    | nil =>
      refine ⟨ps, hps, fun vs fs => ?_⟩
      obtain ⟨fs', t, hpass, hreduce⟩ := hread (frame vs) fs (hframe.isOpen vs)
      exact hpass.append_sql (passes_sql [.closing] (fun rest _ => rfl)
        (hframe.closing hreduce)) fun _ => rfl
    | cons y ys =>
      obtain ⟨qs, hqs, hpasses⟩ := ih (List.cons_ne_nil y ys)
        fun z hz => hitems z (List.mem_cons_of_mem x hz)
      refine ⟨ps ++ ([.sql ", "] ++ qs), ?_, fun vs fs => ?_⟩
      · exact Emission.outcome_append_of_ok hps
          (Emission.outcome_append_of_ok (Emission.outcome_sql ", ") hqs)
      · obtain ⟨fs', t, hpass, hreduce⟩ := hread (frame vs) fs (hframe.isOpen vs)
        have hcomma : Passes M style anything [.sql ", "] fs' (.operator t)
            (frame (vs ++ [mean x]) :: fs) .operand :=
          passes_sql [.comma] (fun rest _ => rfl) (hframe.comma hreduce)
        have hrest := hpasses (vs ++ [mean x]) fs
        rw [List.append_assoc, List.singleton_append] at hrest
        rw [List.append_assoc, List.append_assoc]
        exact hpass.append_sql (hcomma.append hrest fun _ _ _ => rfl) fun _ => rfl

/-- The start of a call. -/
theorem passes_call {name : String} (h : readsAsName style name.toList = true) (distinct : Bool)
    (fs : List (Frame α)) :
    Passes M style anything ([.verbatim name] ++ [.sql (if distinct then "(DISTINCT " else "(")])
      fs .operand (.call name distinct [] :: fs) .operand := by
  have hname : Passes M style (fun rest => endsWord rest) [.verbatim name] fs .operand fs
      (.named name) := by
    intro position more rest hrest
    have hscan := scan_name h hrest
    rw [String.ofList_toList] at hscan
    rw [Piece.renderFrom_verbatim, Piece.renderFrom_nil, String.append_empty,
      run_of_scan_cons hscan]
    rfl
  have hopen : Passes M style anything [.sql (if distinct then "(DISTINCT " else "(")] fs
      (.named name) (.call name distinct [] :: fs) .operand := by
    cases distinct with
    | false => exact passes_sql [.opening] (fun rest _ => rfl) fun more => rfl
    | true =>
      exact passes_sql [.opening, .keyword .distinct] (fun rest _ => rfl) fun more => rfl
  refine hname.append_sql hopen fun cs => ?_
  cases distinct <;> rfl

/-- A call of a function. -/
theorem readsAtom_call {β : Type} (emission : β → Emission) (mean : β → α) {name : String}
    (hname : readsAsName style name.toList = true) (distinct : Bool) {args : List β}
    (hargs : ∀ x ∈ args, ∃ ps, (emission x).outcome = .ok ps ∧ ReadsInside M style ps (mean x)) :
    ∃ ps, (Emission.verbatim name ++ Emission.sql (if distinct then "(DISTINCT " else "(")
        ++ Emission.join ", " (args.map emission) ++ Emission.sql ")").outcome
        = .ok (.verbatim name :: ps) ∧
      ReadsAtom M style (.verbatim name :: ps) (M.call name distinct (args.map mean)) := by
  have hstart : (Emission.verbatim name
      ++ Emission.sql (if distinct then "(DISTINCT " else "(")).outcome
      = .ok [.verbatim name, .sql (if distinct then "(DISTINCT " else "(")] :=
    Emission.outcome_append_of_ok (Emission.outcome_verbatim _) (Emission.outcome_sql _)
  have hopen := passes_call (M := M) hname distinct
  -- A call without arguments is closed where it is opened.
  cases args with
  | nil =>
    refine ⟨_, Emission.outcome_append_of_ok (Emission.outcome_append_of_ok hstart
      Emission.outcome_empty) (Emission.outcome_sql ")"), fun fs => ?_⟩
    have hclose : Passes M style endsOperand [.sql ")"] (.call name distinct [] :: fs) .operand fs
        (.operator (M.call name distinct [])) :=
      passes_sql [.closing] (fun rest _ => rfl) fun more => rfl
    exact (hopen fs).append hclose fun _ _ _ => rfl
  | cons x xs =>
    obtain ⟨qs, hqs, hpasses⟩ := (listFrame_call name distinct).passes emission mean
      (List.cons_ne_nil x xs) hargs
    refine ⟨_, Emission.outcome_append_of_ok (Emission.outcome_append_of_ok hstart hqs)
      (Emission.outcome_sql ")"), fun fs => ?_⟩
    exact (hopen fs).append (hpasses [] fs) fun _ _ _ => rfl

/-- A membership test. -/
theorem ReadsAs.among {β : Type} (emission : β → Emission) (mean : β → α)
    {F : List (Frame α) → Prop} {ps : List Piece} {p : Nat} {v : α}
    (h : ReadsAs M style F ps p v) {e : Emission} (he : e.outcome = .ok ps) (negated : Bool)
    (hp : membershipLevel ≤ p) (hF : ∀ fs, Settled membershipLevel fs → F fs) {items : List β}
    (hne : items ≠ [])
    (hitems : ∀ x ∈ items, ∃ ps, (emission x).outcome = .ok ps ∧ ReadsInside M style ps (mean x)) :
    ∃ qs, (e ++ Emission.sql (if negated then " NOT IN (" else " IN (")
        ++ Emission.join ", " (items.map emission) ++ Emission.sql ")").outcome = .ok qs ∧
      ReadsAs M style (Settled membershipLevel) qs membershipLevel
        (M.among v (items.map mean) negated) := by
  obtain ⟨rs, hrs, hpasses⟩ := (listFrame_among v negated).passes emission mean hne hitems
  refine ⟨_, Emission.outcome_append_of_ok (Emission.outcome_append_of_ok
    (Emission.outcome_append_of_ok he (Emission.outcome_sql _)) hrs) (Emission.outcome_sql ")"), ?_⟩
  intro fs hfs
  obtain ⟨fs', t, hpass, hreduce⟩ := h fs (hF fs hfs)
  have hclose : reduce M membershipLevel fs' t = (fs, v) :=
    (hreduce _ hp).trans (reduce_of_settled hfs v)
  have hin : Passes M style anything [.sql (if negated then " NOT IN (" else " IN (")] fs'
      (.operator t) (.among v negated [] :: fs) .operand := by
    cases negated with
    | false =>
      refine passes_sql [.keyword .among, .opening] (fun rest _ => rfl) fun more => ?_
      have hstep : Reader.step M ⟨more, fs', .operator t⟩ (.keyword .among)
          = ⟨more, fs, .among v false⟩ := by
        show Reader.afterOperand M more fs' t (.keyword .among) = _
        rw [Reader.afterOperand, hclose]
      rw [List.foldl_cons, hstep]
      rfl
    | true =>
      refine passes_sql [.keyword .not, .keyword .among, .opening] (fun rest _ => rfl)
        fun more => ?_
      have hstep : Reader.step M ⟨more, fs', .negated t⟩ (.keyword .among)
          = ⟨more, fs, .among v true⟩ := by
        simp only [Reader.step, hclose]
      show [Token.opening].foldl (Reader.step M)
        (Reader.step M ⟨more, fs', .negated t⟩ (.keyword .among)) = _
      rw [hstep]
      rfl
  have hends : ∀ cs : List Char,
      endsOperand ((if negated then " NOT IN (" else " IN (").toList ++ cs) = true := by
    intro cs
    cases negated <;> rfl
  refine ⟨fs, M.among v (items.map mean) negated, ?_, fun _ _ => rfl⟩
  rw [List.append_assoc, List.append_assoc]
  exact hpass.append_sql (hin.append (hpasses [] fs) fun _ _ _ => rfl) hends

/-- The comparison of two numbers that stands for a constant. -/
theorem readsAs_constant (b : Bool) :
    ReadsAs M style (Settled (infixLevel .eq)) [.sql (if b then "1=1" else "1=0")] (infixLevel .eq)
      (M.binary (M.integer 1) .eq (M.integer (if b then 1 else 0))) := by
  intro fs hfs
  have hpush : ∀ more : List BoundParam,
      Reader.step M ⟨more, fs, .operator (M.integer 1)⟩ (.operator .eq)
        = ⟨more, .binary (M.integer 1) .eq :: fs, .operand⟩ := by
    intro more
    show Reader.push M more fs (M.integer 1) .eq = _
    rw [Reader.push, reduce_of_settled hfs]
  -- Without blanks, the digit before the sign is ended by the sign and the last one by the rest.
  have hlast : ∀ (c : Char) (rest : List Char), endsOperand rest = true →
      (Scan.word [c]).run style rest = wordToken style [c] :: scan style rest :=
    fun c rest hrest => run_word style [c] [] (fun _ hd => absurd hd List.not_mem_nil)
      (endsWord_of_endsOperand hrest)
  refine ⟨.binary (M.integer 1) .eq :: fs, M.integer (if b then 1 else 0), ?_, ?_⟩
  · -- The two texts differ in their last digit only.
    cases b with
    | false =>
      refine passes_sql [.integer 1, .operator .eq, .integer 0] ?_ fun more => ?_
      · exact fun rest hrest =>
          congrArg (Token.integer 1 :: Token.operator .eq :: ·) (hlast '0' rest hrest)
      · exact congrArg (fun r => Reader.step M r (.integer 0)) (hpush more)
    | true =>
      refine passes_sql [.integer 1, .operator .eq, .integer 1] ?_ fun more => ?_
      · exact fun rest hrest =>
          congrArg (Token.integer 1 :: Token.operator .eq :: ·) (hlast '1' rest hrest)
      · exact congrArg (fun r => Reader.step M r (.integer 1)) (hpush more)
  · intro q hq
    rw [reduce_binary hq]

/-- A stack on which an operand in a chain of one operator is read. -/
def OnChain (op : BinaryOp) (fs : List (Frame α)) : Prop :=
  Settled (infixLevel op) fs ∨ ∃ x fs', fs = .binary x op :: fs' ∧ Settled (infixLevel op) fs'

/-- The rest of a chain, behind an operator. -/
theorem passes_chain {β : Type} (emission : β → Emission) (mean : β → α) {op : BinaryOp}
    (hop : op ≠ .concat) {items : List β} (hne : items ≠ [])
    (hitems : ∀ x ∈ items, ∃ ps, (emission x).outcome = .ok ps ∧
      ReadsAs M style (OnChain op) ps (infixLevel op) (mean x)) :
    ∃ ps, (Emission.join (" " ++ op.text ++ " ") (items.map emission)).outcome = .ok ps ∧
      ∀ v fs, Settled (infixLevel op) fs → ∃ fs' t,
        Passes M style endsOperand ps (.binary v op :: fs) .operand fs' (.operator t) ∧
        ∀ q ≤ infixLevel op, reduce M q fs' t
          = reduce M q fs (items.foldl (fun w x => M.binary w op (mean x)) v) := by
  induction items with
  | nil => exact absurd rfl hne
  | cons x xs ih =>
    obtain ⟨ps, hps, hread⟩ := hitems x List.mem_cons_self
    cases xs with
    | nil =>
      refine ⟨ps, hps, fun v fs hfs => ?_⟩
      obtain ⟨fs', t, hpass, hreduce⟩ := hread _ (.inr ⟨v, fs, rfl, hfs⟩)
      refine ⟨fs', t, hpass, fun q hq => ?_⟩
      rw [hreduce q hq, reduce_binary hq]
      rfl
    | cons y ys =>
      obtain ⟨qs, hqs, hpasses⟩ := ih (List.cons_ne_nil y ys)
        fun z hz => hitems z (List.mem_cons_of_mem x hz)
      refine ⟨ps ++ ([.sql (" " ++ op.text ++ " ")] ++ qs), ?_, fun v fs hfs => ?_⟩
      · exact Emission.outcome_append_of_ok hps
          (Emission.outcome_append_of_ok (Emission.outcome_sql _) hqs)
      · obtain ⟨fs₁, t₁, hpass₁, hreduce₁⟩ := hread _ (.inr ⟨v, fs, rfl, hfs⟩)
        -- The next operator closes the one that waits, so the values add up from the left.
        have hclose : reduce M (infixLevel op) fs₁ t₁ = (fs, M.binary v op (mean x)) := by
          rw [hreduce₁ _ (Nat.le_refl _), reduce_binary (Nat.le_refl _), reduce_of_settled hfs]
        obtain ⟨fs₂, t₂, hpass₂, hreduce₂⟩ := hpasses (M.binary v op (mean x)) fs hfs
        refine ⟨fs₂, t₂, ?_, hreduce₂⟩
        exact hpass₁.append_sql ((passes_op hop hclose hfs).append hpass₂ fun _ _ _ => rfl)
          (endsOperand_op hop)

/-- Operands with one operator between them are grouped to the left. -/
theorem readsAs_chain {β : Type} (emission : β → Emission) (mean : β → α) {op : BinaryOp}
    (hop : op ≠ .concat) (x : β) (xs : List β)
    (hitems : ∀ y ∈ x :: xs, ∃ ps, (emission y).outcome = .ok ps ∧
      ReadsAs M style (OnChain op) ps (infixLevel op) (mean y)) :
    ∃ ps, (Emission.join (" " ++ op.text ++ " ") ((x :: xs).map emission)).outcome = .ok ps ∧
      ReadsAs M style (Settled (infixLevel op)) ps (infixLevel op)
        (xs.foldl (fun v y => M.binary v op (mean y)) (mean x)) := by
  obtain ⟨ps, hps, hread⟩ := hitems x List.mem_cons_self
  -- One operand alone is read as it is, without an operator that waits.
  cases xs with
  | nil => exact ⟨ps, hps, hread.mono (fun _ => .inl) (Nat.le_refl _)⟩
  | cons y ys =>
    obtain ⟨qs, hqs, hpasses⟩ := passes_chain emission mean hop (List.cons_ne_nil y ys)
      fun z hz => hitems z (List.mem_cons_of_mem x hz)
    refine ⟨ps ++ ([.sql (" " ++ op.text ++ " ")] ++ qs), ?_, fun fs hfs => ?_⟩
    · exact Emission.outcome_append_of_ok hps
        (Emission.outcome_append_of_ok (Emission.outcome_sql _) hqs)
    · obtain ⟨fs₁, t₁, hpass₁, hreduce₁⟩ := hread fs (.inl hfs)
      have hclose : reduce M (infixLevel op) fs₁ t₁ = (fs, mean x) :=
        (hreduce₁ _ (Nat.le_refl _)).trans (reduce_of_settled hfs _)
      obtain ⟨fs₂, t₂, hpass₂, hreduce₂⟩ := hpasses (mean x) fs hfs
      refine ⟨fs₂, t₂, ?_, hreduce₂⟩
      exact hpass₁.append_sql ((passes_op hop hclose hfs).append hpass₂ fun _ _ _ => rfl)
        (endsOperand_op hop)

/-- What reading a whole text gives. -/
theorem read_of_readsAs {F : List (Frame α) → Prop} {ps : List Piece} {p : Nat} {v : α}
    (h : ReadsAs M style F ps p v) (hF : F []) (position : Nat) :
    read M style (Piece.renderFrom style position ps) (Piece.params style position ps)
      = some v := by
  obtain ⟨fs, t, hpass, hreduce⟩ := h [] hF
  have hrun := hpass position [] [] rfl
  rw [List.append_nil, List.append_nil] at hrun
  rw [read, hrun]
  exact Reader.finish_of_reduce (hreduce 0 (Nat.zero_le p))

end SqlCompiler.Reading
