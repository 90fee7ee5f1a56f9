import SqlCompiler.Proofs.Agreement.Emission

/-!
# Properties of the pieces of one emission

A property of lists of pieces that holds of each single piece, as far as its parentheses allow, and
is kept when lists are put one after the other is a `PieceLaw`. It is a law of the grammar for one
tree alone (`PieceLaw.grammarLaw`), so it holds of the pieces of every expression, query and
statement.
-/

namespace SqlCompiler

section Floats

/-- The digits around a point are those that are given, and zeros to fill up. -/
theorem mem_positional {digits : List Char} {leading : Int} {c : Char}
    (h : c ∈ (Layout.positional digits leading).1 ∨ c ∈ (Layout.positional digits leading).2) :
    c = '0' ∨ c ∈ digits := by
  have hpadded : ∀ n, c ∈ digits ++ List.replicate n '0' → c = '0' ∨ c ∈ digits :=
    fun n hc => (List.mem_append.mp hc).elim .inr fun hzero => .inl (List.eq_of_mem_replicate hzero)
  unfold Layout.positional at h
  -- A number below one has zeros between its point and its digits.
  split at h
  · obtain h | h := h
    · exact .inl (List.mem_singleton.mp h)
    · exact (List.mem_append.mp h).imp_left List.eq_of_mem_replicate
  · obtain h | h := h
    · exact hpadded _ (List.mem_of_mem_take h)
    · -- A number without a fraction has a zero after its point.
      replace h : c ∈ (ite _ _ _ : List Char) := h
      split at h
      · exact .inl (List.mem_singleton.mp h)
      · exact hpadded _ (List.mem_of_mem_drop h)

/-- A numeral is written in the characters of its parts. -/
theorem numeric_chars {n : Numeral} (hwhole : ∀ c ∈ n.whole, isNumeric c = true)
    (hfraction : ∀ c ∈ n.fraction, isNumeric c = true)
    (hexponent : ∀ e ∈ n.exponent, ∀ c ∈ e.digits, isNumeric c = true) :
    ∀ c ∈ n.chars, isNumeric c = true := by
  intro c hc
  rw [Numeral.chars, List.mem_append, List.mem_append, List.mem_append] at hc
  -- The character is in the sign, before the point, after it or in the exponent.
  obtain ((hsign | hc) | hc) | hc := hc
  · split at hsign
    · rw [List.mem_singleton.mp hsign]
      rfl
    · cases hsign
  · exact hwhole c hc
  · split at hc
    · cases hc
    · obtain rfl | hc := List.mem_cons.mp hc
      · rfl
      · exact hfraction c hc
  · cases he : n.exponent with
    | none =>
      rw [he] at hc
      cases hc
    | some e =>
      rw [he] at hc
      obtain rfl | hc := List.mem_cons.mp hc
      · rfl
      · obtain hc | hc := List.mem_append.mp hc
        · have hsign : (Numeral.signText e.sign).all isNumeric = true := by
            cases e.sign <;> rfl
          exact List.all_eq_true.mp hsign c hc
        · exact hexponent e he c hc

/-- A finite float is written as its numeral. -/
theorem toList_float (l : Layout) {x : Binary64} (h : x.isFinite = true) :
    (l.text x).toList = (l.numeral x).chars := by
  have hnan : x.isNaN = false := by
    rw [Binary64.isFinite, bne_iff_ne] at h
    rw [Binary64.isNaN, beq_eq_false_iff_ne.mpr h, Bool.false_and]
  rw [Layout.text, hnan, if_neg Bool.false_ne_true, if_pos h, Numeral.text, String.toList_ofList]

/-- A finite float is written as a number. -/
theorem numeric_float (l : Layout) {x : Binary64} (h : x.isFinite = true) :
    ∀ c ∈ (l.text x).toList, isNumeric c = true := by
  rw [toList_float l h]
  have hdigits := numeric_toDigits (x.shortest l.tie).digits
  unfold Layout.numeral
  show ∀ c ∈ Numeral.chars (ite _ _ _), _
  -- The layout decides between digits around a point and an exponent.
  split
  · have hdigit : ∀ c, c = '0' ∨ c ∈ Nat.toDigits 10 (x.shortest l.tie).digits →
        isNumeric c = true := by
      rintro c (rfl | hc)
      · rfl
      · exact hdigits c hc
    exact numeric_chars (fun c hc => hdigit c (mem_positional (.inl hc)))
      (fun c hc => hdigit c (mem_positional (.inr hc))) fun e he => by cases he
  · refine numeric_chars (fun c hc => hdigits c (List.mem_of_mem_take hc))
      (fun c hc => hdigits c (List.mem_of_mem_drop hc)) fun e he => ?_
    obtain rfl := Option.mem_some_iff.mp he
    exact numeric_toDigits _

end Floats

/-- A property of lists of pieces that begin inside `i` parentheses and end inside `j`, which holds
of every piece and of lists put one after the other. Parameters are pieces only where they are not
written as literals. -/
structure PieceLaw (style : ParamStyle) (P : Nat → Nat → List Piece → Prop) : Prop where
  nil : P 0 0 []
  sql : ∀ text i j, Fits text i j → P i j [.sql text]
  verbatim : ∀ text, P 0 0 [.verbatim text]
  ident : ∀ name, P 0 0 [.ident name]
  string : ∀ content, P 0 0 [.string content]
  param : style ≠ .inline → ∀ name value, P 0 0 [.param name value]
  append : ∀ {i j k ps qs}, P i j ps → P j k qs → P i k (ps ++ qs)
  lift : ∀ {i j ps}, P i j ps → P (i + 1) (j + 1) ps

/-- The pieces of the first emission have the property, if it yields any. -/
def Yields (P : Nat → Nat → List Piece → Prop) (i j : Nat) (a _ : Emission) : Prop :=
  ∀ ps, a.outcome = .ok ps → P i j ps

namespace PieceLaw

variable {s : Settings} {P : Nat → Nat → List Piece → Prop}

/-- An emission whose pieces are known yields a property that they have. -/
theorem yields_of_outcome {i j : Nat} {a b : Emission} {ps : List Piece}
    (h : a.outcome = .ok ps) (hps : P i j ps) : Yields P i j a b := by
  intro qs hqs
  rw [h] at hqs
  obtain rfl := Except.ok.inj hqs
  exact hps

/-- An emission that fails yields every property. -/
theorem yields_fail (i j : Nat) (f : Fault) (b : Emission) : Yields P i j (.fail f) b := by
  intro ps hps
  cases hps

/-- What is yielded by two emissions is yielded by one after the other. -/
theorem yields_append (law : PieceLaw s.paramStyle P) {i j k : Nat} {a a' b b' : Emission}
    (ha : Yields P i j a a') (hb : Yields P j k b b') : Yields P i k (a ++ b) (a' ++ b') := by
  intro ps hps
  obtain ⟨pa, pb, hpa, hpb, rfl⟩ := Emission.outcome_append_ok hps
  exact law.append (ha pa hpa) (hb pb hpb)

/-- A literal yields the property, in whatever way the target writes it. -/
theorem yields_literal (law : PieceLaw s.paramStyle P) (l : Literal) (b : Emission) :
    Yields P 0 0 (l.emit s) b := by
  cases l with
  | null => exact yields_of_outcome rfl (law.sql _ 0 0 (by decide))
  | boolean x =>
    refine yields_of_outcome rfl (law.sql _ 0 0 ?_)
    cases s.emulateBooleans <;> cases x <;> decide
  | integer n =>
    exact yields_of_outcome rfl (law.sql _ 0 0 (fits_of_numeric (numeric_toString _) 0))
  | float x =>
    rw [Literal.emit]
    -- A float that is not finite is refused.
    split
    · next h =>
      exact yields_of_outcome rfl (law.sql _ 0 0 (fits_of_numeric (numeric_float _ h) 0))
    · exact yields_fail _ _ _ _
  | string content => exact yields_of_outcome rfl (law.string content)

/-- A parameter yields the property, as a placeholder or as its literal. -/
theorem yields_param (law : PieceLaw s.paramStyle P) (name : String) (value : Option Literal)
    (b : Emission) : Yields P 0 0 (emitParam s name value) b := by
  unfold emitParam
  -- Inline a parameter is its literal, and is refused without a value.
  split
  · cases value with
    | none => exact yields_fail _ _ _ _
    | some l => exact law.yields_literal l b
  · next h => exact yields_of_outcome rfl (law.param h name value)

/-- What is made of a query after an ordering by aliases has the property. -/
theorem yields_aliased (law : PieceLaw s.paramStyle P) {q q' : QueryParts} {p : Probe}
    {f f' : QueryParts → Emission} {b : Emission} (hq : q.Agree Eq (Yields P) q')
    (hf : ∀ t t', t.Agree Eq (Yields P) t' → Yields P 1 1 (f t) (f' t')) :
    Yields P 1 1 ((q.orderedByAlias p).bind f) b := by
  intro ps hbind
  obtain ⟨t, ht, hps⟩ := Traced.outcome_bind_ok hbind
  -- The query has its own terms, or aliases that are written as they are.
  obtain rfl | ⟨terms, rfl⟩ := QueryParts.orderedByAlias_cases ht
  · exact hf t q' hq ps hps
  · have haliases : List.Forall₂ (Yields P 0 0) (terms.mapIdx aliasOrder)
        (terms.mapIdx aliasOrder) := by
      refine List.forall₂_same.mpr fun e he => ?_
      obtain ⟨i, hi, rfl⟩ := List.mem_mapIdx.mp he
      exact yields_of_outcome rfl (law.verbatim _)
    exact hf { q with orders := terms.mapIdx aliasOrder }
      { q' with orders := terms.mapIdx aliasOrder } { hq with orders := haliases } ps hps

/-- A property of pieces is a law of the grammar. -/
theorem grammarLaw (law : PieceLaw s.paramStyle P) : GrammarLaw Eq s s (Yields P) where
  dialect := rfl
  capabilities := rfl
  inline_iff := Iff.rfl
  strength := by
    rintro l _ rfl
    rfl
  eq_of_oracle _ _ _ h := h
  empty := yields_of_outcome rfl law.nil
  note _ := yields_of_outcome rfl law.nil
  sql text i j h := yields_of_outcome rfl (law.sql text i j h)
  verbatim text := yields_of_outcome rfl (law.verbatim text)
  ident name := yields_of_outcome rfl (law.ident name)
  literal l _ _ := law.yields_literal l _
  param name v _ _ := law.yields_param name v _
  fail i j f := yields_fail i j f _
  failNotLiteral i j e _ _ := yields_fail i j (.valueNotLiteral e) _
  append := law.yields_append
  lift h ps hps := law.lift (h ps hps)
  aliased _ _ _ _ _ _ _ hq _ hf := law.yields_aliased hq hf

/-- The pieces of each expression of a list have the property outside parentheses. -/
theorem each (law : PieceLaw s.paramStyle P) (es : List Expr) :
    ∀ x ∈ emitEach s es, Yields P 0 0 x x :=
  List.forall₂_same.mp
    (emitEach_agree law.grammarLaw es es (agree_self_each (fun _ => rfl) es))

/-- The pieces of a statement have the property inside parentheses. -/
theorem statement (law : PieceLaw s.paramStyle P) {st : Statement} {ps : List Piece}
    (h : (st.emit s).outcome = .ok ps) : P 1 1 ps :=
  Statement.emit_agree law.grammarLaw (st.agree_self fun _ => rfl) ps h

end PieceLaw

end SqlCompiler
