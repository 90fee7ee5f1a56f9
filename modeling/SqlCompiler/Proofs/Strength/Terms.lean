import Mathlib
import SqlCompiler.Proofs.Strength.Reader

/-!
# Reading terms

Names, strings, numbers and placeholders are read as operands without operators, except for the sign
of a negative number. A name that is written bare is no reserved word, and the sign of an exponent
is no operator.
-/

namespace SqlCompiler

namespace Strength

/-! ## Words -/

/-- A character of bare names, of numbers without their signs and points, and of placeholders. -/
def isTermChar (c : Char) : Bool :=
  c.isAlphanum || c == '_' || c == '$' || c == ':' || c == '?'

/-- No character of a term is blank. -/
theorem isBlank_of_isTermChar {c : Char} (h : isTermChar c = true) : Text.isBlank c = false := by
  have hrange : 33 ≤ c.toNat ∧ c.toNat ≤ 126 := by
    simp only [isTermChar, Char.isAlphanum, Char.isAlpha, Char.isUpper, Char.isLower, Char.isDigit,
      Bool.or_eq_true, Bool.and_eq_true, decide_eq_true_eq, beq_iff_eq, ge_iff_le,
      UInt32.le_iff_toNat_le] at h
    -- Letters, digits and four signs, all within printable ASCII.
    obtain (((((h | h) | h) | rfl) | rfl) | rfl) | rfl := h
    · exact ⟨h.1.trans' (by decide), h.2.trans (by decide)⟩
    · exact ⟨h.1.trans' (by decide), h.2.trans (by decide)⟩
    · exact ⟨h.1.trans' (by decide), h.2.trans (by decide)⟩
    all_goals decide
  refine Bool.eq_false_iff.mpr fun hblank => ?_
  simp only [Text.isBlank, Text.inRanges, Text.blankRanges, List.any_cons, List.any_nil,
    Bool.or_eq_true, Bool.and_eq_true, decide_eq_true_eq, Bool.false_eq_true, or_false] at hblank
  omega

/-- The characters of a term stand in words and are visible. -/
theorem isWordChar_of_isTermChar {c : Char} (h : isTermChar c = true) :
    isWordChar c = true ∧ isPlain c = true := by
  have hne : ∀ d ∈ ['=', '<', '>', '|', ',', '.', '+', '-', '*', '/', '%', '\'', '"', '(', ')'],
      c ≠ d := by
    have hall : ['=', '<', '>', '|', ',', '.', '+', '-', '*', '/', '%', '\'', '"', '(', ')'].all
      (fun d => !isTermChar d) = true := by decide
    rintro d hd rfl
    simpa [h] using List.all_eq_true.mp hall c hd
  simp only [List.forall_mem_cons] at hne
  simp [isWordChar, isRelational, isSingle, isPlain, hne, isBlank_of_isTermChar h]

/-- A word that is not reserved is an operand. -/
theorem passes_word {cs : List Char} (hne : cs ≠ []) (h : ∀ c ∈ cs, isTermChar c = true)
    (hatom : wordLexeme cs = .atom) (m : Mode) : Passes ⟨0, m⟩ .done [] cs := by
  obtain ⟨hplace, hmarks⟩ := visible_of_plain fun c hc => (isWordChar_of_isTermChar (h c hc)).2
  refine ⟨hplace, fun cases found => ?_⟩
  rw [hmarks, lexemes_word hne fun c hc => (isWordChar_of_isTermChar (h c hc)).1, hatom]
  simp [Reader.step, Lexeme.read]

/-- What is no letter has no lower case of its own. -/
theorem toLower_of_isAlpha_eq_false {c : Char} (h : c.isAlpha = false) : c.toLower = c := by
  simp only [Char.isAlpha, Char.isUpper, Bool.or_eq_false_iff, decide_eq_false_iff_not] at h
  rw [Char.toLower, dif_neg h.1]

/-- A reserved word begins with a letter. -/
theorem find?_reservedWords {c : Char} (h : c.isAlpha = false) (cs : List Char) :
    reservedWords.find? (fun w => w.1.toList == (c :: cs).map Char.toLower) = none := by
  have hwords : reservedWords.all (fun w => w.1.toList.head?.any Char.isAlpha) = true := by decide
  refine List.find?_eq_none.mpr fun w hw heq => ?_
  have hfirst := List.all_eq_true.mp hwords w hw
  rw [eq_of_beq heq, List.map_cons, toLower_of_isAlpha_eq_false h] at hfirst
  simp [h] at hfirst

/-- A digit is no letter. -/
theorem isAlpha_of_isDigit {c : Char} (h : c.isDigit = true) : c.isAlpha = false := by
  have hdigit : 48 ≤ c.toNat ∧ c.toNat ≤ 57 := by
    simpa [Char.isDigit, UInt32.le_iff_toNat_le] using h
  have hrange : ¬(65 ≤ c.toNat ∧ c.toNat ≤ 90) ∧ ¬(97 ≤ c.toNat ∧ c.toNat ≤ 122) := by omega
  simpa [Char.isAlpha, Char.isUpper, Char.isLower, UInt32.le_iff_toNat_le] using hrange

/-- A word that begins with a digit is a number, whole unless it ends in a letter. -/
theorem wordLexeme_of_isDigit {c : Char} (hc : c.isDigit = true) (cs : List Char) :
    wordLexeme (c :: cs)
      = if (c :: cs).getLast?.any (fun d => d.toLower == 'e') then .mantissa else .atom := by
  rw [wordLexeme, find?_reservedWords (isAlpha_of_isDigit hc)]
  simp [isMantissa, hc]

/-- A digit stands in terms. -/
theorem isTermChar_of_isDigit {c : Char} (h : c.isDigit = true) : isTermChar c = true := by
  simp [isTermChar, Char.isAlphanum, h]

/-- A digit is not the sign of an exponent. -/
theorem toLower_of_isDigit {c : Char} (h : c.isDigit = true) : (c.toLower == 'e') = false := by
  have halpha := isAlpha_of_isDigit h
  rw [toLower_of_isAlpha_eq_false halpha, beq_eq_false_iff_ne]
  rintro rfl
  cases halpha

/-! ## Names, strings and placeholders -/

/-- A text of which nothing is seen is an operand. -/
theorem passes_of_hidden {cs : List Char} {n : Nat} (hplace : (Place.inside 0).after cs = .inside 0)
    (hmarks : marks (.inside 0) cs = List.replicate (n + 1) none) (m : Mode) :
    Passes ⟨0, m⟩ .done [] cs := by
  refine ⟨hplace, fun cases found => ?_⟩
  rw [hmarks, lexemes_replicate, List.replicate_succ, List.foldl_cons]
  simpa [Reader.step, Lexeme.read] using foldl_step_atoms cases found n

/-- A text with its quotes doubled stays hidden up to the closing quote. -/
theorem hidden_of_double {quote : Char} {z : Zone} (h : Encloses quote z) (cs : List Char) :
    Place.after ⟨z, 0⟩ (Text.double quote cs ++ [quote]) = .inside 0 ∧
      ∃ n, marks ⟨z, 0⟩ (Text.double quote cs ++ [quote]) = List.replicate n none := by
  have hz : (⟨z, 0⟩ : Place) ≠ .inside 0 := by cases h <;> decide
  have hclose : Place.next ⟨z, 0⟩ quote = .inside 0 := by cases h <;> decide
  have hopen : (Place.inside 0).next quote = ⟨z, 0⟩ := by cases h <;> decide
  have hquote : (Place.inside 0).mark quote = none := by cases h <;> decide
  induction cs with
  | nil => exact ⟨hclose, 1, by rw [Text.double, List.nil_append, marks, mark_of_hidden hz]; rfl⟩
  | cons c cs ih =>
    obtain ⟨hplace, n, hmarks⟩ := ih
    rw [Text.double]
    split
    · -- Between two quotes nothing stands, so the zone is left for no character.
      refine ⟨?_, n + 2, ?_⟩
      · rw [List.cons_append, List.cons_append, Place.after_cons, Place.after_cons, hclose, hopen,
          hplace]
      · rw [List.cons_append, List.cons_append, marks, marks, hclose, hopen, hmarks,
          mark_of_hidden hz, hquote]
        rfl
    · next hc =>
      have hnext : Place.next ⟨z, 0⟩ c = ⟨z, 0⟩ := by
        cases h <;> simp [Place.next, Zone.next, hc]
      refine ⟨?_, n + 1, ?_⟩
      · rw [List.cons_append, Place.after_cons, hnext, hplace]
      · rw [List.cons_append, marks, hnext, hmarks, mark_of_hidden hz]
        rfl

/-- Quoted text is an operand. -/
theorem passes_doubled {quote : Char} {z : Zone} (h : Encloses quote z) (text : String) (m : Mode) :
    Passes ⟨0, m⟩ .done [] (Text.doubled quote text).toList := by
  have hopen : (Place.inside 0).next quote = ⟨z, 0⟩ := by cases h <;> decide
  have hquote : (Place.inside 0).mark quote = none := by cases h <;> decide
  obtain ⟨hplace, n, hmarks⟩ := hidden_of_double h text.toList
  rw [Text.doubled, String.toList_ofList]
  refine passes_of_hidden (n := n) ?_ ?_ m
  · rw [Place.after_cons, hopen, hplace]
  · rw [marks, hopen, hquote, hmarks]
    rfl

/-- The characters of bare names are in lower case and stand in terms. -/
theorem toLower_of_continuesBare {c : Char} (h : Identifier.continuesBare c = true) :
    c.toLower = c ∧ isTermChar c = true := by
  simp only [Identifier.continuesBare, Identifier.startsBare, Bool.or_eq_true, Bool.and_eq_true,
    decide_eq_true_eq, beq_iff_eq, Char.le_def] at h
  -- A lower-case letter, one of two signs, or a digit.
  obtain ((⟨hlow, hhigh⟩ | rfl) | rfl) | ⟨hlow, hhigh⟩ := h
  · have hlower : c.isLower = true := by
      simpa [Char.isLower] using And.intro hlow hhigh
    refine ⟨?_, by simp [isTermChar, Char.isAlphanum, Char.isAlpha, hlower]⟩
    have hupper : ¬(c.val ≥ 'A'.val ∧ c.val ≤ 'Z'.val) := by
      rintro ⟨-, hZ⟩
      exact absurd (UInt32.le_trans hlow hZ) (by decide)
    rw [Char.toLower, dif_neg hupper]
  · decide
  · decide
  · have hdigit : c.isDigit = true := by simpa [Char.isDigit] using And.intro hlow hhigh
    exact ⟨toLower_of_isAlpha_eq_false (isAlpha_of_isDigit hdigit), isTermChar_of_isDigit hdigit⟩

/-- A bare name begins with no digit. -/
theorem isDigit_of_startsBare {c : Char} (h : Identifier.startsBare c = true) :
    c.isDigit = false := by
  simp only [Identifier.startsBare, Bool.or_eq_true, Bool.and_eq_true, decide_eq_true_eq,
    beq_iff_eq, Char.le_def] at h
  obtain (⟨hlow, -⟩ | rfl) | rfl := h
  · refine Bool.eq_false_iff.mpr fun hdigit => ?_
    have hhigh : c.val ≤ '9'.val := by
      simpa [Char.isDigit] using (Bool.and_eq_true_iff.mp hdigit).2
    exact absurd (UInt32.le_trans hlow hhigh) (by decide)
  · rfl
  · rfl

/-- A word that is written bare is no reserved one. -/
theorem wordLexeme_of_isBare {name : String} (h : Identifier.isBare name = true) :
    wordLexeme name.toList = .atom := by
  have hlower : name.toList.map Char.toLower = name.toList := by
    refine List.map_congr_left (g := id) (fun c hc => ?_) |>.trans (List.map_id _)
    exact (toLower_of_continuesBare (Identifier.continuesBare_of_isBare h c hc)).1
  -- All words that the reader knows are reserved, so no bare name is one.
  have hwords : reservedWords.all (fun w => keywords.contains w.1) = true := by decide
  rw [Identifier.isBare, Bool.and_eq_true, Bool.not_eq_true'] at h
  have hnone :
      reservedWords.find? (fun w => w.1.toList == name.toList.map Char.toLower) = none := by
    refine List.find?_eq_none.mpr fun w hw heq => ?_
    have hkeyword := List.all_eq_true.mp hwords w hw
    rw [hlower, beq_iff_eq, String.toList_inj] at heq
    rw [heq, h.2] at hkeyword
    cases hkeyword
  have hfirst : name.toList.head?.any Char.isDigit = false := by
    have hplain := h.1
    unfold Identifier.isPlain at hplain
    cases hcs : name.toList with
    | nil => rfl
    | cons c cs =>
      rw [hcs] at hplain
      obtain ⟨hstart, -⟩ := Bool.and_eq_true_iff.mp hplain
      exact isDigit_of_startsBare hstart
  rw [wordLexeme, hnone]
  simp [isMantissa, hfirst]

/-- An identifier is an operand. -/
theorem passes_identifier (name : String) (m : Mode) :
    Passes ⟨0, m⟩ .done [] (Identifier.text name).toList := by
  unfold Identifier.text
  split
  · next hbare =>
    refine passes_word ?_ (fun c hc => ?_) (wordLexeme_of_isBare hbare) m
    · intro hnil
      simp [Identifier.isBare, Identifier.isPlain, hnil] at hbare
    · exact (toLower_of_continuesBare (Identifier.continuesBare_of_isBare hbare c hc)).2
  · exact passes_doubled .name name m

/-- A placeholder is an operand. -/
theorem passes_marker (style : ParamStyle) (position : Nat) (m : Mode) :
    Passes ⟨0, m⟩ .done [] (style.marker position).toList := by
  have hnumbered : ∀ (c : Char) (cs : List Char), c.isAlpha = false → c.isDigit = false →
      (c :: cs).all isTermChar = true →
      Passes ⟨0, m⟩ .done [] (c :: cs ++ (toString position).toList) := by
    intro c cs halpha hdigit hcs
    refine passes_word (by simp) ?_ ?_ m
    · rw [Nat.toString_eq_repr, Nat.toList_repr]
      exact List.forall_mem_append.mpr ⟨List.all_eq_true.mp hcs, fun d hd =>
        isTermChar_of_isDigit (isDigit_toDigits position d hd)⟩
    · rw [List.cons_append, wordLexeme, find?_reservedWords halpha]
      simp [isMantissa, hdigit]
  have hmark : Passes ⟨0, m⟩ .done [] "?".toList :=
    passes_word (by decide) (List.all_eq_true.mp (by decide)) (by decide) m
  cases style with
  | inline | questionMark => exact hmark
  | colon => simpa [ParamStyle.marker] using hnumbered ':' ['a'] (by decide) (by decide) (by decide)
  | dollar => simpa [ParamStyle.marker] using hnumbered '$' [] (by decide) (by decide) (by decide)

/-! ## Numbers -/

/-- The sign of a number, if it is negative. -/
def signs (negative : Bool) : List Operator :=
  if negative then [.sign] else []

/-- A word from a digit to a digit is an operand. -/
theorem passes_number {cs : List Char} (hfirst : cs.head?.any Char.isDigit = true)
    (h : ∀ c ∈ cs, isTermChar c = true) (hlast : cs.getLast?.any Char.isDigit = true) (m : Mode) :
    Passes ⟨0, m⟩ .done [] cs := by
  cases cs with
  | nil => cases hfirst
  | cons c cs =>
    refine passes_word (List.cons_ne_nil c cs) h ?_ m
    have hend : (c :: cs).getLast?.any (fun d => d.toLower == 'e') = false := by
      rw [List.getLast?_eq_some_getLast (List.cons_ne_nil c cs)] at hlast ⊢
      exact toLower_of_isDigit hlast
    rw [wordLexeme_of_isDigit hfirst, hend, if_neg Bool.false_ne_true]

/-- Digits begin and end with a digit. -/
theorem any_of_forall_mem {ds : List Char} (hne : ds ≠ []) (h : ∀ c ∈ ds, c.isDigit = true) :
    ds.head?.any Char.isDigit = true ∧ ds.getLast?.any Char.isDigit = true := by
  rw [List.head?_eq_some_head hne, List.getLast?_eq_some_getLast hne]
  exact ⟨h _ (List.head_mem hne), h _ (List.getLast_mem hne)⟩

/-- Digits are an operand without operators. -/
theorem passes_digits {ds : List Char} (hne : ds ≠ []) (h : ∀ c ∈ ds, c.isDigit = true)
    (m : Mode) : Passes ⟨0, m⟩ .done [] ds :=
  passes_number (any_of_forall_mem hne h).1 (fun c hc => isTermChar_of_isDigit (h c hc))
    (any_of_forall_mem hne h).2 m

/-- Behind digits and the letter of an exponent, its sign is due. -/
theorem passes_mantissa {ds : List Char} (hne : ds ≠ []) (h : ∀ c ∈ ds, c.isDigit = true) :
    Passes .due ⟨0, .exponent⟩ [] (ds ++ ['e']) := by
  have hterm : ∀ c ∈ ds ++ ['e'], isTermChar c = true :=
    List.forall_mem_append.mpr ⟨fun c hc => isTermChar_of_isDigit (h c hc),
      List.forall_mem_singleton.mpr (by decide)⟩
  obtain ⟨hplace, hmarks⟩ := visible_of_plain fun c hc => (isWordChar_of_isTermChar (hterm c hc)).2
  refine ⟨hplace, fun cases found => ?_⟩
  obtain ⟨d, ds, rfl⟩ := List.exists_cons_of_ne_nil hne
  rw [hmarks, lexemes_word (by simp) fun c hc => (isWordChar_of_isTermChar (hterm c hc)).1,
    List.cons_append, wordLexeme_of_isDigit (h d List.mem_cons_self), ← List.cons_append,
    List.getLast?_concat]
  simp [Reader.step, Lexeme.read]

/-- The end of a numeral, from its last digits before the exponent on. -/
theorem passes_exponent {ds : List Char} (hne : ds ≠ []) (h : ∀ c ∈ ds, c.isDigit = true)
    {e : Exponent} (hdigits : ∀ c ∈ e.digits, c.isDigit = true) (hexp : e.digits ≠ []) :
    Passes .due .done [] (ds ++ 'e' :: (Numeral.signText e.sign ++ e.digits)) := by
  have hsigned : ∀ sign : Char, FixedText [sign] ⟨0, .exponent⟩ .due [] → EndsLoose 0 [sign] →
      StartsLoose 0 [sign] → Passes .due .done [] (ds ++ 'e' :: ([sign] ++ e.digits)) := by
    intro sign hsign hend hstart
    have hmantissa := (passes_mantissa hne h).append hsign.passes (.inr hstart)
    have hall := hmantissa.append (passes_digits hexp hdigits .operand)
      (.inl (endsLoose_append (passes_mantissa hne h) hend))
    simpa using hall
  -- A sign cuts the word in two, and stands where an exponent is due.
  cases hs : e.sign with
  | absent =>
    obtain ⟨d, ds, rfl⟩ := List.exists_cons_of_ne_nil hne
    have hfirst : (d :: ds ++ 'e' :: e.digits).head?.any Char.isDigit = true :=
      h d List.mem_cons_self
    have hlast : (d :: ds ++ 'e' :: e.digits).getLast?.any Char.isDigit = true := by
      rw [List.getLast?_append_of_ne_nil _ (List.cons_ne_nil _ _),
        List.getLast?_cons_of_ne_nil hexp]
      exact (any_of_forall_mem hexp hdigits).2
    refine passes_number hfirst (List.forall_mem_append.mpr ⟨fun c hc => ?_,
      List.forall_mem_cons.mpr ⟨by decide, fun c hc => ?_⟩⟩) hlast .operand
    · exact isTermChar_of_isDigit (h c hc)
    · exact isTermChar_of_isDigit (hdigits c hc)
  | plus => exact hsigned '+' (by decide) (by decide) (by decide)
  | minus => exact hsigned '-' (by decide) (by decide) (by decide)

/-- A sign, digits, and a point with more digits are an operand with what may follow digits. -/
theorem passes_signed {negative : Bool} {whole fraction rest : List Char} (hne : whole ≠ [])
    (hwhole : ∀ c ∈ whole, c.isDigit = true) (hfraction : ∀ c ∈ fraction, c.isDigit = true)
    (hrest : ∀ ds, ds ≠ [] → (∀ c ∈ ds, c.isDigit = true) → Passes .due .done [] (ds ++ rest)) :
    Passes .due .done (signs negative)
      ((if negative then ['-'] else []) ++ whole
        ++ (if fraction = [] then [] else '.' :: fraction) ++ rest) := by
  have hdigits : Passes .due .done []
      (whole ++ (if fraction = [] then [] else '.' :: fraction) ++ rest) := by
    split
    · simpa using hrest whole hne hwhole
    · next hfne =>
      have hpoint : FixedText ['.'] .done .due [] := by decide
      have hfront := (passes_digits hne hwhole .operand).append hpoint.passes (.inr (by decide))
      have hend : EndsLoose 0 (whole ++ ['.']) :=
        endsLoose_append (passes_digits hne hwhole .operand) (by decide)
      simpa using hfront.append (hrest fraction hfne hfraction) (.inl hend)
  -- Only the sign in front of the digits is an operator.
  cases negative with
  | false => simpa [signs] using hdigits
  | true =>
    have hminus : FixedText ['-'] .due .due [.sign] := by decide
    simpa [signs] using hminus.passes.append hdigits (.inl (by decide))

/-- A numeral is an operand behind its sign. -/
theorem passes_numeral {n : Numeral} (h : n.Spelled) :
    Passes .due .done (signs n.negative) n.chars := by
  cases he : n.exponent with
  | none =>
    rw [Numeral.chars, he]
    refine passes_signed h.whole_ne_nil h.whole h.fraction fun ds hne hds => ?_
    simpa using passes_digits hne hds .operand
  | some e =>
    obtain ⟨hdigits, hexp⟩ := h.exponent e he
    rw [Numeral.chars, he]
    exact passes_signed h.whole_ne_nil h.whole h.fraction fun ds hne hds =>
      passes_exponent hne hds hdigits hexp

/-- An integer is an operand behind its sign. -/
theorem passes_integer (z : Int) :
    Passes .due .done (signs (decide (z < 0))) (toString z).toList := by
  have hdigits : ∀ n : Nat, Passes .due .done [] (Nat.toDigits 10 n) := fun n =>
    passes_digits Nat.toDigits_ne_nil (isDigit_toDigits n) .operand
  cases z with
  | ofNat n =>
    rw [toList_ofNat, decide_eq_false (by simp)]
    exact hdigits n
  | negSucc n =>
    rw [toList_negSucc, decide_eq_true (Int.negSucc_lt_zero n)]
    have hminus : FixedText ['-'] .due .due [.sign] := by decide
    exact hminus.passes.append (hdigits (n + 1)) (.inl (by decide))

end Strength

end SqlCompiler
