import SqlCompiler.Proofs.Agreement.Pieces

/-!
# Where comments open

SQL text is read with its quotes: between single quotes stands a string, between double quotes an
identifier, and everywhere else two characters `--` or `/*` open a comment. A text that closes its
quotes and does not end in the first half of such a pair is `Closed`: whatever follows it, no
comment opens where they meet. Quoted text, numbers and placeholders are closed and open none.
-/

namespace SqlCompiler

/-- Where a character of SQL text stands. -/
inductive Zone where
  /-- Outside quotes. -/
  | code
  /-- Inside a string. -/
  | string
  /-- Inside a quoted identifier. -/
  | name
  deriving DecidableEq

namespace Zone

/-- The zone after one more character. A quote that is written twice leaves its zone and enters it
again. -/
def next : Zone → Char → Zone
  | .code, c => if c = '\'' then .string else if c = '"' then .name else .code
  | .string, c => if c = '\'' then .code else .string
  | .name, c => if c = '"' then .code else .name

/-- The zone after a text. -/
def after (z : Zone) (cs : List Char) : Zone :=
  cs.foldl next z

/-- No text leaves the zone as it is. -/
@[simp]
theorem after_nil (z : Zone) : z.after [] = z :=
  rfl

/-- A text is read one character at a time. -/
@[simp]
theorem after_cons (z : Zone) (c : Char) (cs : List Char) :
    z.after (c :: cs) = (z.next c).after cs :=
  rfl

/-- Of two texts, the second is read in the zone that the first leaves. -/
theorem after_append (z : Zone) (cs ds : List Char) :
    z.after (cs ++ ds) = (z.after cs).after ds :=
  List.foldl_append

end Zone

/-- Two characters open a comment together. -/
def opensWith (c d : Char) : Bool :=
  (c == '-' && d == '-') || (c == '/' && d == '*')

/-- A comment opens outside quotes, in a text that begins in a zone. -/
def opensComment : Zone → List Char → Bool
  | _, [] => false
  | z, c :: cs => (z == .code && cs.head?.any (opensWith c)) || opensComment (z.next c) cs

/-- A comment opens in one of two texts, unless one opens where they meet. -/
theorem opensComment_append {cs ds : List Char}
    (h : ∀ c ∈ cs.getLast?, ∀ d ∈ ds.head?, opensWith c d = false) (z : Zone) :
    opensComment z (cs ++ ds) = (opensComment z cs || opensComment (z.after cs) ds) := by
  induction cs generalizing z with
  | nil => rfl
  | cons c cs ih =>
    -- The last character of the first text is the one that meets the second.
    cases cs with
    | nil =>
      have hmeet : ds.head?.any (opensWith c) = false := by
        rw [Option.any_eq_false_iff_get]
        intro hsome
        have := h c rfl _ (Option.get_mem hsome)
        simpa using this
      simp [opensComment, hmeet]
    | cons c' cs =>
      have hrest := ih (fun x hx => h x (by simpa using hx)) (z.next c)
      calc opensComment z (c :: (c' :: cs ++ ds))
          = (z == .code && opensWith c c' || opensComment (z.next c) (c' :: cs ++ ds)) := rfl
        _ = _ := by
          rw [hrest, ← Bool.or_assoc]
          rfl

/-- A text closes the quotes that it opens, and no comment opens where it meets what follows. -/
structure Closed (cs : List Char) : Prop where
  zone : Zone.after .code cs = .code
  ending : ∀ c ∈ cs.getLast?, c ≠ '-' ∧ c ≠ '/'

namespace Closed

/-- Closed texts are closed one after the other. -/
theorem append {cs ds : List Char} (hc : Closed cs) (hd : Closed ds) : Closed (cs ++ ds) where
  zone := by rw [Zone.after_append, hc.zone, hd.zone]
  ending := by
    intro c h
    rw [List.getLast?_append, Option.mem_def, Option.or_eq_some_iff] at h
    obtain h | ⟨-, h⟩ := h
    · exact hd.ending c h
    · exact hc.ending c h

/-- After a closed text a comment opens only by itself. -/
theorem opensComment_append {cs : List Char} (hc : Closed cs) (ds : List Char) :
    opensComment .code (cs ++ ds) = (opensComment .code cs || opensComment .code ds) := by
  rw [SqlCompiler.opensComment_append, hc.zone]
  intro c h d _
  obtain ⟨hminus, hslash⟩ := hc.ending c h
  simp [opensWith, hminus, hslash]

end Closed

/-- A closed text in which no comment opens. -/
structure Tidy (cs : List Char) : Prop extends Closed cs where
  opens : opensComment .code cs = false

/-- The last character is tested, and not all characters that it could be. -/
theorem tidy_iff {cs : List Char} :
    (Zone.after .code cs = .code ∧ cs.getLast?.all (fun c => c != '-' && c != '/') = true) ∧
      opensComment .code cs = false ↔ Tidy cs := by
  have hending : cs.getLast?.all (fun c => c != '-' && c != '/') = true
      ↔ ∀ c ∈ cs.getLast?, c ≠ '-' ∧ c ≠ '/' := by
    cases cs.getLast? <;> simp
  rw [hending]
  exact ⟨fun h => ⟨⟨h.1.1, h.1.2⟩, h.2⟩, fun h => ⟨⟨h.zone, h.ending⟩, h.opens⟩⟩

instance (cs : List Char) : Decidable (Tidy cs) :=
  decidable_of_iff _ tidy_iff

/-- Tidy texts are tidy one after the other. -/
theorem Tidy.append {cs ds : List Char} (hc : Tidy cs) (hd : Tidy ds) : Tidy (cs ++ ds) where
  toClosed := hc.toClosed.append hd.toClosed
  opens := by rw [hc.opensComment_append, hc.opens, hd.opens, Bool.or_false]

/-! ## Texts without signs -/

/-- A character that is no quote and no first half of a comment sign. -/
def isInert (c : Char) : Bool :=
  c != '\'' && c != '"' && c != '-' && c != '/'

/-- A class of characters that holds no quote, minus or slash is inert. -/
theorem inert_of_class {p : Char → Bool} (hp : ['\'', '"', '-', '/'].all (fun d => !p d) = true)
    {c : Char} (h : p c = true) : isInert c = true := by
  have hne : ∀ d ∈ ['\'', '"', '-', '/'], c ≠ d := by
    rintro d hd rfl
    simpa [h] using List.all_eq_true.mp hp c hd
  simpa [isInert, and_assoc] using hne

/-- An inert character stays outside quotes. -/
theorem next_of_inert {c : Char} (h : isInert c = true) : Zone.next .code c = .code := by
  simp only [isInert, Bool.and_eq_true, bne_iff_ne] at h
  rw [Zone.next, if_neg h.1.1.1, if_neg h.1.1.2]

/-- An inert character is no first half of a comment sign. -/
theorem opensWith_of_inert {c : Char} (h : isInert c = true) (d : Char) :
    opensWith c d = false := by
  simp only [isInert, Bool.and_eq_true, bne_iff_ne] at h
  simp [opensWith, h]

/-- Behind an inert character a comment opens only by itself. -/
theorem opensComment_inert {c : Char} (h : isInert c = true) (cs : List Char) :
    opensComment .code (c :: cs) = opensComment .code cs := by
  have hnone : cs.head?.any (opensWith c) = false := by
    cases cs with
    | nil => rfl
    | cons d cs => exact opensWith_of_inert h d
  rw [opensComment, hnone, next_of_inert h, Bool.and_false, Bool.false_or]

/-- A text of inert characters is tidy. -/
theorem tidy_of_inert {cs : List Char} (h : ∀ c ∈ cs, isInert c = true) : Tidy cs := by
  refine ⟨⟨?_, ?_⟩, ?_⟩
  · induction cs with
    | nil => rfl
    | cons c cs ih =>
      rw [Zone.after_cons, next_of_inert (h c List.mem_cons_self)]
      exact ih fun d hd => h d (List.mem_cons_of_mem c hd)
  · intro c hc
    have hinert := h c (List.mem_of_getLast? hc)
    simp only [isInert, Bool.and_eq_true, bne_iff_ne] at hinert
    exact ⟨hinert.1.2, hinert.2⟩
  · induction cs with
    | nil => rfl
    | cons c cs ih =>
      rw [opensComment_inert (h c List.mem_cons_self)]
      exact ih fun d hd => h d (List.mem_cons_of_mem c hd)

/-- A minus before a text of inert characters leaves it tidy. -/
theorem tidy_minus {cs : List Char} (h : ∀ c ∈ cs, isInert c = true) (hne : cs ≠ []) :
    Tidy ('-' :: cs) := by
  obtain ⟨c, cs, rfl⟩ := List.exists_cons_of_ne_nil hne
  have htidy := tidy_of_inert h
  refine ⟨⟨htidy.zone, fun d hd => htidy.ending d (by simpa using hd)⟩, ?_⟩
  have hc : c ≠ '-' := by
    rintro rfl
    exact absurd (h _ List.mem_cons_self) (by decide)
  have hmeet : opensWith '-' c = false := by simp [opensWith, hc]
  show (opensWith '-' c || opensComment .code (c :: cs)) = false
  rw [hmeet, htidy.opens, Bool.or_false]

/-- A text is not empty, and begins with a minus exactly if `P`. -/
def Begun (P : Prop) (cs : List Char) : Prop :=
  cs ≠ [] ∧ (cs.head? = some '-' ↔ P)

instance (P : Prop) [Decidable P] (cs : List Char) : Decidable (Begun P cs) :=
  inferInstanceAs (Decidable (_ ∧ _))

/-- A text of inert characters does not begin with a minus. -/
theorem begun_of_inert {cs : List Char} (h : ∀ c ∈ cs, isInert c = true) (hne : cs ≠ []) :
    Begun False cs :=
  ⟨hne, iff_of_false (fun hhead => absurd (h _ (List.mem_of_head? hhead)) (by decide)) id⟩

/-! ## Quoted text -/

/-- A quote and the zone that it encloses. -/
inductive Encloses : Char → Zone → Prop where
  | string : Encloses '\'' .string
  | name : Encloses '"' .name

/-- Inside quotes no comment opens, also where a quote is written twice. -/
theorem quoted_inside {quote : Char} {z : Zone} (h : Encloses quote z) (cs : List Char) :
    z.after (Text.double quote cs ++ [quote]) = .code ∧
      opensComment z (Text.double quote cs ++ [quote]) = false := by
  induction cs with
  | nil => cases h <;> decide
  | cons c cs ih =>
    by_cases hc : c = quote
    · subst hc
      -- The first of two quotes leaves the zone and the second enters it again.
      rw [Text.double, if_pos rfl]
      cases h <;> simpa [Zone.next, opensComment, opensWith] using ih
    · rw [Text.double, if_neg hc]
      cases h <;> simpa [Zone.next, opensComment, hc] using ih

/-- Text between quotes is tidy. -/
theorem tidy_doubled {quote : Char} {z : Zone} (h : Encloses quote z) (s : String) :
    Tidy (Text.doubled quote s).toList := by
  obtain ⟨hzone, hopens⟩ := quoted_inside h s.toList
  rw [Text.doubled, String.toList_ofList]
  refine ⟨⟨?_, ?_⟩, ?_⟩
  · cases h <;> exact hzone
  · intro c hc
    rw [← List.cons_append, List.getLast?_concat, Option.mem_some_iff] at hc
    subst hc
    cases h <;> decide
  · cases h <;> simpa [opensComment, opensWith, Zone.next] using hopens

/-- The characters of an identifier that is written bare. -/
theorem Identifier.continuesBare_of_isBare {name : String} (h : isBare name = true) :
    ∀ c ∈ name.toList, continuesBare c = true := by
  intro c hc
  simp only [isBare, isPlain, Bool.and_eq_true] at h
  have hplain := h.1
  cases hcs : name.toList with
  | nil =>
    rw [hcs] at hc
    cases hc
  | cons d ds =>
    rw [hcs] at hplain hc
    simp only [Bool.and_eq_true, List.all_eq_true] at hplain
    -- Fewer characters may stand first than behind.
    obtain rfl | hc := List.mem_cons.mp hc
    · simp [continuesBare, hplain.1]
    · exact hplain.2 c hc

/-- An identifier is tidy, bare or in quotes. -/
theorem tidy_identifier (name : String) : Tidy (Identifier.text name).toList := by
  unfold Identifier.text
  split
  · next hbare =>
    exact tidy_of_inert fun c hc =>
      inert_of_class (by decide) (Identifier.continuesBare_of_isBare hbare c hc)
  · exact tidy_doubled .name name

/-! ## Numbers -/

/-- The digits of a number are digits. -/
theorem isDigit_toDigits (n : Nat) : ∀ c ∈ Nat.toDigits 10 n, c.isDigit = true :=
  fun _ hc => Nat.isDigit_of_mem_toDigits (by decide) (by decide) hc

/-- Digits are inert. -/
theorem inert_of_isDigit {cs : List Char} (h : ∀ c ∈ cs, c.isDigit = true) :
    ∀ c ∈ cs, isInert c = true :=
  fun c hc => inert_of_class (p := Char.isDigit) (by decide) (h c hc)

/-- The digits of a number are inert. -/
theorem inert_toDigits (n : Nat) : ∀ c ∈ Nat.toDigits 10 n, isInert c = true :=
  inert_of_isDigit (isDigit_toDigits n)

/-- A number is written in inert characters. -/
theorem inert_toString (n : Nat) : ∀ c ∈ (toString n).toList, isInert c = true := by
  have h := inert_toDigits n
  rwa [← toList_ofNat] at h

/-- An integer is tidy, and begins with a minus if it is negative. -/
theorem integer_text (z : Int) : Tidy (toString z).toList ∧ Begun (z < 0) (toString z).toList := by
  -- Only a negative number has a sign, and a digit stands behind it.
  cases z with
  | ofNat n =>
    rw [toList_ofNat]
    obtain ⟨hne, hhead⟩ := begun_of_inert (inert_toDigits n) Nat.toDigits_ne_nil
    exact ⟨tidy_of_inert (inert_toDigits n), hne, hhead.trans (by simp)⟩
  | negSucc n =>
    rw [toList_negSucc]
    exact ⟨tidy_minus (inert_toDigits (n + 1)) Nat.toDigits_ne_nil, List.cons_ne_nil _ _,
      iff_of_true rfl (Int.negSucc_lt_zero n)⟩

/-- A numeral with digits where they are due. -/
structure Numeral.Spelled (n : Numeral) : Prop where
  whole : ∀ c ∈ n.whole, c.isDigit = true
  whole_ne_nil : n.whole ≠ []
  fraction : ∀ c ∈ n.fraction, c.isDigit = true
  exponent : ∀ e ∈ n.exponent, (∀ c ∈ e.digits, c.isDigit = true) ∧ e.digits ≠ []

/-- A numeral is tidy, and begins with a minus if it is negative. -/
theorem Numeral.Spelled.text {n : Numeral} (h : n.Spelled) :
    Tidy n.chars ∧ Begun (n.negative = true) n.chars := by
  -- Sign and whole part, fraction and exponent are tidy each by itself.
  have hfraction : Tidy (if n.fraction = [] then [] else '.' :: n.fraction) := by
    split
    · exact tidy_of_inert fun _ hc => by cases hc
    · exact tidy_of_inert (List.forall_mem_cons.mpr ⟨rfl, inert_of_isDigit h.fraction⟩)
  have hwhole : Tidy ((if n.negative then ['-'] else []) ++ n.whole) := by
    split
    · exact tidy_minus (inert_of_isDigit h.whole) h.whole_ne_nil
    · exact tidy_of_inert (inert_of_isDigit h.whole)
  refine ⟨(hwhole.append hfraction).append ?_, ?_⟩
  · cases he : n.exponent with
    | none => exact tidy_of_inert fun _ hc => by cases hc
    | some e =>
      obtain ⟨hdigit, hne⟩ := h.exponent e he
      have hdigits := inert_of_isDigit hdigit
      have hsign : Tidy (signText e.sign ++ e.digits) := by
        cases e.sign with
        | absent => exact tidy_of_inert hdigits
        | plus => exact tidy_of_inert (List.forall_mem_cons.mpr ⟨rfl, hdigits⟩)
        | minus => exact tidy_minus hdigits hne
      have hmark : Tidy ['e'] := by decide
      exact hmark.append hsign
  · -- The first digit is no minus, so only the sign can be one.
    obtain ⟨c, cs, hcs⟩ := List.exists_cons_of_ne_nil h.whole_ne_nil
    have hc : c ≠ '-' := by
      rintro rfl
      exact absurd (h.whole '-' (by simp [hcs])) (by decide)
    rw [chars, hcs, Begun]
    cases n.negative <;> simp [hc]

/-- There is a digit before the point. -/
theorem positional_ne_nil (digits : List Char) (leading : Int) :
    (Layout.positional digits leading).1 ≠ [] := by
  unfold Layout.positional
  split
  · simp
  · show List.take (leading.toNat + 1)
      (digits ++ List.replicate (leading.toNat + 1 - digits.length) '0') ≠ []
    cases digits with
    | nil => simp [List.replicate_succ]
    | cons d ds => simp

/-- A float is spelled with its sign, and with digits where they are due. -/
theorem Layout.spelled_numeral (l : Layout) (x : Binary64) :
    (l.numeral x).Spelled ∧ (l.numeral x).negative = x.isNegative := by
  have hdigits := isDigit_toDigits (x.shortest l.tie).digits
  have hdigit : ∀ c, c = '0' ∨ c ∈ Nat.toDigits 10 (x.shortest l.tie).digits →
      c.isDigit = true := by
    rintro c (rfl | hc)
    · rfl
    · exact hdigits c hc
  unfold Layout.numeral
  show (Numeral.Spelled (ite _ _ _)) ∧ (ite _ _ _ : Numeral).negative = _
  -- Digits around a point, or one digit, a fraction and an exponent.
  split
  · exact ⟨⟨fun c hc => hdigit c (mem_positional (.inl hc)), positional_ne_nil _ _,
      fun c hc => hdigit c (mem_positional (.inr hc)), fun e he => by cases he⟩, rfl⟩
  · refine ⟨⟨fun c hc => hdigits c (List.mem_of_mem_take hc), ?_,
      fun c hc => hdigits c (List.mem_of_mem_drop hc), fun e he => ?_⟩, rfl⟩
    · rw [Ne, List.take_eq_nil_iff]
      rintro (h | h)
      · cases h
      · exact Nat.toDigits_ne_nil h
    · obtain rfl := Option.mem_some_iff.mp he
      exact ⟨isDigit_toDigits _, Nat.toDigits_ne_nil⟩

/-- A finite float is tidy, and begins with a minus if its sign bit is set. -/
theorem float_text (l : Layout) {x : Binary64} (h : x.isFinite = true) :
    Tidy (l.text x).toList ∧ Begun (x.isNegative = true) (l.text x).toList := by
  obtain ⟨hspelled, hnegative⟩ := l.spelled_numeral x
  rw [toList_float l h, ← hnegative]
  exact hspelled.text

/-! ## Placeholders -/

/-- A placeholder is written in inert characters. -/
theorem inert_marker (style : ParamStyle) (position : Nat) :
    ∀ c ∈ (style.marker position).toList, isInert c = true := by
  have happend : ∀ mark : String, (∀ c ∈ mark.toList, isInert c = true) →
      ∀ c ∈ (mark ++ toString position).toList, isInert c = true := by
    intro mark hmark
    rw [String.toList_append]
    exact List.forall_mem_append.mpr ⟨hmark, inert_toString position⟩
  cases style with
  | inline | questionMark => exact List.all_eq_true.mp (by decide : "?".toList.all isInert = true)
  | colon => exact happend ":a" (List.all_eq_true.mp (by decide))
  | dollar => exact happend "$" (List.all_eq_true.mp (by decide))

end SqlCompiler
