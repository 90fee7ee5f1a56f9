import Mathlib
import SqlCompiler.Proofs.Comments.Scan
import SqlCompiler.Proofs.Reading.Token

/-!
# Quoting

A string is written between single quotes, and an identifier between double quotes unless it is a
plain lower-case word that no dialect reserves. A lexer that reads such a text gets back the string
or the identifier, and what stands behind it (`lex_text`): no content ends a quoted text early, and
none is taken for a keyword. The two ways to write are `quote_string` and `write_ident`.
-/

namespace SqlCompiler.Quoting

/-! ## A lexer for strings and names -/

/-- What a lexer reads. -/
inductive Lexeme where
  | string (content : String)
  | identifier (name : String)
  | keyword (word : String)
  deriving DecidableEq

/-- The letters that a lexer knows, which may go beyond ASCII. -/
structure Alphabet where
  isLetter : Char → Bool
  isLetter_of_lower : ∀ c, 'a' ≤ c → c ≤ 'z' → isLetter c = true

/-- The letters of ASCII. -/
def Alphabet.ascii : Alphabet where
  isLetter := Char.isAlpha
  isLetter_of_lower c ha hz := by
    have hc : c.isLower = true := by
      show (decide (97 ≤ c.toNat) && decide (c.toNat ≤ 122)) = true
      simpa using And.intro (show 97 ≤ c.toNat from ha) (show c.toNat ≤ 122 from hz)
    simp [Char.isAlpha, hc]

/-- Reads quoted text behind its opening quote. It ends at the first quote that no other one
follows, and two quotes stand for one. -/
def readQuoted (quote : Char) : List Char → Option (List Char × List Char)
  | [] => none
  | [c] => if c = quote then some ([], []) else none
  | c :: d :: cs =>
    if c = quote then
      if d = quote then (readQuoted quote cs).map (Prod.map (quote :: ·) id)
      else some ([], d :: cs)
    else (readQuoted quote (d :: cs)).map (Prod.map (c :: ·) id)

/-- The name that a word spells. Its letter case does not matter. -/
def wordName (cs : List Char) : String :=
  String.ofList (cs.map Char.toLower)

/-- What a word is read as. -/
def wordLexeme (cs : List Char) : Lexeme :=
  if wordName cs ∈ keywords then .keyword (wordName cs) else .identifier (wordName cs)

namespace Alphabet

variable (A : Alphabet)

/-- A character that a word may start with. -/
def startsWord (c : Char) : Bool :=
  A.isLetter c || c == '_' || c == '$'

/-- A character that a word goes on with. -/
def continuesWord (c : Char) : Bool :=
  A.startsWord c || c.isDigit

/-- Reads a string, an identifier or a keyword; what is left follows it. -/
def lex : List Char → Option (Lexeme × List Char)
  | [] => none
  | c :: cs =>
    if c = '\'' then (readQuoted '\'' cs).map (Prod.map (.string ∘ String.ofList) id)
    else if c = '"' then (readQuoted '"' cs).map (Prod.map (.identifier ∘ String.ofList) id)
    else if A.startsWord c then
      some (wordLexeme ((c :: cs).takeWhile A.continuesWord),
        (c :: cs).dropWhile A.continuesWord)
    else none

/-- A text does not go on with an identifier before it: neither with its quotes nor with its
word. -/
def EndsIdentifier (rest : List Char) : Prop :=
  ∀ c ∈ rest.head?, c ≠ '"' ∧ A.continuesWord c = false

/-- An identifier ends with the text. -/
theorem endsIdentifier_nil : A.EndsIdentifier [] := by
  simp [EndsIdentifier]

/-- An identifier ends before a character that is no quote and continues no word. -/
theorem endsIdentifier_cons {c : Char} {cs : List Char} :
    A.EndsIdentifier (c :: cs) ↔ c ≠ '"' ∧ A.continuesWord c = false := by
  simp [EndsIdentifier]

end Alphabet

/-! ## Quoted text -/

/-- Reading takes the doubling of quotes back. -/
theorem readQuoted_double (quote : Char) (cs : List Char) {rest : List Char}
    (hrest : rest.head? ≠ some quote) :
    readQuoted quote (Text.double quote cs ++ quote :: rest) = some (cs, rest) := by
  induction cs with
  | nil =>
    -- The closing quote is followed by something else, or by nothing.
    cases rest with
    | nil => simp [Text.double, readQuoted]
    | cons d ds =>
      have hd : d ≠ quote := by simpa using hrest
      simp [Text.double, readQuoted, hd]
  | cons c cs ih =>
    rw [Text.double]
    -- A quote is read from two, any other character from one.
    split
    · next hc =>
      rw [List.cons_append, List.cons_append, readQuoted, if_pos rfl, if_pos rfl, ih, hc]
      rfl
    · next hc =>
      obtain ⟨d, ds, hd⟩ : ∃ d ds, Text.double quote cs ++ quote :: rest = d :: ds :=
        List.exists_cons_of_ne_nil (by simp)
      rw [List.cons_append, hd, readQuoted, if_neg hc, ← hd, ih]
      rfl

/-- A quoted string is read back, unless a quote stands behind it. -/
theorem Alphabet.lex_string (A : Alphabet) (s : String) {rest : List Char}
    (hrest : rest.head? ≠ some '\'') :
    A.lex ((Text.doubled '\'' s).toList ++ rest) = some (.string s, rest) := by
  rw [Text.doubled, String.toList_ofList, List.cons_append, List.append_assoc,
    List.singleton_append, lex, if_pos rfl, readQuoted_double _ _ hrest]
  simp

/-- A quoted name is read back, unless a quote stands behind it. -/
theorem Alphabet.lex_quoted (A : Alphabet) (name : String) {rest : List Char}
    (hrest : rest.head? ≠ some '"') :
    A.lex ((Text.doubled '"' name).toList ++ rest) = some (.identifier name, rest) := by
  rw [Text.doubled, String.toList_ofList, List.cons_append, List.append_assoc,
    List.singleton_append, lex, if_neg (by decide), if_pos rfl, readQuoted_double _ _ hrest]
  simp

/-! ## Bare identifiers -/

/-- The name has the form `[a-z_$][a-z0-9_$]*`. -/
def IsPlainWord (name : String) : Prop :=
  ∃ c cs, name.toList = c :: cs ∧ (('a' ≤ c ∧ c ≤ 'z') ∨ c = '_' ∨ c = '$') ∧
    ∀ d ∈ cs, ('a' ≤ d ∧ d ≤ 'z') ∨ ('0' ≤ d ∧ d ≤ '9') ∨ d = '_' ∨ d = '$'

/-- The test for plain words is the one of `IsPlainWord`. -/
theorem isPlain_iff (name : String) : Identifier.isPlain name = true ↔ IsPlainWord name := by
  unfold Identifier.isPlain IsPlainWord
  split
  · next hnil => simp [hnil]
  · next c cs hcons =>
    simp only [hcons, List.cons.injEq, Identifier.startsBare, Identifier.continuesBare,
      Bool.and_eq_true, Bool.or_eq_true, decide_eq_true_eq, beq_iff_eq, List.all_eq_true,
      or_assoc]
    constructor
    · rintro ⟨hc, hcs⟩
      exact ⟨c, cs, ⟨rfl, rfl⟩, hc, fun d hd => by have := hcs d hd; tauto⟩
    · rintro ⟨_, _, ⟨rfl, rfl⟩, hc, hcs⟩
      exact ⟨hc, fun d hd => by have := hcs d hd; tauto⟩

/-- A name is written bare if it is a plain word that is not reserved. -/
theorem isBare_iff (name : String) :
    Identifier.isBare name = true ↔ IsPlainWord name ∧ name ∉ keywords := by
  simp [Identifier.isBare, isPlain_iff]

/-- Doubling quotes makes no text shorter. -/
theorem length_le_double (quote : Char) (cs : List Char) :
    cs.length ≤ (Text.double quote cs).length := by
  induction cs with
  | nil => exact Nat.le_refl _
  | cons c cs ih =>
    rw [Text.double]
    split <;> simp only [List.length_cons] <;> omega

/-- Quotes make a name longer, so what is written as it is has none. -/
theorem text_eq_self_iff (name : String) :
    Identifier.text name = name ↔ Identifier.isBare name = true := by
  unfold Identifier.text
  -- A quoted name is longer than the name.
  split
  · next h => simp [h]
  · next h =>
    refine iff_of_false (fun heq => ?_) h
    have hsame := congrArg (fun t : String => t.toList.length) heq
    simp only [Text.doubled, String.toList_ofList, List.length_cons, List.length_append] at hsame
    have := length_le_double '"' name.toList
    omega

/-- A name that is not written bare is quoted. -/
theorem text_of_not_isBare {name : String} (h : ¬ Identifier.isBare name = true) :
    Identifier.text name = Text.doubled '"' name :=
  if_neg h

/-- A bare identifier spells itself. -/
theorem wordName_of_isBare {name : String} (h : Identifier.isBare name = true) :
    wordName name.toList = name := by
  have hlower : name.toList.map Char.toLower = name.toList := by
    refine (List.map_congr_left fun c hc => ?_).trans name.toList.map_id
    exact Reading.toLower_of_continuesBare (Identifier.continuesBare_of_isBare h c hc)
  rw [wordName, hlower, String.ofList_toList]

/-- A keyword is quoted, in whatever letter case. -/
theorem text_of_keyword {name : String} (h : wordName name.toList ∈ keywords) :
    Identifier.text name = Text.doubled '"' name := by
  refine text_of_not_isBare fun hbare => ?_
  rw [wordName_of_isBare hbare] at h
  exact ((isBare_iff name).mp hbare).2 h

/-- The characters of a plain word are those of a word. -/
theorem Alphabet.continuesWord_of_continuesBare (A : Alphabet) {c : Char}
    (h : Identifier.continuesBare c = true) : A.continuesWord c = true := by
  simp only [Identifier.continuesBare, Identifier.startsBare, Bool.or_eq_true, Bool.and_eq_true,
    decide_eq_true_eq, beq_iff_eq] at h
  -- A lower-case letter, one of two signs, or a digit.
  obtain ((⟨ha, hz⟩ | rfl) | rfl) | ⟨h0, h9⟩ := h
  · simp [continuesWord, startsWord, A.isLetter_of_lower c ha hz]
  · simp [continuesWord, startsWord]
  · simp [continuesWord, startsWord]
  · have hdigit : c.isDigit = true := by
      show (decide (48 ≤ c.toNat) && decide (c.toNat ≤ 57)) = true
      simpa using And.intro (show 48 ≤ c.toNat from h0) (show c.toNat ≤ 57 from h9)
    simp [continuesWord, hdigit]

/-- What begins a bare name begins a word for every lexer. -/
theorem Alphabet.startsWord_of_startsBare (A : Alphabet) {c : Char}
    (h : Identifier.startsBare c = true) : A.startsWord c = true := by
  simp only [Identifier.startsBare, Bool.or_eq_true, Bool.and_eq_true, decide_eq_true_eq,
    beq_iff_eq] at h
  obtain (⟨ha, hz⟩ | rfl) | rfl := h
  · simp [startsWord, A.isLetter_of_lower c ha hz]
  · simp [startsWord]
  · simp [startsWord]

/-- A word ends where its characters do. -/
theorem Alphabet.lex_bare (A : Alphabet) {name : String} (h : Identifier.isBare name = true)
    {rest : List Char} (hrest : A.EndsIdentifier rest) :
    A.lex (name.toList ++ rest) = some (.identifier name, rest) := by
  have hword : ∀ c ∈ name.toList, A.continuesWord c = true := fun c hc =>
    A.continuesWord_of_continuesBare (Identifier.continuesBare_of_isBare h c hc)
  -- The word ends where the name ends.
  have hstop : rest.takeWhile A.continuesWord = [] ∧ rest.dropWhile A.continuesWord = rest := by
    cases rest with
    | nil => exact ⟨rfl, rfl⟩
    | cons d ds =>
      have hd := (A.endsIdentifier_cons.mp hrest).2
      simp [hd]
  have hname := wordName_of_isBare h
  obtain ⟨hplain, hreserved⟩ : Identifier.isPlain name = true ∧ name ∉ keywords :=
    ⟨(Bool.and_eq_true_iff.mp h).1, ((isBare_iff name).mp h).2⟩
  unfold Identifier.isPlain at hplain
  split at hplain
  · cases hplain
  · next c cs hcons =>
    have hstart := (Bool.and_eq_true_iff.mp hplain).1
    -- A name that is bare does not begin with a quote, so it is read as a word.
    have hsingle : c ≠ '\'' := by
      rintro rfl
      cases hstart
    have hdouble : c ≠ '"' := by
      rintro rfl
      cases hstart
    have hlex : A.lex (name.toList ++ rest)
        = some (wordLexeme ((name.toList ++ rest).takeWhile A.continuesWord),
            (name.toList ++ rest).dropWhile A.continuesWord) := by
      rw [hcons, List.cons_append, lex, if_neg hsingle, if_neg hdouble,
        if_pos (A.startsWord_of_startsBare hstart)]
    rw [hlex, List.takeWhile_append_of_pos hword, List.dropWhile_append_of_pos hword, hstop.1,
      hstop.2, List.append_nil, wordLexeme, hname, if_neg hreserved]

/-- An identifier is read back from what is written for it. -/
theorem Alphabet.lex_identifier (A : Alphabet) (name : String) {rest : List Char}
    (hrest : A.EndsIdentifier rest) :
    A.lex ((Identifier.text name).toList ++ rest) = some (.identifier name, rest) := by
  unfold Identifier.text
  split
  · next h => exact A.lex_bare h hrest
  · refine A.lex_quoted name fun hquote => ?_
    exact (hrest '"' hquote).1 rfl

/-- What is written for an identifier can be read back, so it tells the identifier. -/
theorem text_injective : Function.Injective Identifier.text := by
  intro i j h
  have hread : ∀ name, Alphabet.ascii.lex ((Identifier.text name).toList ++ [])
      = some (.identifier name, []) := fun name =>
    Alphabet.ascii.lex_identifier name Alphabet.ascii.endsIdentifier_nil
  have hsame := hread i
  rw [h, hread j] at hsame
  simpa using hsame.symm

/-! ## Strings and identifiers as they are written -/

/-- The pieces of strings and identifiers are read back from their texts, whatever follows that does
not go on with them. An identifier is written as it is exactly if it is a plain word and no keyword,
and between quotes otherwise; a keyword is quoted in whatever letter case. -/
theorem lex_text (A : Alphabet) (style : ParamStyle) (position : Nat) :
    (∀ (s : String) (rest : List Char), rest.head? ≠ some '\'' →
      A.lex (((Piece.string s).text style position).toList ++ rest) = some (.string s, rest)) ∧
    (∀ (i : String) (rest : List Char), A.EndsIdentifier rest →
      A.lex (((Piece.ident i).text style position).toList ++ rest)
        = some (.identifier i, rest)) ∧
    (∀ i : String, (Piece.ident i).text style position = i ↔ IsPlainWord i ∧ i ∉ keywords) ∧
    (∀ i : String, ¬ (IsPlainWord i ∧ i ∉ keywords) →
      (Piece.ident i).text style position = Text.doubled '"' i) ∧
    (∀ i : String, wordName i.toList ∈ keywords →
      (Piece.ident i).text style position = Text.doubled '"' i) ∧
    ∀ i j : String, (Piece.ident i).text style position = (Piece.ident j).text style position →
      i = j := by
  refine ⟨fun s rest => A.lex_string s, fun i rest => A.lex_identifier i, fun i => ?_,
    fun i h => ?_, fun i => text_of_keyword, fun i j h => text_injective h⟩
  · exact (text_eq_self_iff i).trans (isBare_iff i)
  · exact text_of_not_isBare fun hbare => h ((isBare_iff i).mp hbare)

/-- A string that would end early, a name with a quote in it, a bare name and a reserved word. -/
theorem lex_text_of_quotes :
    Alphabet.ascii.lex "'''; --''') x".toList = some (.string "'; --'", ") x".toList) ∧
    Alphabet.ascii.lex "\"a\"\"b\" = 1".toList = some (.identifier "a\"b", " = 1".toList) ∧
    Alphabet.ascii.lex "dept$id.x".toList = some (.identifier "dept$id", ".x".toList) ∧
    Identifier.text "Level" = "\"Level\"" := by
  obtain ⟨hstring, hident, -, -, hkeyword, -⟩ := lex_text .ascii .questionMark 1
  refine ⟨?_, ?_, ?_, ?_⟩
  · exact hstring "'; --'" ") x".toList (by decide)
  · exact hident "a\"b" " = 1".toList (Alphabet.ascii.endsIdentifier_cons.mpr (by decide))
  · exact hident "dept$id" ".x".toList (Alphabet.ascii.endsIdentifier_cons.mpr (by decide))
  · exact hkeyword "Level" (by decide)

end SqlCompiler.Quoting
