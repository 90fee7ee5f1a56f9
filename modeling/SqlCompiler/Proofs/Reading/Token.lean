import SqlCompiler.Proofs.Outcome

/-!
# Tokens of SQL text

How a database splits the text of a condition into tokens. A word goes on as long as its characters
do; quoted text ends at a quote that is not doubled; `<`, `>`, `-` and `/` wait for the character
behind them. The scan takes one character at a time (`Scan.step`), so what it yields for a text and
more behind it is what it yields for the text, then for the rest, as soon as the rest starts
something new (`scan_word`, `scan_doubled`).
-/

namespace SqlCompiler.Reading

/-- A word that the grammar of conditions reserves. -/
inductive Keyword where
  | and
  | or
  | not
  | is
  | null
  | between
  | among
  | like
  | distinct
  | rowNumber
  deriving DecidableEq

namespace Keyword

/-- All reserved words. -/
def all : List Keyword :=
  [.and, .or, .not, .is, .null, .between, .among, .like, .distinct, .rowNumber]

/-- The word in lower case. -/
def letters : Keyword → List Char
  | .and => ['a', 'n', 'd']
  | .or => ['o', 'r']
  | .not => ['n', 'o', 't']
  | .is => ['i', 's']
  | .null => ['n', 'u', 'l', 'l']
  | .between => ['b', 'e', 't', 'w', 'e', 'e', 'n']
  | .among => ['i', 'n']
  | .like => ['l', 'i', 'k', 'e']
  | .distinct => ['d', 'i', 's', 't', 'i', 'n', 'c', 't']
  | .rowNumber => ['r', 'o', 'w', 'n', 'u', 'm']

/-- The reserved word that characters spell, in whatever case. -/
def ofWord? (cs : List Char) : Option Keyword :=
  all.find? fun k => k.letters == cs.map Char.toLower

end Keyword

/-- A token of SQL text. -/
inductive Token where
  | keyword (k : Keyword)
  /-- A word that is not reserved. -/
  | name (text : String)
  /-- An identifier between double quotes. -/
  | quoted (text : String)
  | string (content : String)
  | integer (n : Nat)
  /-- A placeholder, as it is written. -/
  | placeholder (marker : String)
  | operator (op : BinaryOp)
  | opening
  | closing
  | comma
  | dot
  /-- What no condition has in it, such as the start of a comment. -/
  | unknown
  deriving DecidableEq

/-- A character of a word. -/
def isWord (c : Char) : Bool :=
  c.isAlphanum || c == '_' || c == '$' || 128 ≤ c.toNat

/-- A word that the style of parameters makes a placeholder. -/
def isNumbered (style : ParamStyle) : List Char → Bool
  | '$' :: cs => style = .dollar && !cs.isEmpty && cs.all Char.isDigit
  | _ => false

/-- Only numbers behind a dollar sign are placeholders that a name can spell. -/
theorem isNumbered_of_ne_dollar {style : ParamStyle} (h : style ≠ .dollar) (cs : List Char) :
    isNumbered style cs = false := by
  unfold isNumbered
  split
  · simp [h]
  · rfl

/-- The token of a word. -/
def wordToken (style : ParamStyle) (cs : List Char) : Token :=
  if cs.all Char.isDigit then .integer (Nat.ofDigitChars 10 cs 0)
  else if isNumbered style cs || cs.head? == some ':' then .placeholder (String.ofList cs)
  else
    match Keyword.ofWord? cs with
    | some k => .keyword k
    | none => .name (String.ofList cs)

/-- The token of quoted text. -/
def quotedToken (quote : Char) (cs : List Char) : Token :=
  if quote = '\'' then .string (String.ofList cs) else .quoted (String.ofList cs)

/-- The token of a symbol that another might have followed. -/
def symbolToken : Char → Token
  | '<' => .operator .lt
  | '>' => .operator .gt
  | '-' => .operator .sub
  | '/' => .operator .div
  | _ => .unknown

/-- The token of two symbols. Two minus signs start a comment, and so does a star after a slash. -/
def pairToken? : Char → Char → Option Token
  | '<', '=' => some (.operator .ltEq)
  | '<', '>' => some (.operator .notEq)
  | '>', '=' => some (.operator .gtEq)
  | '-', '-' => some .unknown
  | '/', '*' => some .unknown
  | _, _ => none

/-- What the characters so far have started. -/
inductive Scan where
  | start
  | word (cs : List Char)
  /-- Quoted text. -/
  | quote (q : Char) (cs : List Char)
  /-- Quoted text, and then a quote: the text ends there unless another one follows. -/
  | closed (q : Char) (cs : List Char)
  | symbol (c : Char)

namespace Scan

/-- What a character starts, and the token that it is by itself. -/
def begin (c : Char) : List Token × Scan :=
  if isWord c || c == ':' then ([], .word [c])
  else
    match c with
    | ' ' => ([], .start)
    | '"' => ([], .quote '"' [])
    | '\'' => ([], .quote '\'' [])
    | '<' => ([], .symbol '<')
    | '>' => ([], .symbol '>')
    | '-' => ([], .symbol '-')
    | '/' => ([], .symbol '/')
    | '?' => ([.placeholder "?"], .start)
    | '+' => ([.operator .add], .start)
    | '*' => ([.operator .mul], .start)
    | '%' => ([.operator .mod], .start)
    | '=' => ([.operator .eq], .start)
    | '(' => ([.opening], .start)
    | ')' => ([.closing], .start)
    | ',' => ([.comma], .start)
    | '.' => ([.dot], .start)
    | _ => ([.unknown], .start)

/-- The next character. -/
def step (style : ParamStyle) (s : Scan) (c : Char) : List Token × Scan :=
  match s with
  | .start => begin c
  | .word cs =>
    if isWord c then ([], .word (cs ++ [c]))
    else (wordToken style cs :: (begin c).1, (begin c).2)
  | .quote q cs => if c = q then ([], .closed q cs) else ([], .quote q (cs ++ [c]))
  | .closed q cs =>
    if c = q then ([], .quote q (cs ++ [q]))
    else (quotedToken q cs :: (begin c).1, (begin c).2)
  | .symbol s =>
    match pairToken? s c with
    | some t => ([t], .start)
    | none => (symbolToken s :: (begin c).1, (begin c).2)

/-- The tokens left at the end. -/
def finish (style : ParamStyle) : Scan → List Token
  | .start => []
  | .word cs => [wordToken style cs]
  | .quote _ _ => [.unknown]
  | .closed q cs => [quotedToken q cs]
  | .symbol s => [symbolToken s]

/-- The tokens from a state of the scan on. -/
def run (style : ParamStyle) : Scan → List Char → List Token
  | s, [] => s.finish style
  | s, c :: cs => (s.step style c).1 ++ (s.step style c).2.run style cs

end Scan

/-- The tokens of a text. -/
def scan (style : ParamStyle) (cs : List Char) : List Token :=
  Scan.start.run style cs

/-- A text starts something new behind a word: it does not go on with a character of the word. -/
def endsWord (rest : List Char) : Bool :=
  rest.head?.all fun c => !isWord c

/-- A text may stand behind an operand: there is none, or a parenthesis is closed, or a comma
follows, or a blank and then a keyword or an operator. -/
def endsOperand : List Char → Bool
  | [] => true
  | ')' :: _ => true
  | ',' :: _ => true
  | ' ' :: c :: _ => c.isUpper || ['+', '-', '*', '/', '%', '=', '<', '>'].contains c
  | _ => false

/-- What stands behind an operand starts with one of three characters. -/
theorem endsOperand_cases {rest : List Char} (h : endsOperand rest = true) :
    rest = [] ∨ ∃ c cs, rest = c :: cs ∧ (c = ')' ∨ c = ',' ∨ c = ' ') := by
  unfold endsOperand at h
  split at h
  · exact .inl rfl
  · exact .inr ⟨_, _, rfl, .inl rfl⟩
  · exact .inr ⟨_, _, rfl, .inr (.inl rfl)⟩
  · exact .inr ⟨_, _, rfl, .inr (.inr rfl)⟩
  · cases h

/-- What stands behind an operand starts something new behind a word. -/
theorem endsWord_of_endsOperand {rest : List Char} (h : endsOperand rest = true) :
    endsWord rest = true := by
  obtain rfl | ⟨c, cs, rfl, rfl | rfl | rfl⟩ := endsOperand_cases h <;> rfl

/-- A word is one token. -/
theorem run_word (style : ParamStyle) (acc w : List Char) (hw : ∀ c ∈ w, isWord c = true)
    {rest : List Char} (hrest : endsWord rest = true) :
    (Scan.word acc).run style (w ++ rest) = wordToken style (acc ++ w) :: scan style rest := by
  induction w generalizing acc with
  | nil =>
    rw [List.nil_append, List.append_nil]
    -- The word is over, so the next character starts a token of its own.
    cases rest with
    | nil => rfl
    | cons c cs =>
      have hc : isWord c = false := by simpa [endsWord] using hrest
      simp only [Scan.run, Scan.step, scan, hc]
      rfl
  | cons c w ih =>
    -- The character joins the word, which the induction hypothesis takes as longer.
    have hc := hw c List.mem_cons_self
    have ih := ih (acc ++ [c]) fun d hd => hw d (List.mem_cons_of_mem c hd)
    rw [List.append_assoc, List.singleton_append] at ih
    rw [List.cons_append, ← ih]
    simp only [Scan.run, Scan.step, hc, if_true]
    rfl

/-- A word is one token. -/
theorem scan_word (style : ParamStyle) {w : List Char} (hne : w ≠ [])
    (hall : w.all isWord = true) {rest : List Char} (hrest : endsWord rest = true) :
    scan style (w ++ rest) = wordToken style w :: scan style rest := by
  have hw := List.all_eq_true.mp hall
  cases w with
  | nil => exact absurd rfl hne
  | cons c w =>
    have hc := hw c List.mem_cons_self
    have hrun := run_word style [c] w (fun d hd => hw d (List.mem_cons_of_mem c hd)) hrest
    rw [List.singleton_append] at hrun
    rw [← hrun, List.cons_append]
    simp only [scan, Scan.run, Scan.step, Scan.begin, hc, Bool.true_or, if_true]
    rfl

/-- Quoted text is one token, and a quote inside is written twice. -/
theorem run_double (style : ParamStyle) (q : Char) (acc cs : List Char) {rest : List Char}
    (hrest : rest.head? ≠ some q) :
    (Scan.quote q acc).run style (Text.double q cs ++ q :: rest)
      = quotedToken q (acc ++ cs) :: scan style rest := by
  induction cs generalizing acc with
  | nil =>
    rw [Text.double, List.nil_append, List.append_nil]
    -- The closing quote waits for the next character, which is not another quote.
    cases rest with
    | nil => simp [Scan.run, Scan.step, Scan.finish, scan]
    | cons c cs =>
      have hc : ¬ c = q := by simpa using hrest
      simp [Scan.run, Scan.step, scan, hc]
  | cons c cs ih =>
    have ih := ih (acc ++ [c])
    rw [List.append_assoc, List.singleton_append] at ih
    rw [Text.double, ← ih]
    split
    · next hq =>
      -- A quote inside is written twice, and the pair is one character of the text.
      subst hq
      simp [Scan.run, Scan.step]
    · next hq => simp [Scan.run, Scan.step, hq]

/-- Quoted text is one token. -/
theorem scan_doubled (style : ParamStyle) {q : Char} (hq : q = '"' ∨ q = '\'') (s : String)
    {rest : List Char} (hrest : rest.head? ≠ some q) :
    scan style ((Text.doubled q s).toList ++ rest)
      = quotedToken q s.toList :: scan style rest := by
  have hrun := run_double style q [] s.toList hrest
  rw [List.nil_append] at hrun
  rw [← hrun, Text.doubled, String.toList_ofList, List.cons_append, List.append_assoc,
    List.singleton_append]
  obtain rfl | rfl := hq
  · rfl
  · rfl

/-- A token that can go on what a name has started: a call, or a name behind a relation. -/
def Token.extendsName (t : Token) : Bool :=
  t = .opening || t = .dot

/-- No word goes on with a name. -/
theorem wordToken_extendsName (style : ParamStyle) (cs : List Char) :
    (wordToken style cs).extendsName = false := by
  unfold wordToken
  split
  · rfl
  · split
    · rfl
    · split <;> rfl

/-- No quoted text goes on with a name. -/
theorem quotedToken_extendsName (q : Char) (cs : List Char) :
    (quotedToken q cs).extendsName = false := by
  unfold quotedToken
  split <;> rfl

/-- No single sign goes on with a name. -/
theorem symbolToken_extendsName (c : Char) : (symbolToken c).extendsName = false := by
  unfold symbolToken
  split <;> rfl

/-- No pair of signs goes on with a name. -/
theorem pairToken?_extendsName {c d : Char} {t : Token} (h : pairToken? c d = some t) :
    t.extendsName = false := by
  unfold pairToken? at h
  split at h <;> cases h <;> rfl

/-- What has been started becomes a token that goes on no name. -/
theorem run_extendsName (style : ParamStyle) {s : Scan} (hs : s ≠ .start) (cs : List Char) :
    ∃ t ts, s.run style cs = t :: ts ∧ t.extendsName = false := by
  -- The first token ends with the text or with the character that is no part of it.
  induction cs generalizing s with
  | nil =>
    cases s with
    | start => exact absurd rfl hs
    | word w => exact ⟨_, _, rfl, wordToken_extendsName style w⟩
    | quote q w => exact ⟨_, _, rfl, rfl⟩
    | closed q w => exact ⟨_, _, rfl, quotedToken_extendsName q w⟩
    | symbol c => exact ⟨_, _, rfl, symbolToken_extendsName c⟩
  | cons c cs ih =>
    cases s with
    | start => exact absurd rfl hs
    | word w =>
      simp only [Scan.run, Scan.step]
      split
      · exact ih Scan.noConfusion
      · exact ⟨_, _, rfl, wordToken_extendsName style w⟩
    | quote q w =>
      simp only [Scan.run, Scan.step]
      split
      · exact ih Scan.noConfusion
      · exact ih Scan.noConfusion
    | closed q w =>
      simp only [Scan.run, Scan.step]
      split
      · exact ih Scan.noConfusion
      · exact ⟨_, _, rfl, quotedToken_extendsName q w⟩
    | symbol d =>
      simp only [Scan.run, Scan.step]
      split
      · next t ht => exact ⟨_, _, rfl, pairToken?_extendsName ht⟩
      · exact ⟨_, _, rfl, symbolToken_extendsName d⟩

/-- What stands behind an operand does not go on its name. -/
theorem scan_endsOperand (style : ParamStyle) {rest : List Char} (h : endsOperand rest = true) :
    scan style rest = [] ∨ ∃ t ts, scan style rest = t :: ts ∧ t.extendsName = false := by
  unfold endsOperand at h
  split at h
  · exact .inl rfl
  · exact .inr ⟨_, _, rfl, rfl⟩
  · exact .inr ⟨_, _, rfl, rfl⟩
  · next c cs =>
    -- Behind a blank comes a keyword, whose first letter starts a word, or an operator.
    right
    have hblank : scan style (' ' :: c :: cs) = scan style (c :: cs) := rfl
    rw [hblank]
    simp only [scan, Scan.run, Scan.step]
    rcases Bool.or_eq_true_iff.mp h with hupper | hsymbol
    · have hword : isWord c = true := by
        show (c.isUpper || c.isLower || c.isDigit || c == '_' || c == '$' || _) = true
        simp only [hupper, Bool.true_or]
      simp only [Scan.begin, hword, Bool.true_or, if_true, List.nil_append]
      exact run_extendsName style Scan.noConfusion cs
    · simp only [List.contains_cons, Bool.or_eq_true, beq_iff_eq, List.contains_nil] at hsymbol
      rcases hsymbol with rfl | rfl | rfl | rfl | rfl | rfl | rfl | rfl | hfalse
      · exact ⟨_, _, rfl, rfl⟩
      · exact run_extendsName style Scan.noConfusion cs
      · exact ⟨_, _, rfl, rfl⟩
      · exact run_extendsName style Scan.noConfusion cs
      · exact ⟨_, _, rfl, rfl⟩
      · exact ⟨_, _, rfl, rfl⟩
      · exact run_extendsName style Scan.noConfusion cs
      · exact run_extendsName style Scan.noConfusion cs
      · cases hfalse
  · cases h

/-- A word reads as a name: it has the characters of a word, and is no number, no placeholder and
not reserved. -/
def readsAsName (style : ParamStyle) (cs : List Char) : Bool :=
  cs.all isWord && !cs.all Char.isDigit && !isNumbered style cs && (Keyword.ofWord? cs).isNone

/-- The token of a name. -/
theorem wordToken_of_readsAsName {style : ParamStyle} {cs : List Char}
    (h : readsAsName style cs = true) : wordToken style cs = .name (String.ofList cs) := by
  simp only [readsAsName, Bool.and_eq_true, Bool.not_eq_true', Option.isNone_iff_eq_none] at h
  obtain ⟨⟨⟨hword, hdigits⟩, hnumbered⟩, hkeyword⟩ := h
  -- A placeholder may also start with a colon, but no word does.
  have hcolon : (cs.head? == some ':') = false := by
    cases cs with
    | nil => rfl
    | cons c cs =>
      have hc : isWord c = true := List.all_eq_true.mp hword c List.mem_cons_self
      rw [List.head?_cons, beq_eq_false_iff_ne]
      rintro ⟨⟩
      cases hc
  rw [wordToken, hdigits, hnumbered, hcolon, hkeyword]
  rfl

/-- A name is one token. -/
theorem scan_name {style : ParamStyle} {cs : List Char} (h : readsAsName style cs = true)
    {rest : List Char} (hrest : endsWord rest = true) :
    scan style (cs ++ rest) = .name (String.ofList cs) :: scan style rest := by
  have htoken := wordToken_of_readsAsName h
  simp only [readsAsName, Bool.and_eq_true, Bool.not_eq_true'] at h
  have hne : cs ≠ [] := by
    rintro rfl
    cases h.1.1.2
  rw [scan_word style hne h.1.1.1 hrest, htoken]

/-- The digits of a number are digits. -/
theorem all_isDigit_toDigits (n : Nat) : (Nat.toDigits 10 n).all Char.isDigit = true :=
  List.all_eq_true.mpr fun _ hc => Nat.isDigit_of_mem_toDigits (by decide) (by decide) hc

/-- The digits of a number are characters of a word. -/
theorem all_isWord_toDigits (n : Nat) : (Nat.toDigits 10 n).all isWord = true := by
  rw [List.all_eq_true]
  intro c hc
  have hdigit := List.all_eq_true.mp (all_isDigit_toDigits n) c hc
  simp only [isWord, Char.isAlphanum, hdigit, Bool.or_true, Bool.true_or]

/-- Digits are one token, the number that they are the digits of. -/
theorem scan_toDigits (style : ParamStyle) (n : Nat) {rest : List Char}
    (hrest : endsWord rest = true) :
    scan style (Nat.toDigits 10 n ++ rest) = .integer n :: scan style rest := by
  rw [scan_word style Nat.toDigits_ne_nil (all_isWord_toDigits n) hrest, wordToken,
    if_pos (all_isDigit_toDigits n), Nat.ofDigitChars_ten_toDigits]

/-- The characters that a bare identifier goes on with, by their code points. -/
theorem continuesBare_toNat {c : Char} (h : Identifier.continuesBare c = true) :
    (97 ≤ c.toNat ∧ c.toNat ≤ 122) ∨ c = '_' ∨ c = '$' ∨ (48 ≤ c.toNat ∧ c.toNat ≤ 57) := by
  simp only [Identifier.continuesBare, Identifier.startsBare, Bool.or_eq_true, Bool.and_eq_true,
    decide_eq_true_eq, beq_iff_eq] at h
  rcases h with ((⟨ha, hz⟩ | rfl) | rfl) | ⟨h0, h9⟩
  · exact .inl ⟨ha, hz⟩
  · exact .inr (.inl rfl)
  · exact .inr (.inr (.inl rfl))
  · exact .inr (.inr (.inr ⟨h0, h9⟩))

/-- A character of a bare identifier is one of a word. -/
theorem isWord_of_continuesBare {c : Char} (h : Identifier.continuesBare c = true) :
    isWord c = true := by
  show (c.isUpper || c.isLower || c.isDigit || c == '_' || c == '$' || _) = true
  -- A lower-case letter, one of two signs, or a digit.
  rcases continuesBare_toNat h with hlower | rfl | rfl | hdigit
  · have hc : c.isLower = true := by
      show (decide (97 ≤ c.toNat) && decide (c.toNat ≤ 122)) = true
      simpa using hlower
    simp only [hc, Bool.or_true, Bool.true_or]
  · rfl
  · rfl
  · have hc : c.isDigit = true := by
      show (decide (48 ≤ c.toNat) && decide (c.toNat ≤ 57)) = true
      simpa using hdigit
    simp only [hc, Bool.or_true, Bool.true_or]

/-- A character of a bare identifier is in lower case. -/
theorem toLower_of_continuesBare {c : Char} (h : Identifier.continuesBare c = true) :
    c.toLower = c := by
  -- None of the four ranges meets the capitals.
  have hupper : ¬ (c.val ≥ 'A'.val ∧ c.val ≤ 'Z'.val) := by
    rintro ⟨ha, hz⟩
    have ha' : 65 ≤ c.toNat := ha
    have hz' : c.toNat ≤ 90 := hz
    rcases continuesBare_toNat h with hlower | rfl | rfl | hdigit
    · omega
    · exact absurd hz (by decide)
    · exact absurd ha (by decide)
    · omega
  exact dif_neg hupper

/-- A character that a bare identifier starts with is no digit. -/
theorem isDigit_of_startsBare {c : Char} (h : Identifier.startsBare c = true) :
    c.isDigit = false := by
  simp only [Identifier.startsBare, Bool.or_eq_true, Bool.and_eq_true, decide_eq_true_eq,
    beq_iff_eq] at h
  rcases h with (⟨ha, _⟩ | rfl) | rfl
  · have ha' : 97 ≤ c.toNat := ha
    have hdigit : ¬ (c.val ≥ '0'.val ∧ c.val ≤ '9'.val) := by
      rintro ⟨_, h9⟩
      have h9' : c.toNat ≤ 57 := h9
      omega
    simpa [Char.isDigit] using hdigit
  · rfl
  · rfl

/-- Every reserved word is a keyword of some dialect, so it is never written bare. -/
theorem mem_keywords (k : Keyword) : String.ofList k.letters ∈ keywords := by
  cases k <;> decide

/-- A bare identifier reads as a name, unless it reads as a placeholder. -/
theorem readsAsName_of_isBare {style : ParamStyle} {name : String}
    (h : Identifier.isBare name = true) (hnumbered : isNumbered style name.toList = false) :
    readsAsName style name.toList = true := by
  simp only [Identifier.isBare, Bool.and_eq_true, Bool.not_eq_true', List.contains_eq_mem,
    decide_eq_false_iff_not] at h
  obtain ⟨hplain, hreserved⟩ := h
  obtain ⟨c, cs, hname, hc, hcs⟩ : ∃ c cs, name.toList = c :: cs ∧
      Identifier.startsBare c = true ∧ ∀ d ∈ cs, Identifier.continuesBare d = true := by
    unfold Identifier.isPlain at hplain
    split at hplain
    · cases hplain
    · next c cs heq =>
      rw [Bool.and_eq_true, List.all_eq_true] at hplain
      exact ⟨c, cs, heq, hplain.1, hplain.2⟩
  have hbare : ∀ d ∈ name.toList, Identifier.continuesBare d = true := by
    intro d hd
    rw [hname] at hd
    obtain rfl | hd := List.mem_cons.mp hd
    · simp only [Identifier.continuesBare, hc, Bool.true_or]
    · exact hcs d hd
  -- A bare identifier is in lower case already, so it would have to be the reserved word itself.
  have hkeyword : Keyword.ofWord? name.toList = none := by
    cases hfound : Keyword.ofWord? name.toList with
    | none => rfl
    | some k =>
      have hk := List.find?_some hfound
      have hlower : name.toList.map Char.toLower = name.toList :=
        (List.map_congr_left fun d hd => toLower_of_continuesBare (hbare d hd)).trans
          (List.map_id _)
      rw [hlower, beq_iff_eq] at hk
      have hmem := mem_keywords k
      rw [hk, String.ofList_toList] at hmem
      exact absurd hmem hreserved
  have hdigits : name.toList.all Char.isDigit = false := by
    rw [hname, List.all_cons, isDigit_of_startsBare hc, Bool.false_and]
  have hword : name.toList.all isWord = true :=
    List.all_eq_true.mpr fun d hd => isWord_of_continuesBare (hbare d hd)
  rw [readsAsName, hword, hdigits, hnumbered, hkeyword]
  rfl

/-- The token of an identifier. -/
def identToken (name : String) : Token :=
  if Identifier.isBare name then .name name else .quoted name

/-- An identifier is one token. -/
theorem scan_ident {style : ParamStyle} {name : String}
    (hnumbered : isNumbered style name.toList = false) {rest : List Char}
    (hrest : endsWord rest = true) (hquote : rest.head? ≠ some '"') :
    scan style ((Identifier.text name).toList ++ rest) = identToken name :: scan style rest := by
  rw [Identifier.text, identToken]
  split
  · next h =>
    rw [scan_name (readsAsName_of_isBare h hnumbered) hrest, String.ofList_toList]
  · next h =>
    rw [scan_doubled style (.inl rfl) name hquote, quotedToken, if_neg (by decide),
      String.ofList_toList]

/-- A placeholder is one token. -/
theorem scan_marker (style : ParamStyle) (position : Nat) {rest : List Char}
    (hrest : endsWord rest = true) :
    scan style ((style.marker position).toList ++ rest)
      = .placeholder (style.marker position) :: scan style rest := by
  have hword := List.all_eq_true.mp (all_isWord_toDigits position)
  have hdigits : (toString position).toList = Nat.toDigits 10 position := by
    rw [Nat.toString_eq_repr, Nat.toList_repr]
  cases style with
  | inline | questionMark =>
    have hmarker : "?".toList = ['?'] := by decide
    rw [ParamStyle.marker, hmarker]
    rfl
  | colon =>
    -- The colon only starts a word, so the run is taken from behind it.
    have hrun := run_word .colon [':'] ('a' :: Nat.toDigits 10 position)
      (List.forall_mem_cons.mpr ⟨rfl, hword⟩) hrest
    have hmarker : (ParamStyle.colon.marker position).toList
        = ':' :: 'a' :: Nat.toDigits 10 position := by
      rw [ParamStyle.marker, String.toList_append, hdigits]
      rfl
    rw [hmarker]
    refine Eq.trans hrun ?_
    rw [← String.ofList_toList (s := ParamStyle.colon.marker position), hmarker]
    rfl
  | dollar =>
    have hmarker : (ParamStyle.dollar.marker position).toList
        = '$' :: Nat.toDigits 10 position := by
      rw [ParamStyle.marker, String.toList_append, hdigits]
      rfl
    have hnumbered : isNumbered .dollar ('$' :: Nat.toDigits 10 position) = true := by
      have hne : (Nat.toDigits 10 position).isEmpty = false := by
        simp
      rw [isNumbered, hne, all_isDigit_toDigits]
      rfl
    rw [hmarker, scan_word .dollar (List.cons_ne_nil _ _)
      (List.all_eq_true.mpr (List.forall_mem_cons.mpr ⟨rfl, hword⟩)) hrest, wordToken, hnumbered,
      ← hmarker, String.ofList_toList, if_neg]
    · rfl
    · rw [hmarker]
      exact Bool.false_ne_true

end SqlCompiler.Reading
