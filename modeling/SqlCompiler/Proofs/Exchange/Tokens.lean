import SqlCompiler.Json.Writer

/-!
# The tokens of a document

The compact text of a document is split into the tokens of the document (`Document.run_compact`).
What a string is written with is taken back character by character (`run_escapeChar`), and a number
goes on until a character that ends it; so the text may be followed only by what ends a value
(`endsValue`).
-/

namespace SqlCompiler.Json

/-- The tokens of a text, from a state of the lexer on. -/
def Lexer.run : Lexer → List Char → List Token
  | l, [] => l.finish
  | l, c :: cs => (l.step c).1 ++ (l.step c).2.run cs

namespace Lexer

/-- The lexer reads one character and goes on. -/
@[simp]
theorem run_cons (l : Lexer) (c : Char) (cs : List Char) :
    l.run (c :: cs) = (l.step c).1 ++ (l.step c).2.run cs :=
  rfl

/-- A comma between values is a token. -/
theorem run_comma (cs : List Char) : ready.run (',' :: cs) = .comma :: ready.run cs :=
  rfl

/-- A colon between key and value is a token. -/
theorem run_colon (cs : List Char) : ready.run (':' :: cs) = .colon :: ready.run cs :=
  rfl

/-! ## Strings -/

/-- A hexadecimal digit is read as the number it is written for. -/
theorem hexDigit?_digitChar {n : Nat} (h : n < 16) : hexDigit? (Nat.digitChar n) = some n := by
  have hall : ∀ n < 16, hexDigit? (Nat.digitChar n) = some n := by decide
  exact hall n h

/-- A hexadecimal digit adds its value to the code, and the last one ends it. -/
theorem step_hex {c : Char} {d : Nat} (h : hexDigit? c = some d) (units : List Nat)
    (awaited value : Nat) :
    (hex units awaited value).step c
      = if awaited ≤ 1 then ([], .string ((16 * value + d) :: units))
        else ([], .hex units (awaited - 1) (16 * value + d)) := by
  simp only [step, h]

/-- What a character is written as is taken back as its code. -/
theorem run_escapeChar (c : Char) (units : List Nat) (rest : List Char) :
    (string units).run (escapeChar c ++ rest) = (string (c.toNat :: units)).run rest := by
  unfold escapeChar
  -- Seven characters have an escape of their own; other control characters are coded.
  split
  case h_8 hquote hbackslash _ _ _ _ _ =>
    split
    · next hcontrol =>
      -- Behind two zeros stand the two digits of the code.
      have hhigh := step_hex (hexDigit?_digitChar (n := c.toNat / 16) (by omega)) units 2 0
      have hlow := step_hex (hexDigit?_digitChar (n := c.toNat % 16) (by omega)) units 1
        (16 * 0 + c.toNat / 16)
      have hcode : 16 * (16 * 0 + c.toNat / 16) + c.toNat % 16 = c.toNat := by omega
      show (hex units 2 0).run ((c.toNat / 16).digitChar :: (c.toNat % 16).digitChar :: rest) = _
      rw [run_cons, hhigh, if_neg (by decide), run_cons, hlow, if_pos (Nat.le_refl 1), hcode]
      rfl
    · next hplain =>
      have hstep : (string units).step c = ([], .string (c.toNat :: units)) := by
        rw [step, if_neg hquote, if_neg hbackslash, if_neg hplain]
      rw [List.singleton_append, run_cons, hstep]
      rfl
  all_goals rfl

/-- The codes of characters are no surrogates, so they are joined to the characters again. -/
theorem joinUnits_map_toNat (cs : List Char) : joinUnits (cs.map Char.toNat) = some cs := by
  induction cs with
  | nil => rfl
  | cons c cs ih =>
    have hvalid : c.toNat < 0xd800 ∨ 0xdfff < c.toNat ∧ c.toNat < 0x110000 := c.valid
    rw [List.map_cons, joinUnits.eq_def]
    dsimp only
    rw [if_neg (by omega), if_neg (by omega), ih, Option.map_some, Char.ofNat_toNat]

/-- The rest of a string joins its codes to those before them. -/
theorem run_flatMap_escapeChar (cs : List Char) (units : List Nat) (rest : List Char) :
    (string units).run (cs.flatMap escapeChar ++ '"' :: rest)
      = .string ((joinUnits (units.reverse ++ cs.map Char.toNat)).map String.ofList)
        :: ready.run rest := by
  induction cs generalizing units with
  | nil =>
    rw [List.map_nil, List.append_nil]
    rfl
  | cons c cs ih =>
    rw [List.flatMap_cons, List.append_assoc, run_escapeChar, ih, List.reverse_cons,
      List.append_assoc, List.singleton_append, List.map_cons]

/-- A string is one token. -/
theorem run_stringChars (s : String) (rest : List Char) :
    ready.run (stringChars s ++ rest) = .string (some s) :: ready.run rest := by
  have hstring := run_flatMap_escapeChar s.toList [] rest
  rw [List.reverse_nil, List.nil_append, joinUnits_map_toNat, Option.map_some,
    String.ofList_toList] at hstring
  rw [stringChars, List.cons_append, List.append_assoc, List.singleton_append, ← hstring]
  rfl

/-! ## Numbers -/

/-- What follows a value in a text: nothing, or the end or the next part of what it stands in. -/
def endsValue : List Char → Bool
  | [] => true
  | c :: _ => c == ',' || c == ']' || c == '\x7d'

/-- A value ends at the end of the text, a comma or a closing bracket. -/
theorem endsValue_cases {rest : List Char} (h : endsValue rest = true) :
    rest = [] ∨ ∃ c cs, rest = c :: cs ∧ (c = ',' ∨ c = ']' ∨ c = '\x7d') := by
  cases rest with
  | nil => exact .inl rfl
  | cons c cs => exact .inr ⟨c, cs, rfl, by simpa [endsValue, or_assoc] using h⟩

/-- A number is over where a value is. -/
theorem run_numeral (n : Numeral) {part : NumeralPart} (hpart : part = .zero ∨ part = .whole)
    {rest : List Char} (h : endsValue rest = true) :
    (numeral n part).run rest = .number n :: ready.run rest := by
  obtain rfl | ⟨c, cs, rfl, rfl | rfl | rfl⟩ := endsValue_cases h <;>
    obtain rfl | rfl := hpart <;> rfl

/-- Digits go on with a number. -/
theorem run_digits (n : Numeral) {ds : List Char} (hds : ∀ d ∈ ds, isDigit d = true)
    {rest : List Char} (h : endsValue rest = true) :
    (numeral n .whole).run (ds ++ rest)
      = .number { n with whole := n.whole ++ ds } :: ready.run rest := by
  -- The numeral grows by one digit with each step.
  induction ds generalizing n with
  | nil => rw [List.nil_append, List.append_nil, run_numeral n (.inr rfl) h]
  | cons d ds ih =>
    obtain ⟨hd, hds⟩ := List.forall_mem_cons.mp hds
    have hstep : (numeral n .whole).step d
        = ([], .numeral { n with whole := n.whole ++ [d] } .whole) := by
      rw [step, stepNumeral, if_pos hd]
    rw [List.cons_append, run_cons, hstep, List.nil_append, ih _ hds, List.append_assoc]
    rfl

/-- A number that is not zero does not begin with a zero. -/
theorem exists_toDigits {n : Nat} (h : 0 < n) :
    ∃ d ds, Nat.toDigits 10 n = d :: ds ∧ d ≠ '0' := by
  induction n using Nat.strongRecOn with
  | ind n ih =>
    by_cases hlt : n < 10
    · have hdigit : ∀ m < 10, 0 < m → Nat.digitChar m ≠ '0' := by decide
      exact ⟨_, [], Nat.toDigits_of_lt_base hlt, hdigit n hlt h⟩
    · obtain ⟨d, ds, hds, hd⟩ := ih (n / 10) (by omega) (by omega)
      refine ⟨d, ds ++ [(n % 10).digitChar], ?_, hd⟩
      rw [Nat.toDigits_of_base_le (by decide) (by omega), hds, List.cons_append]

/-- The digits of a number are digits of the format. -/
theorem isDigit_of_mem_toDigits {n : Nat} {c : Char} (h : c ∈ Nat.toDigits 10 n) :
    isDigit c = true :=
  Nat.isDigit_of_mem_toDigits (by decide) (by decide) h

/-- A digit that is not zero begins a number. -/
theorem start_digit {d : Char} (hd : isDigit d = true) (hzero : d ≠ '0') :
    start d = ([], .numeral { negative := false, whole := [d] } .whole) := by
  have hall : ∀ n < 58, isDigit (Char.ofNat n) = true → Char.ofNat n ≠ '0' →
      Char.ofNat n ∈ ['1', '2', '3', '4', '5', '6', '7', '8', '9'] := by decide
  have hle : d.toNat ≤ 57 := by
    simp only [isDigit, Bool.and_eq_true, decide_eq_true_eq] at hd
    exact hd.2
  have hmem := hall d.toNat (by omega)
  rw [Char.ofNat_toNat] at hmem
  have hmem := hmem hd hzero
  simp only [List.mem_cons, List.not_mem_nil, or_false] at hmem
  rcases hmem with rfl | rfl | rfl | rfl | rfl | rfl | rfl | rfl | rfl <;> rfl

/-- The digits of a number, behind its sign if it has one. -/
theorem run_toDigits (negative : Bool) (k : Nat) {rest : List Char} (h : endsValue rest = true) :
    (if negative then numeral { negative := true, whole := [] } .sign else ready).run
        (Nat.toDigits 10 k ++ rest)
      = .number { negative, whole := Nat.toDigits 10 k } :: ready.run rest := by
  -- Zero is written as one digit, any other number begins with another one.
  obtain rfl | hpos := Nat.eq_zero_or_pos k
  · rw [Nat.toDigits_of_lt_base (by decide)]
    cases negative with
    | false => exact run_numeral { negative := false, whole := ['0'] } (.inl rfl) h
    | true => exact run_numeral { negative := true, whole := ['0'] } (.inl rfl) h
  · have hall : ∀ c ∈ Nat.toDigits 10 k, isDigit c = true := fun c => isDigit_of_mem_toDigits
    obtain ⟨d, ds, hds, hzero⟩ := exists_toDigits hpos
    rw [hds] at hall ⊢
    obtain ⟨hd, hrest⟩ := List.forall_mem_cons.mp hall
    rw [List.cons_append, run_cons]
    have hstep : (if negative then numeral { negative := true, whole := [] } .sign
        else ready).step d = ([], .numeral { negative, whole := [d] } .whole) := by
      cases negative with
      | false => exact start_digit hd hzero
      | true => simp only [if_true, step, stepNumeral, if_neg hzero, if_pos hd]
    rw [hstep, List.nil_append, run_digits _ hrest h]
    rfl

/-- An integer is one token. -/
theorem run_ofInt (n : Int) {rest : List Char} (h : endsValue rest = true) :
    ready.run ((Numeral.ofInt n).chars ++ rest) = .number (.ofInt n) :: ready.run rest := by
  have hchars : (Numeral.ofInt n).chars
      = (if n < 0 then ['-'] else []) ++ Nat.toDigits 10 n.natAbs := by
    simp [Numeral.chars, Numeral.ofInt]
  have hdigits := run_toDigits (n < 0) n.natAbs h
  rw [hchars]
  by_cases hneg : n < 0
  · have hsign : ready.step '-' = ([], .numeral { negative := true, whole := [] } .sign) := rfl
    rw [if_pos hneg, List.singleton_append, List.cons_append, run_cons, hsign]
    simpa [Numeral.ofInt, hneg] using hdigits
  · simpa [Numeral.ofInt, hneg] using hdigits

end Lexer

/-! ## Documents -/

mutual

/-- A document that is complete: every array and object is closed, every string is text, and the
numbers are integers. -/
def Document.IsPlain : Document → Prop
  | .null => True
  | .bool _ => True
  | .number n => ∃ k : Int, n = .ofInt k
  | .string s => ∃ text, s = some text
  | .array items closed => closed = true ∧ PlainItems items
  | .object members closed => closed = true ∧ PlainMembers members
  | .broken => False

/-- All items are plain. -/
def PlainItems : List Document → Prop
  | [] => True
  | d :: ds => d.IsPlain ∧ PlainItems ds

/-- All members are plain. -/
def PlainMembers : List Member → Prop
  | [] => True
  | ⟨k, v⟩ :: ms => (∃ text, k = some text) ∧ v.IsPlain ∧ PlainMembers ms

end

mutual

/-- The tokens of a document. -/
def Document.tokens : Document → List Token
  | .null => [.null]
  | .bool b => [.bool b]
  | .number n => [.number n]
  | .string s => [.string s]
  | .array items _ => .openArray :: (itemTokens items ++ [.closeArray])
  | .object members _ => .openObject :: (memberTokens members ++ [.closeObject])
  | .broken => [.bad]

/-- The tokens of items, with commas between them. -/
def itemTokens : List Document → List Token
  | [] => []
  | [d] => d.tokens
  | d :: ds => d.tokens ++ .comma :: itemTokens ds

/-- The tokens of members, with commas between them. -/
def memberTokens : List Member → List Token
  | [] => []
  | [⟨k, v⟩] => .string k :: .colon :: v.tokens
  | ⟨k, v⟩ :: ms => .string k :: .colon :: (v.tokens ++ .comma :: memberTokens ms)

end

open Lexer (ready endsValue)

mutual

/-- The text of a plain document is split into its tokens. -/
theorem Document.run_compact (d : Document) (hd : d.IsPlain) (rest : List Char)
    (h : endsValue rest = true) :
    ready.run (d.compact ++ rest) = d.tokens ++ ready.run rest := by
  -- Along the document, together with its items and members.
  match d, hd with
  | .null, _ => rfl
  | .bool true, _ => rfl
  | .bool false, _ => rfl
  | .number _, ⟨k, rfl⟩ => exact Lexer.run_ofInt k h
  | .string _, ⟨text, rfl⟩ => exact Lexer.run_stringChars text rest
  | .array items _, ⟨rfl, hitems⟩ =>
    have hrest : ready.run (']' :: rest) = .closeArray :: ready.run rest := rfl
    have htext : (Document.array items true).compact ++ rest
        = '[' :: (compactItems items ++ ']' :: rest) := by
      simp [Document.compact, closing]
    rw [htext, Lexer.run_cons]
    show .openArray :: ready.run _ = _
    rw [run_compactItems items hitems _ rfl, hrest]
    simp [Document.tokens]
  | .object members _, ⟨rfl, hmembers⟩ =>
    have hrest : ready.run ('\x7d' :: rest) = .closeObject :: ready.run rest := rfl
    have htext : (Document.object members true).compact ++ rest
        = '\x7b' :: (compactMembers members ++ '\x7d' :: rest) := by
      simp [Document.compact, closing]
    rw [htext, Lexer.run_cons]
    show .openObject :: ready.run _ = _
    rw [run_compactMembers members hmembers _ rfl, hrest]
    simp [Document.tokens]

/-- The compact text of list items is split into their tokens. -/
theorem run_compactItems (ds : List Document) (hds : PlainItems ds) (rest : List Char)
    (h : endsValue rest = true) :
    ready.run (compactItems ds ++ rest) = itemTokens ds ++ ready.run rest := by
  match ds, hds with
  | [], _ => rfl
  | [d], ⟨hd, _⟩ => exact d.run_compact hd rest h
  | d :: d' :: ds, ⟨hd, hds⟩ =>
    rw [compactItems, itemTokens, List.append_assoc, List.cons_append, d.run_compact hd _ rfl,
      Lexer.run_comma, run_compactItems (d' :: ds) hds rest h, List.append_assoc, List.cons_append]
    all_goals exact List.cons_ne_nil d' ds

/-- The compact text of members is split into their tokens. -/
theorem run_compactMembers (ms : List Member) (hms : PlainMembers ms) (rest : List Char)
    (h : endsValue rest = true) :
    ready.run (compactMembers ms ++ rest) = memberTokens ms ++ ready.run rest := by
  -- A comma stands only before a further member.
  match ms, hms with
  | [], _ => rfl
  | [⟨_, v⟩], ⟨⟨key, rfl⟩, hv, _⟩ =>
    rw [compactMembers, memberTokens, Option.getD_some, List.append_assoc, List.cons_append,
      Lexer.run_stringChars, Lexer.run_colon, v.run_compact hv rest h]
    rfl
  | ⟨_, v⟩ :: m :: ms, ⟨⟨key, rfl⟩, hv, hms⟩ =>
    rw [compactMembers, memberTokens, Option.getD_some]
    simp only [List.append_assoc, List.cons_append]
    rw [Lexer.run_stringChars, Lexer.run_colon, v.run_compact hv _ rfl, Lexer.run_comma,
      run_compactMembers (m :: ms) hms rest h]
    all_goals exact List.cons_ne_nil m ms

end

end SqlCompiler.Json
