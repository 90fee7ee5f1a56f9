import SqlCompiler.Number.Numeral

/-!
# JSON tokens

The lexical level of JSON as a machine that takes one character at a time (`Lexer.step`) and gives
out the tokens that are complete. Where the text leaves the lexical grammar the machine gives out
one last token, `bad`, and stays silent from there on: a reader meets the tokens before it first.
-/

namespace SqlCompiler.Json

/-- A token of JSON. -/
inductive Token where
  | null
  | bool (b : Bool)
  | number (n : Numeral)
  /-- A string, or none where its escapes leave a surrogate without its partner. -/
  | string (s : Option String)
  | openArray
  | closeArray
  | openObject
  | closeObject
  | comma
  | colon
  /-- The text is no token from here on. -/
  | bad
  deriving DecidableEq

/-- White space between tokens. -/
def isSpace (c : Char) : Bool :=
  c == ' ' || c == '\n' || c == '\t' || c == '\r'

/-- A decimal digit. -/
def isDigit (c : Char) : Bool :=
  '0' ≤ c && c ≤ '9'

/-- The value of a hexadecimal digit of either case. -/
def hexDigit? (c : Char) : Option Nat :=
  if isDigit c then some (c.toNat - '0'.toNat)
  else if 'a' ≤ c && c ≤ 'f' then some (c.toNat - 'a'.toNat + 10)
  else if 'A' ≤ c && c ≤ 'F' then some (c.toNat - 'A'.toNat + 10)
  else none

/-- Joins code units to text: a high surrogate and the low one after it are one character, and every
other surrogate spoils the text. -/
def joinUnits : List Nat → Option (List Char)
  | [] => some []
  | u :: rest =>
    if 0xd800 ≤ u ∧ u ≤ 0xdbff then
      match rest with
      | v :: rest =>
        if 0xdc00 ≤ v ∧ v ≤ 0xdfff then
          (joinUnits rest).map (Char.ofNat ((u - 0xd800) * 0x400 + (v - 0xdc00) + 0x10000) :: ·)
        else none
      | [] => none
    else if 0xdc00 ≤ u ∧ u ≤ 0xdfff then none
    else (joinUnits rest).map (Char.ofNat u :: ·)

/-- Which part of a numeral the last character belonged to. -/
inductive NumeralPart where
  | sign
  | zero
  | whole
  | point
  | fraction
  | mark
  | exponentSign
  | exponent
  deriving DecidableEq

/-- Where the lexer stands between characters. -/
inductive Lexer where
  /-- Between tokens. -/
  | ready
  /-- Inside a word; the rest of its letters are awaited. -/
  | word (awaited : List Char) (token : Token)
  /-- Inside a numeral. -/
  | numeral (n : Numeral) (part : NumeralPart)
  /-- Inside a string, with its code units so far, the last one first. -/
  | string (units : List Nat)
  /-- After a backslash in a string. -/
  | escape (units : List Nat)
  /-- Inside a hexadecimal escape, with the number of digits awaited and the value so far. -/
  | hex (units : List Nat) (awaited value : Nat)
  /-- After the last token. -/
  | failed

namespace Lexer

/-- The text left the grammar. -/
def fail : List Token × Lexer :=
  ([.bad], .failed)

/-- A character between tokens. -/
def start (c : Char) : List Token × Lexer :=
  if isSpace c then ([], .ready)
  else if c = '[' then ([.openArray], .ready)
  else if c = ']' then ([.closeArray], .ready)
  else if c = '\x7b' then ([.openObject], .ready)
  else if c = '\x7d' then ([.closeObject], .ready)
  else if c = ',' then ([.comma], .ready)
  else if c = ':' then ([.colon], .ready)
  else if c = '"' then ([], .string [])
  else if c = 'n' then ([], .word ['u', 'l', 'l'] .null)
  else if c = 't' then ([], .word ['r', 'u', 'e'] (.bool true))
  else if c = 'f' then ([], .word ['a', 'l', 's', 'e'] (.bool false))
  else if c = '-' then ([], .numeral { negative := true, whole := [] } .sign)
  else if c = '0' then ([], .numeral { negative := false, whole := ['0'] } .zero)
  else if isDigit c then ([], .numeral { negative := false, whole := [c] } .whole)
  else fail

/-- Ends a numeral before `c`, which starts the next token. -/
def endNumeral (n : Numeral) (c : Char) : List Token × Lexer :=
  let (tokens, next) := start c
  (.number n :: tokens, next)

/-- The numeral with one more digit in its exponent. -/
def addExponent (n : Numeral) (c : Char) : Numeral :=
  match n.exponent with
  | some e => { n with exponent := some { e with digits := e.digits ++ [c] } }
  | none => { n with exponent := some ⟨.absent, [c]⟩ }

/-- A character inside a numeral. -/
def stepNumeral (n : Numeral) (part : NumeralPart) (c : Char) : List Token × Lexer :=
  match part with
  | .sign =>
    if c = '0' then ([], .numeral { n with whole := ['0'] } .zero)
    else if isDigit c then ([], .numeral { n with whole := [c] } .whole)
    else fail
  | .zero =>
    -- A leading zero stands alone.
    if isDigit c then fail
    else if c = '.' then ([], .numeral n .point)
    else if c = 'e' ∨ c = 'E' then ([], .numeral { n with exponent := some ⟨.absent, []⟩ } .mark)
    else endNumeral n c
  | .whole =>
    if isDigit c then ([], .numeral { n with whole := n.whole ++ [c] } .whole)
    else if c = '.' then ([], .numeral n .point)
    else if c = 'e' ∨ c = 'E' then ([], .numeral { n with exponent := some ⟨.absent, []⟩ } .mark)
    else endNumeral n c
  | .point =>
    if isDigit c then ([], .numeral { n with fraction := [c] } .fraction) else fail
  | .fraction =>
    if isDigit c then ([], .numeral { n with fraction := n.fraction ++ [c] } .fraction)
    else if c = 'e' ∨ c = 'E' then ([], .numeral { n with exponent := some ⟨.absent, []⟩ } .mark)
    else endNumeral n c
  | .mark =>
    if c = '+' then ([], .numeral { n with exponent := some ⟨.plus, []⟩ } .exponentSign)
    else if c = '-' then ([], .numeral { n with exponent := some ⟨.minus, []⟩ } .exponentSign)
    else if isDigit c then ([], .numeral (addExponent n c) .exponent)
    else fail
  | .exponentSign =>
    if isDigit c then ([], .numeral (addExponent n c) .exponent) else fail
  | .exponent =>
    if isDigit c then ([], .numeral (addExponent n c) .exponent) else endNumeral n c

/-- The character that a one-letter escape stands for. -/
def shortEscape? (c : Char) : Option Char :=
  match c with
  | '"' => some '"'
  | '\\' => some '\\'
  | '/' => some '/'
  | 'b' => some '\x08'
  | 'f' => some '\x0c'
  | 'n' => some '\n'
  | 'r' => some '\r'
  | 't' => some '\t'
  | _ => none

/-- Takes one character, and gives out the tokens that it completes. -/
def step (l : Lexer) (c : Char) : List Token × Lexer :=
  match l with
  | .ready => start c
  | .word awaited token =>
    match awaited with
    | a :: rest =>
      if c = a then
        if rest.isEmpty then ([token], .ready) else ([], .word rest token)
      else fail
    | [] => fail
  | .numeral n part => stepNumeral n part c
  | .string units =>
    if c = '"' then ([.string ((joinUnits units.reverse).map String.ofList)], .ready)
    else if c = '\\' then ([], .escape units)
    else if c.toNat < 0x20 then fail
    else ([], .string (c.toNat :: units))
  | .escape units =>
    if c = 'u' then ([], .hex units 4 0)
    else
      match shortEscape? c with
      | some e => ([], .string (e.toNat :: units))
      | none => fail
  | .hex units awaited value =>
    match hexDigit? c with
    | some d =>
      let value := 16 * value + d
      if awaited ≤ 1 then ([], .string (value :: units)) else ([], .hex units (awaited - 1) value)
    | none => fail
  | .failed => ([], .failed)

/-- The tokens that the end of the text completes. -/
def finish : Lexer → List Token
  | .ready | .failed => []
  | .numeral n .zero | .numeral n .whole | .numeral n .fraction | .numeral n .exponent =>
    [.number n]
  | _ => [.bad]

end Lexer

end SqlCompiler.Json
