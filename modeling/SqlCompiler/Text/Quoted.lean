import SqlCompiler.Text.Unprintable

/-!
# Quoted text

Two ways to put text between quotes. `doubled` is SQL's: every quote inside is written twice.
`escaped` shows text on one line: the quote, the backslash and the line ends get a backslash, and an
unprintable character is spelled by its code point.

`doubled` is `quote_string`.
-/

namespace SqlCompiler.Text

/-- Writes each `quote` twice and all else once. -/
def double (quote : Char) : List Char → List Char
  | [] => []
  | c :: cs => if c = quote then quote :: quote :: double quote cs else c :: double quote cs

/-- Text between quotes, with the quotes inside doubled. -/
def doubled (quote : Char) (s : String) : String :=
  String.ofList (quote :: (double quote s.toList ++ [quote]))

/-- One character of escaped text. -/
def escape (c : Char) : List Char :=
  match c with
  | '\x00' => ['\\', '0']
  | '\t' => ['\\', 't']
  | '\r' => ['\\', 'r']
  | '\n' => ['\\', 'n']
  | '\\' => ['\\', '\\']
  | '"' => ['\\', '"']
  | c =>
    if isUnprintable c then "\\u\x7b".toList ++ Nat.toDigits 16 c.toNat ++ "\x7d".toList
    else [c]

/-- Text between double quotes, with escapes. -/
def escaped (s : String) : String :=
  String.ofList ('"' :: (s.toList.flatMap escape ++ ['"']))

end SqlCompiler.Text
