import SqlCompiler.Json.Document

/-!
# Writing JSON

Two texts of a document: `compact` has no white space, and `pretty` gives each item and member a
line of its own, indented by two blanks a level. A string escapes the quote, the backslash and the
control characters.
-/

namespace SqlCompiler.Json

/-- One character of a string. -/
def escapeChar (c : Char) : List Char :=
  match c with
  | '"' => ['\\', '"']
  | '\\' => ['\\', '\\']
  | '\x08' => ['\\', 'b']
  | '\x0c' => ['\\', 'f']
  | '\n' => ['\\', 'n']
  | '\r' => ['\\', 'r']
  | '\t' => ['\\', 't']
  | c =>
    if c.toNat < 0x20 then
      ['\\', 'u', '0', '0', Nat.digitChar (c.toNat / 16), Nat.digitChar (c.toNat % 16)]
    else [c]

/-- A string between its quotes. -/
def stringChars (s : String) : List Char :=
  '"' :: (s.toList.flatMap escapeChar ++ ['"'])

/-- The end of an array or object, where the text has one. -/
def closing (closed : Bool) (c : Char) : List Char :=
  if closed then [c] else []

mutual

/-- The text of a document without white space. -/
def Document.compact : Document → List Char
  | .null => "null".toList
  | .bool b => (if b then "true" else "false").toList
  | .number n => n.chars
  | .string s => stringChars (s.getD "")
  | .array items closed => '[' :: (compactItems items ++ closing closed ']')
  | .object members closed => '\x7b' :: (compactMembers members ++ closing closed '\x7d')
  | .broken => []

/-- Items with commas between them. -/
def compactItems : List Document → List Char
  | [] => []
  | [d] => d.compact
  | d :: ds => d.compact ++ ',' :: compactItems ds

/-- Members with commas between them. -/
def compactMembers : List Member → List Char
  | [] => []
  | [⟨k, v⟩] => stringChars (k.getD "") ++ ':' :: v.compact
  | ⟨k, v⟩ :: ms =>
    stringChars (k.getD "") ++ ':' :: v.compact ++ ',' :: compactMembers ms

end

/-- A new line at a level of indentation. -/
def newline (level : Nat) : List Char :=
  '\n' :: List.replicate (2 * level) ' '

mutual

/-- The text of a document with a line for each item and member; `level` is the indentation. -/
def Document.prettyAt (level : Nat) : Document → List Char
  | .array [] closed => '[' :: closing closed ']'
  | .array items closed =>
    '[' :: (prettyItems (level + 1) items ++ newline level ++ closing closed ']')
  | .object [] closed => '\x7b' :: closing closed '\x7d'
  | .object members closed =>
    '\x7b' :: (prettyMembers (level + 1) members ++ newline level ++ closing closed '\x7d')
  | d => d.compact

/-- Items, each on a line of its own. -/
def prettyItems (level : Nat) : List Document → List Char
  | [] => []
  | [d] => newline level ++ d.prettyAt level
  | d :: ds => newline level ++ d.prettyAt level ++ ',' :: prettyItems level ds

/-- Members, each on a line of its own. -/
def prettyMembers (level : Nat) : List Member → List Char
  | [] => []
  | [⟨k, v⟩] => newline level ++ stringChars (k.getD "") ++ ':' :: ' ' :: v.prettyAt level
  | ⟨k, v⟩ :: ms =>
    newline level ++ stringChars (k.getD "") ++ ':' :: ' ' :: v.prettyAt level
      ++ ',' :: prettyMembers level ms

end

/-- The compact text as a string. -/
def Document.text (d : Document) : String :=
  String.ofList d.compact

/-- The indented text as a string. -/
def Document.pretty (d : Document) : String :=
  String.ofList (d.prettyAt 0)

end SqlCompiler.Json
