import SqlCompiler.Text.Word

/-!
# Letters of any case

Two characters count as the same letter if they fold to the same one. Of the characters beyond
ASCII, the long s and the Kelvin sign fold to ASCII letters.
-/

namespace SqlCompiler.Text

/-- The lower-case ASCII letter that a character folds to, or the character itself. -/
def foldLetter (c : Char) : Char :=
  if c = 'ſ' then 's'
  else if c = 'K' then 'k'
  else c.toLower

/-- Takes letters, of any case, from the start of a text. -/
def dropLetters? : List Char → List Char → Option (List Char)
  | [], cs => some cs
  | _ :: _, [] => none
  | l :: ls, c :: cs => if foldLetter c = l then dropLetters? ls cs else none

/-- A text starts with a word in letters of any case, and the word ends there. -/
def startsWithWord (word cs : List Char) : Bool :=
  match dropLetters? word cs with
  | some [] => true
  | some (next :: _) => !isWord next
  | none => false

end SqlCompiler.Text
