import SqlCompiler.Text.Blank
import SqlCompiler.Text.Caseless

/-!
# The text of orderings

An ordering may be raw text that holds several terms. `splitTerms` takes such a text apart at its
commas and keeps parenthesized parts together. A term's direction is a last word `ASC` or `DESC`, in
letters of any case.

`splitOrderText` is `split_order_string`, `isDescending` is `trailing_desc`, and `bareTerm` takes
off what `sort_direction` matches.
-/

namespace SqlCompiler.OrderText

/-- The parts of a text between its commas. -/
def splitCommas : List Char → List (List Char)
  | [] => [[]]
  | c :: cs =>
    if c = ',' then [] :: splitCommas cs
    else
      match splitCommas cs with
      | [] => [[c]]
      | part :: parts => (c :: part) :: parts

/-- Parts without the empty ones at the end. -/
def dropTrailingEmpty (parts : List (List Char)) : List (List Char) :=
  (parts.reverse.dropWhile (·.isEmpty)).reverse

/-- As many parentheses close as open. -/
def isBalanced (cs : List Char) : Bool :=
  cs.count '(' == cs.count ')'

/-- Joins parts until their parentheses balance; `pending` is what has not balanced yet. -/
def joinBalanced : Option (List Char) → List (List Char) → List (List Char)
  | none, [] => []
  | some pending, [] => [pending]
  | pending, part :: parts =>
    let term :=
      match pending with
      | some pending => pending ++ ',' :: part
      | none => part
    if isBalanced term then term :: joinBalanced none parts else joinBalanced (some term) parts

/-- The terms of a list, with the blanks around them. -/
def splitTerms (text : List Char) : List (List Char) :=
  joinBalanced none (dropTrailingEmpty (splitCommas text))

/-- The term ends in the word `DESC`, up to blanks. -/
def isDescending (term : List Char) : Bool :=
  match Text.dropLetters? "csed".toList (Text.trimEnd term).reverse with
  | some [] => true
  | some (before :: _) => !Text.isWord before
  | none => false

/-- The length of the word `ASC` or `DESC` at the start of a text. -/
def directionLength? (cs : List Char) : Option Nat :=
  if Text.startsWithWord "asc".toList cs then some 3
  else if Text.startsWithWord "desc".toList cs then some 4
  else none

/-- Drops directions with the blanks before them. `skip` characters are still part of a direction,
and `blanks` have been passed, the last one first. -/
def dropDirectionsFrom (skip : Nat) (blanks : List Char) : List Char → List Char
  | [] => blanks.reverse
  | c :: cs =>
    match skip with
    | skip + 1 => dropDirectionsFrom skip [] cs
    | 0 =>
      if Text.isBlank c then dropDirectionsFrom 0 (c :: blanks) cs
      else
        match blanks, directionLength? (c :: cs) with
        | _ :: _, some length => dropDirectionsFrom (length - 1) [] cs
        | _, _ => blanks.reverse ++ c :: dropDirectionsFrom 0 [] cs

/-- A term without the directions in it and the blanks around it. -/
def bareTerm (term : List Char) : List Char :=
  Text.trim (dropDirectionsFrom 0 [] term)

end SqlCompiler.OrderText

namespace SqlCompiler

/-- The terms of an ordering text. -/
def splitOrderText (text : String) : List String :=
  (OrderText.splitTerms text.toList).map String.ofList

end SqlCompiler
