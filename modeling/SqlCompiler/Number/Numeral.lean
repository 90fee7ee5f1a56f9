import SqlCompiler.Number.Shortest

/-!
# Numerals

A `Numeral` is a number as it is spelled: a sign, whole digits, fraction digits and an exponent.
`Numeral.reading` says which number a numeral denotes, and `Layout.numeral` spells a float's
shortest decimal, positionally for the exponents of its range and with an exponent elsewhere.
-/

namespace SqlCompiler

/-- The sign written before an exponent's digits. -/
inductive ExponentSign where
  | absent
  | plus
  | minus
  deriving DecidableEq

/-- The exponent of a numeral. -/
structure Exponent where
  /-- The sign, as written. -/
  sign : ExponentSign
  /-- The digits, as written. -/
  digits : List Char
  deriving DecidableEq

/-- A number as it is spelled in decimal. -/
structure Numeral where
  /-- A minus sign stands in front. -/
  negative : Bool
  /-- The digits before the point. -/
  whole : List Char
  /-- The digits after the point; none if there is no point. -/
  fraction : List Char := []
  /-- The exponent, if one is written. -/
  exponent : Option Exponent := none
  deriving DecidableEq

/-- The number that a numeral denotes: numerals without point and exponent are integers. -/
inductive Reading where
  | integer (n : Int)
  | float (x : Binary64)
  deriving DecidableEq

/-- The value of a digit. -/
def Numeral.digitValue (c : Char) : Nat :=
  c.toNat - '0'.toNat

/-- The natural number that a run of digits denotes. -/
def Numeral.natural (digits : List Char) : Nat :=
  digits.foldl (fun n c => 10 * n + Numeral.digitValue c) 0

/-- A 64-bit significand that takes up leading digits while they fit. -/
structure Significand where
  /-- The digits taken so far. -/
  value : Nat := 0
  /-- The number of digits taken. -/
  taken : Nat := 0
  /-- The number of digits left out. -/
  dropped : Nat := 0

/-- Takes up one digit. Once a digit of the run has not fitted, all later ones are left out too. -/
def Significand.push (s : Significand) (c : Char) : Significand :=
  let grown := 10 * s.value + Numeral.digitValue c
  if s.dropped = 0 ∧ grown < UInt64.size then { s with value := grown, taken := s.taken + 1 }
  else { s with dropped := s.dropped + 1 }

/-- The power of ten as a float, for exponents up to 308. -/
def Numeral.power (e : Nat) : Float :=
  Float.ofScientific 1 false e

/-- Divides by a power of ten, in steps of at most `10 ^ 308`. -/
def Numeral.shrink (x : Float) (e : Nat) : Float :=
  if e ≤ 308 then x / Numeral.power e
  else if x == 0 then x
  else Numeral.shrink (x / Numeral.power 308) (e - 308)
termination_by e

/-- The float `x * 10 ^ e`, rounded by one product or quotient; none beyond the largest float. -/
def Numeral.scaled? (x : Float) (e : Int) : Option Float :=
  if e < 0 then some (Numeral.shrink x (-e).toNat)
  else if e ≤ 308 then
    let y := x * Numeral.power e.toNat
    if y.isInf then none else some y
  else if x == 0 then some x
  else none

namespace Numeral

/-- The value of the written exponent. -/
def exponentValue (n : Numeral) : Int :=
  match n.exponent with
  | none => 0
  | some e => if e.sign = .minus then -(natural e.digits : Int) else natural e.digits

/-- The float that a numeral denotes: the digits that fit into 64 bits, scaled by a power of ten.
None if it is too large. -/
def float? (n : Numeral) : Option Binary64 :=
  let whole := n.whole.foldl Significand.push {}
  let all := n.fraction.foldl Significand.push { value := whole.value }
  let e := (whole.dropped : Int) - all.taken + n.exponentValue
  (scaled? (Float.ofNat all.value) e).map fun x =>
    if n.negative then (Binary64.ofFloat x).neg else Binary64.ofFloat x

/-- The number that a numeral denotes, or none if it is beyond the largest float. An integer below
`-2 ^ 63` or from `2 ^ 64` on is read as a float, and so is a negative zero. -/
def reading? (n : Numeral) : Option Reading :=
  let value := natural n.whole
  if n.fraction = [] ∧ n.exponent = none ∧ value < UInt64.size then
    if n.negative then
      if 0 < value ∧ value ≤ Nat.pow 2 63 then some (.integer (-(value : Int)))
      else some (.float (Binary64.ofNat value).neg)
    else some (.integer value)
  else n.float?.map .float

/-- The plain spelling of an integer. -/
def ofInt (n : Int) : Numeral :=
  { negative := n < 0, whole := Nat.toDigits 10 n.natAbs }

/-- The characters of an exponent's sign. -/
def signText : ExponentSign → List Char
  | .absent => []
  | .plus => ['+']
  | .minus => ['-']

/-- A numeral's characters. -/
def chars (n : Numeral) : List Char :=
  (if n.negative then ['-'] else []) ++ n.whole
    ++ (if n.fraction = [] then [] else '.' :: n.fraction)
    ++ (match n.exponent with
      | none => []
      | some e => 'e' :: (signText e.sign ++ e.digits))

/-- A numeral's text. -/
def text (n : Numeral) : String :=
  String.ofList n.chars

end Numeral

/-- How floats are written. -/
structure Layout where
  /-- The least exponent of the leading digit that is written positionally. -/
  least : Int
  /-- The exponents from here on are written with an exponent. -/
  beyond : Int
  /-- The sign before an exponent that is not negative. -/
  plus : ExponentSign
  /-- Which of two equally near shortest decimals is written. -/
  tie : Tie

namespace Layout

/-- A decimal with point: at least one digit on either side. -/
def positional (digits : List Char) (leading : Int) : List Char × List Char :=
  if leading < 0 then
    (['0'], List.replicate (-leading - 1).toNat '0' ++ digits)
  else
    let count := leading.toNat + 1
    let padded := digits ++ List.replicate (count - digits.length) '0'
    let fraction := padded.drop count
    (padded.take count, if fraction.isEmpty then ['0'] else fraction)

/-- The numeral of a finite float. -/
def numeral (l : Layout) (x : Binary64) : Numeral :=
  let d := x.shortest l.tie
  let digits := Nat.toDigits 10 d.digits
  let leading := d.exponent + digits.length - 1
  if l.least ≤ leading ∧ leading < l.beyond then
    let (whole, fraction) := positional digits leading
    { negative := x.isNegative, whole, fraction }
  else
    { negative := x.isNegative
      whole := digits.take 1
      fraction := digits.drop 1
      exponent := some
        { sign := if leading < 0 then .minus else l.plus
          digits := Nat.toDigits 10 leading.natAbs } }

/-- A float's text; the numbers that are not finite are written as words. -/
def text (l : Layout) (x : Binary64) : String :=
  if x.isNaN then "NaN"
  else if x.isFinite then (l.numeral x).text
  else if x.isNegative then "-inf"
  else "inf"

end Layout

end SqlCompiler
