import SqlCompiler.Number.Binary64

/-!
# Shortest decimals

`Binary64.shortest` is the decimal with the fewest digits that reads back as a given finite number,
and of those the nearest to it. The reals that read back as `m * 2 ^ q` are an interval around it
whose ends belong to it exactly when `m` is even. For each number of digits the two neighbours of
the value on that decimal grid are tried: if any point of a grid lies in the interval, one of them
does.
-/

namespace SqlCompiler

/-- Which of two equally near decimals is taken. -/
inductive Tie where
  /-- The one whose last digit is even. -/
  | toEven
  /-- The larger one. -/
  | up
  deriving DecidableEq

/-- The decimal `digits * 10 ^ exponent`. -/
structure Decimal where
  /-- The digits, read as one natural number. -/
  digits : Nat
  /-- The power of ten. -/
  exponent : Int
  deriving DecidableEq

namespace Decimal

/-- The number of decimal digits of a natural number; zero has one. -/
def length (n : Nat) : Nat :=
  (Nat.toDigits 10 n).length

/-- Drops up to `fuel` trailing zeros, so that the last digit counts. -/
def strip : Nat → Decimal → Decimal
  | 0, d => d
  | fuel + 1, d =>
    if d.digits % 10 = 0 then strip fuel ⟨d.digits / 10, d.exponent + 1⟩ else d

end Decimal

/-- A positive fraction with the interval of fractions that round to it, all over one
denominator. -/
structure Neighbourhood where
  /-- The lower end. -/
  low : Nat
  /-- The value itself. -/
  value : Nat
  /-- The upper end. -/
  high : Nat
  /-- The common denominator. -/
  denominator : Nat
  /-- The ends belong to the interval. -/
  closed : Bool

namespace Neighbourhood

/-- The neighbourhood of a positive finite number: half a unit up, and half a unit down or a quarter
where the binade below has a finer grid. -/
def of (x : Binary64) : Neighbourhood :=
  let m := x.significand
  let up := Nat.pow 2 x.scale.toNat
  let below := if x.isBinadeStart then 1 else 2
  { low := (4 * m - below) * up
    value := 4 * m * up
    high := (4 * m + 2) * up
    denominator := 4 * Nat.pow 2 (-x.scale).toNat
    closed := m % 2 == 0 }

/-- The decimal exponent of the leading digit of the value. -/
def leading (n : Neighbourhood) : Int :=
  if n.denominator ≤ n.value then
    (Decimal.length (n.value / n.denominator) : Int) - 1
  else
    -(Decimal.length ((n.denominator - 1) / n.value) : Int)

/-- The decimal `d * 10 ^ e` reads back as the value. -/
def admits (n : Neighbourhood) (d : Nat) (e : Int) : Bool :=
  let point := d * Nat.pow 10 e.toNat * n.denominator
  let unit := Nat.pow 10 (-e).toNat
  if n.closed then n.low * unit ≤ point && point ≤ n.high * unit
  else n.low * unit < point && point < n.high * unit

/-- Of the neighbours `d` and `d + 1` on the grid of `10 ^ e`, the one nearer to the value. -/
def nearer (n : Neighbourhood) (tie : Tie) (d : Nat) (e : Int) : Nat :=
  let twice := 2 * n.value * Nat.pow 10 (-e).toNat
  let middle := (2 * d + 1) * Nat.pow 10 e.toNat * n.denominator
  if twice < middle then d
  else if middle < twice then d + 1
  else match tie with
    | .up => d + 1
    | .toEven => if d % 2 = 0 then d else d + 1

/-- The neighbour on the grid of `10 ^ e` that reads back as the value, if there is one. -/
def onGrid? (n : Neighbourhood) (tie : Tie) (e : Int) : Option Nat :=
  let d := n.value * Nat.pow 10 (-e).toNat / (n.denominator * Nat.pow 10 e.toNat)
  match n.admits d e, n.admits (d + 1) e with
  | true, true => some (n.nearer tie d e)
  | true, false => some d
  | false, true => some (d + 1)
  | false, false => none

/-- Tries ever finer grids, `more` of them after the first. Seventeen digits always suffice. -/
def search (n : Neighbourhood) (tie : Tie) : Nat → Int → Decimal
  | 0, e => ⟨n.value * Nat.pow 10 (-e).toNat / (n.denominator * Nat.pow 10 e.toNat), e⟩
  | more + 1, e =>
    match n.onGrid? tie e with
    | some d => ⟨d, e⟩
    | none => search n tie more (e - 1)

end Neighbourhood

/-- The fewest digits that read back as the magnitude of a finite number; zero is `0 * 10 ^ 0`. -/
def Binary64.shortest (tie : Tie) (x : Binary64) : Decimal :=
  if x.significand = 0 then ⟨0, 0⟩
  else
    let n := Neighbourhood.of x
    (n.search tie 17 n.leading).strip 17

end SqlCompiler
