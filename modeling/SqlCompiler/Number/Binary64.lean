/-!
# Binary floating-point numbers

A `Binary64` is the 64-bit binary interchange format by its bits: one sign bit, eleven exponent
bits and fifty-two fraction bits. The tree holds floats this way, so that a zero's sign and a NaN's
sign are kept. A finite number is `±significand * 2 ^ scale`.
-/

namespace SqlCompiler

/-- A 64-bit binary floating-point number, as its bit pattern. -/
structure Binary64 where
  /-- Sign, exponent and fraction, from the highest bit down. -/
  bits : UInt64
  deriving DecidableEq, Inhabited

namespace Binary64

/-- The sign bit is set. Zeros and NaNs have a sign too. -/
def isNegative (x : Binary64) : Bool :=
  Nat.pow 2 63 ≤ x.bits.toNat

/-- The biased exponent. -/
def exponentField (x : Binary64) : Nat :=
  x.bits.toNat / Nat.pow 2 52 % Nat.pow 2 11

/-- The fraction, without the leading one of a normal number. -/
def fractionField (x : Binary64) : Nat :=
  x.bits.toNat % Nat.pow 2 52

/-- All exponent bits set mark the infinities and the NaNs. -/
def isFinite (x : Binary64) : Bool :=
  x.exponentField != 2047

/-- A NaN has all exponent bits set and a fraction. -/
def isNaN (x : Binary64) : Bool :=
  x.exponentField == 2047 && x.fractionField != 0

/-- Both zeros. -/
def isZero (x : Binary64) : Bool :=
  x.exponentField == 0 && x.fractionField == 0

/-- The integer `m` of a finite number `±m * 2 ^ q`. -/
def significand (x : Binary64) : Nat :=
  if x.exponentField = 0 then x.fractionField else x.fractionField + Nat.pow 2 52

/-- The exponent `q` of a finite number `±m * 2 ^ q`. -/
def scale (x : Binary64) : Int :=
  if x.exponentField = 0 then -1074 else (x.exponentField : Int) - 1075

/-- The number below is half as far away as the number above: the significand is the least of its
binade, and there is a binade below. -/
def isBinadeStart (x : Binary64) : Bool :=
  x.fractionField == 0 && 1 < x.exponentField

/-- Numeric equality: a NaN differs from itself, and the two zeros are equal. -/
def numericEq (x y : Binary64) : Bool :=
  !x.isNaN && !y.isNaN && (x.bits == y.bits || (x.isZero && y.isZero))

/-- The number that a machine float holds. -/
def ofFloat (x : Float) : Binary64 :=
  ⟨x.toBits⟩

/-- The float nearest to a natural number, ties to even. -/
def ofNat (n : Nat) : Binary64 :=
  ofFloat (Float.ofNat n)

/-- The same magnitude with the sign bit flipped. -/
def neg (x : Binary64) : Binary64 :=
  ⟨x.bits ^^^ 0x8000000000000000⟩

/-- A quiet NaN with the given sign. -/
def nan (negative : Bool) : Binary64 :=
  ⟨if negative then 0xfff8000000000000 else 0x7ff8000000000000⟩

/-- An infinity with the given sign. -/
def infinity (negative : Bool) : Binary64 :=
  ⟨if negative then 0xfff0000000000000 else 0x7ff0000000000000⟩

end Binary64

end SqlCompiler
