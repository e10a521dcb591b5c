import TensorGraph.Word

/-!
# Binary floating-point formats

A format is given by the widths of its exponent and fraction fields. A pattern of the format is a
natural number: the sign bit on top, the exponent field under it and the fraction field at the
bottom. A pattern reads as a `Reading`: not a number, an infinity, or a number
`± significand * 2 ^ exponent`, which is exact.

* `BinaryFormat.read` -- what a pattern stands for;
* `BinaryFormat.write` -- the pattern nearest to a number, a tie going to the even neighbour, and
  an infinity for a number that rounds beyond the largest finite one;
* `BinaryFormat.agree` -- equality of numbers: no NaN equals anything, and the two zeros are equal.

Reading in one format and writing in another is the conversion between them; it rounds once.
-/

namespace TensorGraph

/-- What a floating-point pattern stands for. -/
inductive Reading where
  | notANumber
  | infinite (negative : Bool)
  /-- The number `± significand * 2 ^ exponent`. -/
  | finite (negative : Bool) (significand : Nat) (exponent : Int)
  deriving DecidableEq, Repr

/-- A binary floating-point format with a sign bit, an exponent field and a fraction field. -/
structure BinaryFormat where
  exponentBits : Nat
  fractionBits : Nat
  deriving DecidableEq, Repr

namespace BinaryFormat

/-- Single precision. -/
def single : BinaryFormat := ⟨8, 23⟩

/-- Double precision. -/
def double : BinaryFormat := ⟨11, 52⟩

variable (f : BinaryFormat)

/-- The weight of the sign bit. -/
def signWeight : Nat := 2 ^ (f.exponentBits + f.fractionBits)

/-- The exponent field of infinities and NaNs: all ones. -/
def topField : Nat := 2 ^ f.exponentBits - 1

/-- The pattern of positive infinity. -/
def infinity : Nat := f.topField * 2 ^ f.fractionBits

/-- The exponent of the last place of subnormal numbers and of the smallest normal ones. -/
def leastExponent : Int := 2 - 2 ^ (f.exponentBits - 1) - f.fractionBits

/-- Whether the pattern has its sign bit set. -/
def isNegative (pattern : Nat) : Bool := decide (f.signWeight ≤ pattern)

/-- The pattern without its sign bit. -/
def magnitude (pattern : Nat) : Nat := pattern % f.signWeight

/-- Whether the pattern is no number. -/
def isNotANumber (pattern : Nat) : Bool := decide (f.infinity < f.magnitude pattern)

/-- Numbers are equal: neither pattern is a NaN, and the patterns agree or are both zeros. -/
def agree (a b : Nat) : Bool :=
  !f.isNotANumber a && !f.isNotANumber b &&
    (a == b || (f.magnitude a == 0 && f.magnitude b == 0))

/-- What a pattern stands for. The leading one of a normal number is not stored. -/
def read (pattern : Nat) : Reading :=
  let negative := f.isNegative pattern
  let field := f.magnitude pattern / 2 ^ f.fractionBits
  let fraction := f.magnitude pattern % 2 ^ f.fractionBits
  if field = f.topField then
    if fraction = 0 then .infinite negative else .notANumber
  else if field = 0 then .finite negative fraction f.leastExponent
  else .finite negative (2 ^ f.fractionBits + fraction) (f.leastExponent + (field - 1))

/-- `significand / 2 ^ shift` as an integer, to nearest, a tie going to the even neighbour. -/
def roundShift (significand shift : Nat) : Nat :=
  let quotient := significand / 2 ^ shift
  let rest := significand % 2 ^ shift
  if 2 ^ shift < 2 * rest then quotient + 1
  else if 2 ^ shift = 2 * rest then quotient + quotient % 2
  else quotient

/-- The pattern of the magnitude `significand * 2 ^ exponent`. The number is rounded to the last
    place of its own size, and never to a finer one than the format has. In units of that place
    it is added to the pattern of the place itself, so that rounding up to the next power of two
    moves on to the next exponent by itself. -/
def writeMagnitude (significand : Nat) (exponent : Int) : Nat :=
  if significand = 0 then 0
  else
    let place := max f.leastExponent (exponent + (significand.log2 : Int) - f.fractionBits)
    let units :=
      if place ≤ exponent then significand * 2 ^ (exponent - place).toNat
      else roundShift significand (place - exponent).toNat
    min f.infinity ((place - f.leastExponent).toNat * 2 ^ f.fractionBits + units)

/-- The pattern nearest to what is read. The NaN that is written is the quiet one without a sign. -/
def write : Reading → Nat
  | .notANumber => f.infinity + 2 ^ (f.fractionBits - 1)
  | .infinite negative => f.infinity + if negative then f.signWeight else 0
  | .finite negative significand exponent =>
    f.writeMagnitude significand exponent + if negative then f.signWeight else 0

end BinaryFormat

/-- The number of a reading without its fraction, toward zero; an infinity counts as a number
    beyond `bound`, and what is no number counts as zero. -/
def Reading.truncate (bound : Nat) : Reading → Int
  | .notANumber => 0
  | .infinite negative => if negative then -bound else bound
  | .finite negative significand exponent =>
    let magnitude : Nat :=
      if 0 ≤ exponent then significand * 2 ^ exponent.toNat
      else significand / 2 ^ (-exponent).toNat
    if negative then -magnitude else magnitude

@[simp] theorem Reading.truncate_zero (bound : Nat) (exponent : Int) :
    truncate bound (.finite false 0 exponent) = 0 := by
  simp [truncate]

/-- A whole number as a reading. -/
def Reading.ofInt (i : Int) : Reading := .finite (decide (i < 0)) i.natAbs 0

end TensorGraph
