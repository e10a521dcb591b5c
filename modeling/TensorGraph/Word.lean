/-!
# Words of 64 bits

Lengths, strides and attributes are natural numbers here, and what limits them is a word of 64
bits. This module holds the three ways in which the limit shows:

* `clamp` -- a count that only has to be an upper mark is held at the largest word;
* `product?` -- a count that has to be exact is refused as soon as a partial product leaves the
  word, even when a later factor is zero;
* `signed` -- a word read as a signed number, the upper half standing for negative numbers.
-/

namespace TensorGraph

/-! ## 1. Built-in arithmetic

The powers of numbers, and the zero and the one of their sums and products, are the built-in ones in every
module, whatever else the module knows about numbers. -/

attribute [default_instance 20000] instPowNat

instance (priority := 2000) builtInPower : Pow Nat Nat := instPowNat

instance (priority := 2000) builtInSignedPower : Pow Int Nat := instPowNat

instance (priority := 2000) builtInZero : Zero Nat := Zero.ofOfNat0

instance (priority := 2000) builtInOne : One Nat := One.ofOfNat1

/-! ## 2. Words -/

namespace Word

/-- The number of words: `2 ^ 64`. -/
def bound : Nat := 2 ^ 64

/-- The largest word. -/
def largest : Nat := bound - 1

/-- A number held at the largest word when it is larger. -/
def clamp (n : Nat) : Nat := min largest n

/-- The product of a list taken from the left, starting at `accumulated`; `none` as soon as a
    partial product is no word. -/
def productFrom? (accumulated : Nat) : List Nat → Option Nat
  | [] => some accumulated
  | n :: rest =>
    if accumulated * n < bound then productFrom? (accumulated * n) rest else none

/-- The product of a list as a word, `none` as soon as a partial product from the left is none. -/
def product? (values : List Nat) : Option Nat := productFrom? 1 values

/-- A word read as a signed number: from `2 ^ 63` on it stands for a negative one. -/
def signed (n : Nat) : Int := Int.bmod n bound

/-- Whether an integer is one that a signed word holds. -/
def isSigned (i : Int) : Bool := decide (-(2 ^ 63) ≤ i) && decide (i < 2 ^ 63)

end Word

end TensorGraph
