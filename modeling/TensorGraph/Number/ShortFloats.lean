import TensorGraph.Number.BinaryFormat

/-!
# Floating-point numbers of 16 bits

The numbers of two element types take 16 bits. How their patterns are laid out is known, and it is what
tells which of them are equal and which are no numbers. How such a number is converted is not the
library's own: the conversions are supplied from outside, as an instance of `ShortFloats`, and
everything that converts elements is stated for any of them.

* `ShortFormat` -- the two formats, and `ShortFormat.layout` their fields;
* `ShortFloats` -- a conversion from each format to single precision and one from double precision,
  of which no more is asked than that zero converts to zero. One that rounds to nearest is in
  `TensorGraph.Number.Nearest`.
-/

namespace TensorGraph

/-- The floating-point formats of 16 bits. -/
inductive ShortFormat where
  /-- Half precision. -/
  | half
  /-- The upper half of single precision. -/
  | brain
  deriving DecidableEq, Repr

/-- The fields of a format. -/
def ShortFormat.layout : ShortFormat → BinaryFormat
  | half => ⟨5, 10⟩
  | brain => ⟨8, 7⟩

/-- Conversions of numbers of 16 bits. -/
class ShortFloats where
  /-- The single-precision pattern of a number. -/
  toSingle : ShortFormat → BitVec 16 → BitVec 32
  /-- The pattern that stands for a double. -/
  ofDouble : ShortFormat → Float → BitVec 16
  /-- Zero is the pattern without a bit. -/
  ofDouble_zero : ∀ format, ofDouble format 0 = 0

end TensorGraph
