import TensorGraph.Element

/-!
# Conversions of 16-bit numbers that round to nearest

Half precision and the upper half of single precision are part of single precision, so the conversion
to it is exact. The one from double precision rounds once, to the nearest number of the format, a tie
going to the even neighbour, and to an infinity beyond the largest finite number.
-/

namespace TensorGraph

/-- The conversions that round to nearest. -/
instance nearestShortFloats : ShortFloats where
  toSingle format pattern := .ofNat 32 (BinaryFormat.single.write (format.layout.read pattern.toNat))
  ofDouble format x := .ofNat 16 (format.layout.write (Element.readingOfFloat x))
  ofDouble_zero format := by cases format <;> rfl

example : Element.toFloat (Element.ofFloat .f16 1.5) = 1.5 := rfl

end TensorGraph
