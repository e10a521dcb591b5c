import TensorGraph.ElementType
import TensorGraph.Number.ShortFloats

/-!
# Elements

An element of a given type is a pattern of as many bits as the type has. This module says what
the patterns mean:

* `toFloat` -- the element as a double: single precision exactly, and 16-bit floating-point numbers
  through single precision; integers of up to 32 bits exactly, those of 64 bits to nearest, ties to
  even;
* `ofFloat` -- the element for a double: single precision rounds to nearest, ties to even; integer
  types drop the fraction, hold a number that is out of range at the end of the range, and take zero
  for what is no number;
* `agree` -- equality of elements as numbers, so that no NaN equals itself and the zeros of
  either sign are equal; integers are equal when their patterns are.

The conversions of 16-bit floating-point numbers are those of the instance of `ShortFloats`.
Copying an element never goes through its meaning: patterns are moved as they are.
-/

namespace TensorGraph

/-- How the patterns of an element type are read. -/
inductive Encoding where
  | short (format : ShortFormat)
  | binary (format : BinaryFormat)
  | unsigned
  | signed
  deriving DecidableEq, Repr

/-- How the patterns of each element type are read. -/
def ElementType.encoding : ElementType → Encoding
  | .f16 => .short .half
  | .bf16 => .short .brain
  | .f32 => .binary .single
  | .f64 => .binary .double
  | .u8 | .u32 => .unsigned
  | .i8 | .i32 | .i64 => .signed

/-- The fields of a floating-point pattern; integers have none. -/
def Encoding.layout? : Encoding → Option BinaryFormat
  | short format => some format.layout
  | binary format => some format
  | unsigned | signed => none

/-- The patterns of an element type. -/
abbrev Element (t : ElementType) : Type := BitVec t.bits

namespace Element

/-- What a double stands for. -/
def readingOfFloat (x : Float) : Reading := BinaryFormat.double.read x.toBits.toNat

/-- The double nearest to what is read. -/
def floatOfReading (r : Reading) : Float := Float.ofBits (.ofNat (BinaryFormat.double.write r))

/-- The double nearest to a whole number, a tie going to the even neighbour. -/
def floatOfInt (i : Int) : Float := floatOfReading (.ofInt i)

/-- The element as a double. -/
def toFloat [ShortFloats] {t : ElementType} (e : Element t) : Float :=
  match t.encoding with
  | .short format =>
    floatOfReading (BinaryFormat.single.read (ShortFloats.toSingle format (e.setWidth 16)).toNat)
  | .binary format => floatOfReading (format.read e.toNat)
  | .unsigned => floatOfInt e.toNat
  | .signed => floatOfInt (BitVec.toInt e)

/-- The integer of a range that is nearest to `i`. -/
def hold (least largest i : Int) : Int := max least (min largest i)

/-- The element for a double. -/
def ofFloat [ShortFloats] (t : ElementType) (x : Float) : Element t :=
  let r := readingOfFloat x
  match t.encoding with
  | .short format => (ShortFloats.ofDouble format x).setWidth _
  | .binary format => .ofNat _ (format.write r)
  | .unsigned => .ofInt _ (hold 0 (2 ^ t.bits - 1) (r.truncate (2 ^ t.bits)))
  | .signed =>
    .ofInt _ (hold (-(2 ^ (t.bits - 1))) (2 ^ (t.bits - 1) - 1) (r.truncate (2 ^ t.bits)))

/-- **Zero is the pattern without a bit** in every type; of the 16-bit formats that is what is asked of
    their conversions. -/
theorem ofFloat_zero [ShortFloats] (t : ElementType) : ofFloat t 0 = 0 := by
  have hzero : readingOfFloat 0 = .finite false 0 (-1074) := rfl
  unfold ofFloat
  dsimp only
  rw [hzero, Reading.truncate_zero]
  cases t with
  | f16 => exact congrArg (BitVec.setWidth _) (ShortFloats.ofDouble_zero .half)
  | bf16 => exact congrArg (BitVec.setWidth _) (ShortFloats.ofDouble_zero .brain)
  | _ => rfl

/-- Equality of two patterns of one element type, as numbers. -/
def agreeAs (t : ElementType) (a b : Nat) : Bool :=
  match t.encoding.layout? with
  | some format => format.agree a b
  | none => a == b

/-- Equality of elements, as numbers. -/
def agree {t : ElementType} (a b : Element t) : Bool := agreeAs t a.toNat b.toNat

/-- The element of an integer type as an integer. -/
def toInt {t : ElementType} (e : Element t) : Int :=
  match t.encoding with
  | .signed => BitVec.toInt e
  | .short _ | .binary _ | .unsigned => e.toNat

/-- Whether an element is no number. -/
def isNotANumber {t : ElementType} (e : Element t) : Bool :=
  match t.encoding.layout? with
  | some format => format.isNotANumber e.toNat
  | none => false

end Element

end TensorGraph
