import TensorGraph.Element
import TensorGraph.Error

/-!
# Storage

A storage is a row of elements of one type. It knows nothing of axes: which element belongs to
which position is a matter of the shape through which it is read.

* `Storage.ofFloats` -- doubles converted to the element type, one by one;
* `Storage.gather` -- the elements at given offsets, moved as they are; an offset past the end is
  a fault, so whoever gathers has to know that the offsets are inside;
* `Storage.agree` -- same type, same size and equal elements, where equality is that of numbers:
  a storage that holds a NaN does not agree with itself.
-/

namespace TensorGraph

/-- Elements of one type in a row. -/
structure Storage where
  elementType : ElementType
  cells : Array (Element elementType)

namespace Storage

/-- Doubles converted to the element type. -/
def ofFloats [ShortFloats] (t : ElementType) (values : List Float) : Storage :=
  ⟨t, (values.map (Element.ofFloat t)).toArray⟩

/-- Bit patterns taken as elements; bits above the element's own are dropped. -/
def ofPatterns (t : ElementType) (patterns : List Int) : Storage :=
  ⟨t, (patterns.map (BitVec.ofInt t.bits)).toArray⟩

/-- `n` zeros. -/
def zeros [ShortFloats] (t : ElementType) (n : Nat) : Storage :=
  ⟨t, Array.replicate n (Element.ofFloat t 0)⟩

/-- The number of elements. -/
def size (s : Storage) : Nat := s.cells.size

/-- The element at an offset as a double, if there is one. -/
def float? [ShortFloats] (s : Storage) (offset : Nat) : Option Float := s.cells[offset]?.map Element.toFloat

/-- All elements as doubles. -/
def floats [ShortFloats] (s : Storage) : List Float := s.cells.toList.map Element.toFloat

/-- All elements converted through doubles to another type. -/
def convert [ShortFloats] (s : Storage) (t : ElementType) : Storage := ofFloats t s.floats

/-- The bit pattern at an offset, if there is one. -/
def pattern? (s : Storage) (offset : Nat) : Option Nat := s.cells[offset]?.map BitVec.toNat

/-- The bit patterns of all elements. -/
def patterns (s : Storage) : List Nat := s.cells.toList.map BitVec.toNat

/-- **A storage of zeros has no bit set.** -/
theorem patterns_zeros [ShortFloats] (t : ElementType) (n : Nat) :
    (zeros t n).patterns = List.replicate n 0 := by
  unfold patterns zeros
  rw [Element.ofFloat_zero, Array.toList_replicate, List.map_replicate]
  rfl

/-- The elements at the given offsets, bit for bit, or a fault if one of them is past the end. -/
def gather (s : Storage) (offsets : List Nat) : Outcome Storage :=
  match offsets.mapM (s.cells[·]?) with
  | some cells => .ok ⟨s.elementType, cells.toArray⟩
  | none => Outcome.fault

/-- Same type, same size, and elements that are equal as numbers. -/
def agree (a b : Storage) : Bool :=
  a.elementType == b.elementType &&
    a.patterns.isEqv b.patterns (Element.agreeAs a.elementType)

/-- Storages are compared by `agree`. -/
instance : BEq Storage := ⟨agree⟩

end Storage

end TensorGraph
