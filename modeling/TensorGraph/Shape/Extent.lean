import TensorGraph.Error

/-!
# How much a shape holds

Two numbers say how much a shape holds: how many logical elements it has, and how many buffer
elements a view of it can reach. As numbers they are exact and always there; whoever computes with
them works in words of 64 bits, and then a number that leaves its word on the way is a fault -- or,
where it was foreseen, an error.

* `Shape.elementCount` -- the number of logical elements, the product of the lengths;
* `Shape.elementCount?` -- the same number for callers that can tell about it: an error once a
  partial product from the left leaves 64 bits;
* `Shape.elementCountWord` -- the same number for callers that take it for granted: a fault in that
  case;
* `Shape.bufferReach` -- how many buffer elements a view of this shape can reach: one past the
  largest offset, and nothing at all when some length is zero;
* `Shape.bufferReachWord`, `Shape.bytesWord` -- the reach in elements and in bytes, as words.
-/

namespace TensorGraph.Shape

/-! ## 1. Elements -/

/-- The number of logical elements, 1 for a shape without axes. -/
def elementCount (s : Shape) : Nat := s.lengths.prod

/-- The number of logical elements as a word, refused once a partial product is none. -/
def elementCount? (s : Shape) : Outcome Nat :=
  match Word.product? s.lengths with
  | some n => .ok n
  | none => Outcome.fail (.countOverflows s.lengths)

/-- The number of logical elements as a word, a fault once a partial product is none. -/
def elementCountWord (s : Shape) : Outcome Nat := Outcome.ofOption (Word.product? s.lengths)

/-! ## 2. Reach -/

/-- The largest offset along the axes: every coordinate at its last position. -/
def lastOffset (axes : List Axis) : Nat := (axes.map fun a => (a.length - 1) * a.stride).sum

/-- One past the largest offset that an index reaches, 0 when there is no index. -/
def bufferReach (s : Shape) : Nat := if s.elementCount = 0 then 0 else lastOffset s.axes + 1

/-- The reach as a word, which takes the number of elements to be one as well. No summand exceeds
    the sum, so it is enough to look at the sum. -/
def bufferReachWord (s : Shape) : Outcome Nat := do
  let count ← s.elementCountWord
  if count = 0 then return 0
  Outcome.word (lastOffset s.axes + 1)

/-- The bytes of a buffer that backs the shape, as a word. -/
def bytesWord (s : Shape) : Outcome Nat := do
  let reach ← s.bufferReachWord
  Outcome.word (reach * s.elementType.bytes)

/-! ## 3. Words and exact numbers -/

/-- Where the elements can be counted, both ways to ask for their number answer with it. -/
theorem elementCount?_eq_ok_iff (s : Shape) (n : Nat) :
    s.elementCount? = .ok n ↔ s.elementCountWord = .ok n := by
  unfold elementCount? elementCountWord Outcome.ofOption
  cases Word.product? s.lengths <;> simp [Outcome.fail, Outcome.fault]

end TensorGraph.Shape
