import TensorGraph.Shape.Extent

/-!
# Requirements on operand shapes

An operator begins its shape inference by saying what it requires of its operands. Each
requirement holds or fails with an error that names the operator, when the operands carry a name.
A requirement on all operands compares every one with the first, and is met when there is none.
`Operands.one` and `Operands.two` require a number of operands and hand them out.
-/

namespace TensorGraph

/-- The shapes an operator is applied to, and the name that errors about them carry. -/
structure Operands where
  operator : Option String
  shapes : List Shape

namespace Operands

/-! ## 1. Requirements -/

/-- The projection `f` gives the same value for every shape. -/
def agree {α : Type} [BEq α] (o : Operands) (f : Shape → α) : Bool :=
  match o.shapes with
  | [] => true
  | first :: _ => o.shapes.all fun s => f s == f first

/-- Holds, or fails with the cause in the operator's name. -/
def require (o : Operands) (holds : Bool) (cause : Cause) : Outcome Unit :=
  if holds then .ok () else Outcome.failFor o.operator cause

/-- There are exactly `n` operands. -/
def count (o : Operands) (n : Nat) : Outcome Unit :=
  o.require (o.shapes.length == n) (.argumentCount n o.shapes.length)

/-- Every operand has rank `n`. -/
def rank (o : Operands) (n : Nat) : Outcome Unit :=
  o.require (o.shapes.all fun s => s.rank == n) (.rankUnsupported n)

/-- Every operand has rank `n` or more. -/
def leastRank (o : Operands) (n : Nat) : Outcome Unit :=
  o.require (o.shapes.all fun s => decide (n ≤ s.rank)) (.rankTooSmall n)

/-- All operands are equal in type, lengths and strides. -/
def sameShape (o : Operands) : Outcome Unit :=
  o.require (o.agree id) .shapesDiffer

/-- All operands have one element type. -/
def sameType (o : Operands) : Outcome Unit :=
  o.require (o.agree Shape.elementType) (.typesDiffer (o.shapes.map Shape.elementType))

/-- All operands have the same lengths. -/
def sameLengths (o : Operands) : Outcome Unit :=
  o.require (o.agree Shape.lengths) (.lengthsDiffer (o.shapes.map Shape.lengths))

/-- All operands have the same rank. -/
def sameRank (o : Operands) : Outcome Unit :=
  o.require (o.agree Shape.rank) (.operandRanksDiffer (o.shapes.map Shape.lengths))

/-! ## 2. Taking the operands -/

/-- There is no operand. -/
def none (o : Operands) : Outcome Unit := o.count 0

/-- The only operand. -/
def one (o : Operands) : Outcome Shape :=
  match o.shapes with
  | [a] => .ok a
  | shapes => Outcome.failFor o.operator (.argumentCount 1 shapes.length)

/-- The two operands. -/
def two (o : Operands) : Outcome (Shape × Shape) :=
  match o.shapes with
  | [a, b] => .ok (a, b)
  | shapes => Outcome.failFor o.operator (.argumentCount 2 shapes.length)

end Operands

end TensorGraph
