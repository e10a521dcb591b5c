import TensorGraph.Operands

/-!
# Matrix products

`[m, k]` times `[k, n]` gives the standard shape `[m, n]`. The strides of the operands play no
part.
-/

namespace TensorGraph.Gemm

/-- The name of the operator. -/
def name : String := "gemm"

/-- The shape of the product. -/
def infer (shapes : List Shape) : Outcome Shape := do
  let operands : Operands := ⟨some name, shapes⟩
  let (left, right) ← operands.two
  operands.sameType
  operands.rank 2
  match left.lengths, right.lengths with
  | [m, k], [k', n] =>
    if k ≠ k' then Outcome.failIn name (.innerLengths [m, k] [k', n])
    else .ok (Shape.standard left.elementType [m, n])
  | _, _ => Outcome.failIn name (.rankUnsupported 2)

end TensorGraph.Gemm
