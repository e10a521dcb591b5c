import TensorGraph.Tensor

/-!
# Dialects

Graphs and programs do not know which operators there are. What they need of the operators is
gathered in two classes:

* `Signature` -- what building a graph needs: the name of an operator, its text in listings, and
  the shape it gives for operand shapes;
* `Dialect` -- what evaluation needs besides: a kernel, which may change a context of the
  dialect's own, even when it fails.
-/

namespace TensorGraph

/-- Operators that a graph can be built of. -/
class Signature (Op : Type) where
  name : Op → String
  /-- The text of an operator in listings, name and attributes. -/
  text : Op → String
  /-- The shape of the result for the shapes of the operands. -/
  infer : Op → List Shape → Outcome Shape

/-- Operators that can be evaluated, with the type of context they run in. -/
class Dialect (Op : Type) (Ctx : outParam Type) extends Signature Op where
  /-- Runs an operator for the inferred shape and the arguments. A buffer that it makes takes the
      given identity. The context is handed back also when the operator fails. -/
  run : Op → (output : Shape) → (args : List Tensor) → (identity : Nat) → Ctx → Outcome Tensor × Ctx

end TensorGraph
