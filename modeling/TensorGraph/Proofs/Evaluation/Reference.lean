import TensorGraph.Operation
import TensorGraph.Program.Evaluation
import TensorGraph.Proofs.Tensor.Grid

/-!
# What a graph means

The meaning of a graph is a grid for each of its instructions, and it says nothing about strides and
buffers:

* `Operator.meaning` -- transposing, reshaping and broadcasting show the operand's elements at other
  positions, copying and the identity show them where they were, and arithmetic works position by
  position on the operands as doubles, the second one broadcast onto the first if there is an axis;
* `Operation.meaning` -- a kernel means what the arithmetic means that it replaces;
* `reference` -- the instructions one after the other, each over the grids of what it reads;
* `Module.outputGrids` -- the grids that a return instruction reads.

Operators that nobody can compute and outlines show nothing at any position. A reshape takes its
lengths from the shape that was inferred for it.
-/

namespace TensorGraph

variable [ShortFloats]

/-- What arithmetic means for two operands. -/
def Binary.meaning (b : Binary) (x y : Grid) : Grid :=
  .pointwise x.elementType b.arithmetic.apply x
    (match b.axis with
      | none => y
      | some axis => y.broadcast x.lengths axis)

/-- What an operator means for its operands, where `output` is the inferred shape. -/
def Operator.meaning (output : Shape) : Operator → List Grid → Grid
  | transpose dims, [g] => g.transpose dims
  | contiguous, [g] => g
  | reshape _, [g] => g.reshape output.lengths
  | broadcast axis, [target, g] => g.broadcast target.lengths axis
  | unary .identity, [g] => g
  | binary b, [x, y] => b.meaning x y
  | _, _ => .blank output.elementType output.lengths

/-- What an operation means for its operands. -/
def Operation.meaning (output : Shape) : Operation → List Grid → Grid
  | catalog o, grids => o.meaning output grids
  | kernel b, grids => (Operator.binary b).meaning output grids
  | checkContext _, _ => .blank output.elementType output.lengths

/-- What an instruction means over the grids of the instructions before it. A parameter means what it
    is bound to, and the return shows nothing. -/
def Instruction.meaning (bindings : Bindings) (grids : List Grid) (ins : Instruction Operation) :
    Grid :=
  match ins.kind with
  | .parameter name =>
    ((bindings name).map Tensor.grid).getD (.blank ins.shape.elementType ins.shape.lengths)
  | .literal value => value.grid
  | .operation op => op.meaning ins.shape (ins.inputs.filterMap (grids[·]?))
  | .result => Tensor.empty.grid

/-- What instructions mean, one after the other, after the grids that are given. -/
def reference (bindings : Bindings) : List Grid → List (Instruction Operation) → List Grid
  | grids, [] => grids
  | grids, ins :: rest => reference bindings (grids ++ [ins.meaning bindings grids]) rest

/-- What a module means: a grid for each of its instructions. -/
def Module.reference (m : Module Operation) (bindings : Bindings) : List Grid :=
  TensorGraph.reference bindings [] m.instructions

/-- What the results of a module mean, none as long as there is no return instruction. -/
def Module.outputGrids (m : Module Operation) (bindings : Bindings) : List Grid :=
  match m.returnAt.bind m.instruction? with
  | some ins => ins.inputs.filterMap ((m.reference bindings)[·]?)
  | none => []

end TensorGraph
