import TensorGraph.Operator.Convolution
import TensorGraph.Operator.Elementwise
import TensorGraph.Operator.Gemm
import TensorGraph.Operator.Layout
import TensorGraph.Operator.Pooling
import TensorGraph.Shape.Record

/-!
# The catalog of operators

`Operator` lists every operator that a graph can name. For each one the catalog says

* its name and its attributes as text, `name[attributes]` together (`Operator.text`);
* the shape it gives for the shapes of its operands (`Operator.infer`), which looks at no element;
* what it computes, where it can be computed without a target (`Operator.run`);
* how it is made of a name and an attribute value (`Operator.ofValue`).

Operators are equal when they are the same operator with the same attributes.
-/

namespace TensorGraph

/-- An operator of the catalog with its attributes. -/
inductive Operator where
  | convolution (attributes : Convolution)
  | pooling (attributes : Pooling)
  | gemm
  | activation (mode : ActivationMode)
  | unary (function : UnaryFunction)
  | binary (attributes : Binary)
  | transpose (dims : List Nat)
  | contiguous
  | reshape (dims : List Int)
  | broadcast (axis : Nat)
  /-- Declares a value by its shape alone. -/
  | outline (shape : Shape)
  deriving DecidableEq, Repr

namespace Outline

/-- The name of the operator. -/
def name : String := "outline"

/-- The declared shape; it takes no operand, and its element count has to be a word. -/
def infer (shape : Shape) (shapes : List Shape) : Outcome Shape := do
  (Operands.mk (some name) shapes).none
  discard (shape.elementCount?.withOperator name)
  return shape

/-- Reads the shape, which has no default. -/
def ofValue? (v : Value) : Option Shape :=
  match v.slots? ["shape"] with
  | some [shape] => shape.bind Shape.ofValue?
  | _ => none

end Outline

namespace Operator

/-! ## 1. Texts -/

/-- The name of an operator. -/
def name : Operator → String
  | convolution _ => Convolution.name
  | pooling _ => Pooling.name
  | gemm => Gemm.name
  | activation _ => Activation.name
  | unary f => f.name
  | binary b => b.name
  | transpose _ => Transpose.name
  | contiguous => Contiguous.name
  | reshape _ => Reshape.name
  | broadcast _ => Alignment.name
  | outline _ => Outline.name

/-- The attributes of an operator as text, nothing for an operator that shows none. -/
def attributes : Operator → String
  | convolution c => c.attributes
  | pooling p => p.attributes
  | gemm | contiguous | unary _ => ""
  | activation mode => Activation.attributes mode
  | binary b => b.attributes
  | transpose dims => "dims=" ++ Text.bracedNats dims
  | reshape dims => "dims=" ++ Text.braced (dims.map Int.repr)
  | broadcast axis => "axis=" ++ axis.repr
  | outline shape => "shape=" ++ Text.braced [shape.text]

/-- The name, followed by the attributes between square brackets if there are any. -/
def text (o : Operator) : String :=
  if o.attributes = "" then o.name else o.name ++ "[" ++ o.attributes ++ "]"

/-! ## 2. Inference and computation -/

/-- The shape of the result for the shapes of the operands. -/
def infer : Operator → List Shape → Outcome Shape
  | convolution c, shapes => c.infer shapes
  | pooling p, shapes => p.infer shapes
  | gemm, shapes => Gemm.infer shapes
  | activation _, shapes => Activation.infer shapes
  | unary f, shapes => f.infer shapes
  | binary b, shapes => b.infer shapes
  | transpose dims, shapes => Transpose.infer dims shapes
  | contiguous, shapes => Contiguous.infer shapes
  | reshape dims, shapes => Reshape.infer dims shapes
  | broadcast axis, shapes => Alignment.infer axis shapes
  | outline shape, shapes => Outline.infer shape shapes

/-- The result for the inferred shape and the arguments. A new buffer takes the given identity.
    Operators without a kernel are left to the targets. -/
def run (output : Shape) (args : List Tensor) (identity : Nat) : Operator → Outcome Tensor
  | unary f => f.run args
  | transpose _ => Transpose.run output args
  | contiguous => Contiguous.run args identity
  | reshape _ => Reshape.run output args
  | broadcast _ => Alignment.run output args
  | outline _ => .ok (Tensor.placeholder output)
  | o@(convolution _) | o@(pooling _) | o@gemm | o@(activation _) | o@(binary _) =>
    Outcome.failIn o.name .noKernel

/-! ## 3. Making operators of attribute values -/

/-- Reads the attributes of an operator that has none. -/
def bare (o : Operator) (v : Value) : Option Operator := (v.slots? []).map fun _ => o

/-- How the operator of a name reads its attributes. -/
def reader? (name : String) : Option (Value → Option Operator) :=
  if name = Convolution.name then some fun v => (Convolution.ofValue? v).map convolution
  else if name = Pooling.name then some fun v => (Pooling.ofValue? v).map pooling
  else if name = Gemm.name then some (bare gemm)
  else if name = Activation.name then some fun v => (Activation.ofValue? v).map activation
  else if name = Transpose.name then some fun v => (Transpose.ofValue? v).map transpose
  else if name = Contiguous.name then some (bare contiguous)
  else if name = Reshape.name then some fun v => (Reshape.ofValue? v).map reshape
  else if name = Alignment.name then some fun v => (Alignment.ofValue? v).map broadcast
  else if name = Outline.name then some fun v => (Outline.ofValue? v).map outline
  else
    match UnaryFunction.ofName? name, Arithmetic.ofName? name with
    | some f, _ => some (bare (unary f))
    | none, some a => some fun v => (Binary.axisOfValue? v).map fun axis => binary ⟨a, axis⟩
    | none, none => none

/-- The names of the catalog in alphabetical order. -/
def names : List String :=
  ([Convolution.name, Pooling.name, Gemm.name, Activation.name, Transpose.name, Contiguous.name,
      Reshape.name, Alignment.name, Outline.name] ++ UnaryFunction.all.map UnaryFunction.name ++
    Arithmetic.all.map Arithmetic.name).mergeSort fun a b => decide (a ≤ b)

/-- Whether the catalog has an operator of that name. -/
def isKnown (name : String) : Bool := (reader? name).isSome

/-- The operator of a name and an attribute value, where null stands for no attributes. -/
def ofValue (name : String) (attributes : Value) : Outcome Operator :=
  match reader? name with
  | none => Outcome.fail (.unknownOperator name)
  | some read =>
    let attributes := match attributes with | .null => .record [] | v => v
    match read attributes with
    | some o => .ok o
    | none => Outcome.failIn name .invalidAttributes

end Operator

end TensorGraph
