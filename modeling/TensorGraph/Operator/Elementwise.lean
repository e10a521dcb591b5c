import TensorGraph.Shape.Broadcast
import TensorGraph.Operands
import TensorGraph.Tensor
import TensorGraph.Value

/-!
# Operators that work element by element

* `Activation` -- activation functions of neural networks, one operator with a mode;
* `UnaryFunction` -- functions of one operand, an operator each;
* `Arithmetic`, `Binary` -- the four operations, where the second operand may be broadcast onto
  the first.

All of them give the shape of their first operand, strides included. Only the identity can be
computed here: it hands back its operand, buffer and all. `Arithmetic.apply` says what the four
operations do to one pair of elements, for targets that have kernels.
-/

namespace TensorGraph

/-! ## 1. Activation functions -/

/-- The activation functions. -/
inductive ActivationMode where
  | relu
  | sigmoid
  | tanh
  | elu
  | clippedRelu
  | leakyRelu
  deriving DecidableEq, Repr

namespace ActivationMode

/-- The activation that is meant when none is named. -/
instance : Inhabited ActivationMode := ⟨.relu⟩

/-- All activation functions, in the order in which they are listed. -/
def all : List ActivationMode := [.relu, .sigmoid, .tanh, .elu, .clippedRelu, .leakyRelu]

/-- The name of an activation function. -/
def name : ActivationMode → String
  | relu => "relu"
  | sigmoid => "sigmoid"
  | tanh => "tanh"
  | elu => "elu"
  | clippedRelu => "clipped_relu"
  | leakyRelu => "leaky_relu"

/-- The activation function of a name. -/
def ofName? (text : String) : Option ActivationMode := all.find? fun m => m.name == text

/-- The activation function of a name, or an error that shows the name. -/
def parse (text : String) : Outcome ActivationMode :=
  match ofName? text with
  | some mode => .ok mode
  | none => Outcome.failIn "activation" (.unknownActivationMode text)

end ActivationMode

/-- The shape of an operator that keeps the shape of its only operand. -/
def inferSame (operator : String) (shapes : List Shape) : Outcome Shape :=
  (Operands.mk (some operator) shapes).one

namespace Activation

/-- The name of the operator. -/
def name : String := "activation"

/-- The shape of the operand. -/
def infer (shapes : List Shape) : Outcome Shape := inferSame name shapes

/-- The mode as text. -/
def attributes (mode : ActivationMode) : String := "mode=" ++ mode.name

/-- Reads the mode; a missing one takes its default. -/
def ofValue? (v : Value) : Option ActivationMode :=
  match v.slots? ["mode"] with
  | some [mode] => Value.fieldOr default (Value.choice? ActivationMode.ofName?) mode
  | _ => none

end Activation

/-! ## 2. Functions of one operand -/

/-- The functions of one operand. -/
inductive UnaryFunction where
  | identity
  | abs
  | exp
  | sin
  | cos
  | tan
  | asin
  | acos
  | atan
  | softmax
  | tanh
  | sigmoid
  | neg
  deriving DecidableEq, Repr

namespace UnaryFunction

/-- All functions of one operand, in the order in which they are listed. -/
def all : List UnaryFunction :=
  [.identity, .abs, .exp, .sin, .cos, .tan, .asin, .acos, .atan, .softmax, .tanh, .sigmoid, .neg]

/-- The name of a function, which is also the name of its operator. -/
def name : UnaryFunction → String
  | identity => "identity"
  | abs => "abs"
  | exp => "exp"
  | sin => "sin"
  | cos => "cos"
  | tan => "tan"
  | asin => "asin"
  | acos => "acos"
  | atan => "atan"
  | softmax => "softmax"
  | tanh => "tanh"
  | sigmoid => "sigmoid"
  | neg => "neg"

/-- The function of a name. -/
def ofName? (text : String) : Option UnaryFunction := all.find? fun f => f.name == text

/-- The function of a name, or an error that shows the name. -/
def parse (text : String) : Outcome UnaryFunction :=
  match ofName? text with
  | some f => .ok f
  | none => Outcome.fail (.unknownUnary text)

/-- The shape of the operand. -/
def infer (f : UnaryFunction) (shapes : List Shape) : Outcome Shape := inferSame f.name shapes

/-- The identity hands back its operand; no other function has a kernel here. -/
def run (f : UnaryFunction) (args : List Tensor) : Outcome Tensor :=
  match f, args with
  | .identity, [x] => .ok x
  | _, _ => Outcome.failIn f.name .noKernel

end UnaryFunction

/-! ## 3. Arithmetic -/

/-- The four operations. -/
inductive Arithmetic where
  | add
  | sub
  | mul
  | div
  deriving DecidableEq, Repr

namespace Arithmetic

/-- All four operations, in the order in which they are listed. -/
def all : List Arithmetic := [.add, .sub, .mul, .div]

/-- The name of an operation, which is also the name of its operator. -/
def name : Arithmetic → String
  | add => "add"
  | sub => "sub"
  | mul => "mul"
  | div => "div"

/-- The operation of a name. -/
def ofName? (text : String) : Option Arithmetic := all.find? fun a => a.name == text

/-- The operation of a name, or an error that shows the name. -/
def parse (text : String) : Outcome Arithmetic :=
  match ofName? text with
  | some a => .ok a
  | none => Outcome.fail (.unknownBinary text)

/-- What an operation does to two elements. -/
def apply : Arithmetic → Float → Float → Float
  | add, x, y => x + y
  | sub, x, y => x - y
  | mul, x, y => x * y
  | div, x, y => x / y

end Arithmetic

/-- An operation on two operands. With an axis, the second operand is broadcast onto the first
    at that axis; without one, the two have the same lengths. -/
structure Binary where
  arithmetic : Arithmetic
  axis : Option Nat
  deriving DecidableEq, Repr

namespace Binary

/-- The name of the operator. -/
def name (b : Binary) : String := b.arithmetic.name

/-- The shape of the first operand, if the second fits it. -/
def infer (b : Binary) (shapes : List Shape) : Outcome Shape := do
  let operands : Operands := ⟨some b.name, shapes⟩
  let (left, right) ← operands.two
  operands.sameType
  match b.axis with
  | none => operands.sameLengths
  | some axis => discard ((Shape.broadcast left right axis).withOperator b.name)
  return left

/-- The axis as text, nothing when there is none. -/
def attributes (b : Binary) : String :=
  match b.axis with
  | some axis => "broadcast=" ++ axis.repr
  | none => ""

/-- Reads the axis; a missing one and null mean that there is none. -/
def axisOfValue? (v : Value) : Option (Option Nat) :=
  match v.slots? ["broadcast"] with
  | some [axis] => Value.fieldOr none (Value.nullable? Value.nat?) axis
  | _ => none

end Binary

end TensorGraph
