import TensorGraph.Context
import TensorGraph.Dialect
import TensorGraph.Operator.Catalog

/-!
# Operations

The operators that programs hold in practice: those of the catalog, the kernels that the CPU target
puts in the place of arithmetic, and a check of the context. They make up a dialect over `Context`.

* `Kernel` -- arithmetic that can be computed. It infers what the arithmetic infers, counts itself
  in the CPU context, and works on doubles: both operands are read as doubles, the rule of the
  arithmetic is applied pair by pair, and the results are converted to the inferred element type.
  Its result is row-major, whatever the inferred strides.
* the check of the context takes any operands, ignores them, and gives an empty placeholder.
-/

namespace TensorGraph

namespace Kernel

/-- The name of the kernel of an arithmetic operator. -/
def name (b : Binary) : String := "cpu::" ++ b.name

/-- The second argument as the arithmetic wants it: broadcast onto the first, if there is an axis. -/
def secondArgument (b : Binary) (left right : Tensor) : Outcome Tensor :=
  match b.axis with
  | none => .ok right
  | some axis => do
    let shape ← Shape.broadcast left.shape right.shape axis
    right.view shape

/-- The result for two arguments, in a buffer of the given identity. -/
def compute [ShortFloats] (b : Binary) (output : Shape) (args : List Tensor) (identity : Nat) :
    Outcome Tensor :=
  match args with
  | left :: right :: _ => do
    let right ← secondArgument b left right
    let xs ← left.floats
    let ys ← right.floats
    let values := List.zipWith b.arithmetic.apply xs ys
    Tensor.ofBuffer output.toStandard ⟨identity, Storage.ofFloats output.elementType values⟩
  | _ => Outcome.fault

/-- Counts the kernel, then computes; a context that does not count is an error. -/
def run [ShortFloats] (b : Binary) (output : Shape) (args : List Tensor) (identity : Nat) (ctx : Context) :
    Outcome Tensor × Context :=
  match ctx.countKernel (name b) with
  | .error f => (.error f, ctx)
  | .ok after => (compute b output args identity, after)

end Kernel

/-- An operator of a program. -/
inductive Operation where
  /-- An operator of the catalog. -/
  | catalog (operator : Operator)
  /-- Arithmetic with a CPU kernel. -/
  | kernel (attributes : Binary)
  /-- A check that the context has a given type. -/
  | checkContext (expected : ContextKind)
  deriving DecidableEq, Repr

namespace Operation

/-- The name of an operation. -/
def name : Operation → String
  | catalog o => o.name
  | kernel b => Kernel.name b
  | checkContext _ => "check_context"

/-- The text of an operation: name and attributes for the catalog, the name alone for the rest. -/
def text : Operation → String
  | catalog o => o.text
  | o => o.name

/-- The shape of the result for the shapes of the operands. -/
def infer : Operation → List Shape → Outcome Shape
  | catalog o, shapes => o.infer shapes
  | kernel b, shapes => b.infer shapes
  | checkContext _, _ => .ok default

/-- Runs an operation. Only kernels change the context. -/
def run [ShortFloats] (o : Operation) (output : Shape) (args : List Tensor) (identity : Nat) (ctx : Context) :
    Outcome Tensor × Context :=
  match o with
  | catalog o => (o.run output args identity, ctx)
  | kernel b => Kernel.run b output args identity ctx
  | checkContext expected => (do ctx.expect expected o.name; return Tensor.empty, ctx)

/-- The text of a context check for developers, which shows the type it expects. -/
def checkText (expected : ContextKind) : String := "CheckContext<" ++ expected.typeName ++ ">"

/-- Graphs can be built of operations. -/
instance : Signature Operation where
  name := name
  text := text
  infer := infer

/-- Operations are a dialect over contexts. -/
instance [ShortFloats] : Dialect Operation Context where
  run := run

end Operation

end TensorGraph
