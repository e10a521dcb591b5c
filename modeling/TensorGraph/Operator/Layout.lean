import TensorGraph.Shape.Broadcast
import TensorGraph.Operands
import TensorGraph.Tensor
import TensorGraph.Value

/-!
# Operators that change the layout

None of these looks at an element. Transposing, reshaping a row-major tensor and broadcasting
give views of the operand's buffer; only `Contiguous` makes a buffer of its own.

* `Transpose` -- axis `i` of the result is axis `dims[i]` of the operand, length and stride
  together;
* `Contiguous` -- the same lengths with row-major strides;
* `Reshape` -- other lengths over the same elements: 0 keeps the operand's length at its
  position, a last -1 takes what is left over;
* `Alignment` -- the second operand broadcast onto the lengths of the first.
-/

namespace TensorGraph

/-- The only argument of an operator. -/
def oneArgument (operator : String) : List Tensor → Outcome Tensor
  | [x] => .ok x
  | args => Outcome.failIn operator (.argumentCount 1 args.length)

/-! ## 1. Transposing -/

namespace Transpose

/-- The name of the operator. -/
def name : String := "transpose"

/-- The last place at which a value stands in a list whose first place has the given number. -/
def lastPlace? (value : Nat) : Nat → List Nat → Option Nat
  | _, [] => none
  | place, v :: rest =>
    (lastPlace? value (place + 1) rest).or (if v = value then some place else none)

/-- The permutation that undoes a permutation: at each place stands the place at which that
    number stood. In a list that is no permutation the last such place counts, and a number that
    stands nowhere gives 0. -/
def inverse (dims : List Nat) : List Nat :=
  (List.range dims.length).map fun d => (lastPlace? d 0 dims).getD 0

/-- Every number below the length stands in the list exactly once. -/
def isPermutation (dims : List Nat) : Bool :=
  dims.all (fun d => decide (d < dims.length)) && decide dims.Nodup

/-- The axes in the order of `dims`. -/
def permuted (axes : List Axis) (dims : List Nat) : List Axis := dims.filterMap (axes[·]?)

/-- The shape of the result. -/
def infer (dims : List Nat) (shapes : List Shape) : Outcome Shape := do
  let input ← (Operands.mk (some name) shapes).one
  if dims.length ≠ input.rank then
    Outcome.failIn name (.permutationRank dims.length input.rank)
  if !isPermutation dims then Outcome.failIn name (.notPermutation dims)
  return ⟨input.elementType, permuted input.axes dims⟩

/-- The operand's buffer through the inferred shape. -/
def run (output : Shape) (args : List Tensor) : Outcome Tensor := do
  let x ← oneArgument name args
  x.view output

/-- Reads the dimensions; none when they are missing. -/
def ofValue? (v : Value) : Option (List Nat) :=
  match v.slots? ["dims"] with
  | some [dims] => Value.fieldOr [] Value.nats? dims
  | _ => none

end Transpose

/-! ## 2. Copying into row-major order -/

namespace Contiguous

/-- The name of the operator. -/
def name : String := "contiguous"

/-- The row-major shape of the operand's lengths; an operand has two axes or more. -/
def infer (shapes : List Shape) : Outcome Shape := do
  let operands : Operands := ⟨some name, shapes⟩
  let input ← operands.one
  operands.leastRank 2
  return input.toStandard

/-- A copy of the operand in a new buffer. -/
def run (args : List Tensor) (identity : Nat) : Outcome Tensor := do
  let x ← oneArgument name args
  (x.contiguous identity).withOperator name

end Contiguous

/-! ## 3. Reshaping -/

namespace Reshape

/-- The name of the operator. -/
def name : String := "reshape"

/-- The lengths that dimensions stand for, from the given position on, and whether a last -1 is
    still to be inferred. -/
def lengthsFrom (input : List Nat) (position : Nat) : List Int → Outcome (List Nat × Bool)
  | [] => .ok ([], false)
  | d :: rest =>
    if d = 0 then
      match input[position]? with
      | some kept => do
        let (lengths, inferred) ← lengthsFrom input (position + 1) rest
        return (kept :: lengths, inferred)
      | none => Outcome.failIn name (.keptBeyondRank position input.length)
    else if d = -1 ∧ rest = [] then .ok ([], true)
    else if 0 < d then do
      let (lengths, inferred) ← lengthsFrom input (position + 1) rest
      return (d.toNat :: lengths, inferred)
    else Outcome.failIn name (.dimensionInvalid d position)

/-- The known lengths, completed by the one that takes what is left over, if the elements come out
    even. -/
def complete (elements : Nat) (lengths : List Nat) (inferred : Bool) (known : Nat) :
    Outcome (List Nat) :=
  if inferred then
    if known = 0 ∨ elements % known ≠ 0 then
      Outcome.failIn name (.inferenceIndivisible elements known)
    else .ok (lengths ++ [elements / known])
  else if known ≠ elements then Outcome.failIn name (.reshapeCount elements known)
  else .ok lengths

/-- The shape of the result. -/
def infer (dims : List Int) (shapes : List Shape) : Outcome Shape := do
  let input ← (Operands.mk (some name) shapes).one
  let (lengths, inferred) ← lengthsFrom input.lengths 0 dims
  match Word.product? lengths with
  | none => Outcome.failIn name (.dimensionsOverflow lengths)
  | some known => do
    let elements ← input.elementCountWord
    let lengths ← complete elements lengths inferred known
    return Shape.standard input.elementType lengths

/-- The operand's buffer through the inferred shape, if the operand is row-major. -/
def run (output : Shape) (args : List Tensor) : Outcome Tensor := do
  let x ← oneArgument name args
  if !x.shape.isStandard then Outcome.failIn name .noKernel
  x.view output

/-- Reads the dimensions; none when they are missing. -/
def ofValue? (v : Value) : Option (List Int) :=
  match v.slots? ["dims"] with
  | some [dims] => Value.fieldOr [] Value.ints? dims
  | _ => none

end Reshape

/-! ## 4. Broadcasting -/

namespace Alignment

/-- The name of the operator. -/
def name : String := "broadcast"

/-- The second shape laid onto the lengths of the first. -/
def infer (axis : Nat) (shapes : List Shape) : Outcome Shape := do
  let (target, operand) ← (Operands.mk (some name) shapes).two
  (Shape.broadcast target operand axis).withOperator name

/-- The second operand's buffer through the inferred shape. -/
def run (output : Shape) : List Tensor → Outcome Tensor
  | [_, operand] => operand.view output
  | args => Outcome.failIn name (.argumentCount 2 args.length)

/-- Reads the axis; a missing one is 0. -/
def ofValue? (v : Value) : Option Nat :=
  match v.slots? ["axis"] with
  | some [axis] => Value.fieldOr 0 Value.nat? axis
  | _ => none

end Alignment

end TensorGraph
