import TensorGraph.Shape.Basic

/-!
# What can go wrong

An error names its cause and, when one is to blame, the operator. The cause fixes everything a
reader is told: the kind of the error (`Cause.kind`) and the sentence (`Cause.reason`).

* `Error.message` -- the sentence, led by the operator's name when there is one;
* `Error.withOperator` -- attaches a name to an error that has none yet, and never replaces one:
  the innermost operator is the one to blame;
* `Failure.fault` -- the other way to fail, kept apart from every error: a computation that left
  its 64-bit word or reached outside a list. A fault is never reported as an error and never
  caught.
-/

namespace TensorGraph

/-- The kinds of errors, from the point of view of who has to act. -/
inductive ErrorKind where
  /-- Operands of the wrong number, rank, lengths or element type. -/
  | shapeMismatch
  /-- A malformed operator attribute. -/
  | invalidParameter
  /-- The operator has no kernel here. -/
  | notComputable
  /-- A kernel met a context of another type. -/
  | contextTypeMismatch
  /-- A broken graph or a misuse of it. -/
  | structural
  /-- Anything else. -/
  | other
  deriving DecidableEq, Repr

/-- The reason of an error, with everything its sentence shows. -/
inductive Cause where
  -- shapes
  | ranksDiffer (lengths strides : List Nat)
  | countOverflows (lengths : List Nat)
  | indexRank (index : List Nat) (shape : Shape)
  | indexBounds (index : List Nat) (shape : Shape)
  -- operands
  | argumentCount (expected given : Nat)
  | rankUnsupported (rank : Nat)
  | rankTooSmall (least : Nat)
  | shapesDiffer
  | typesDiffer (types : List ElementType)
  | lengthsDiffer (lengths : List (List Nat))
  | operandRanksDiffer (lengths : List (List Nat))
  -- broadcasting
  | broadcastSingleAxis (axis : Nat)
  | broadcastRank (operand target : List Nat) (axis : Nat)
  | broadcastLengths (operand target : List Nat) (axis : Nat)
  -- names
  | unknownElementType (name : String)
  | unknownPaddingMode (name : String)
  | unknownPoolingMode (name : String)
  | unknownActivationMode (name : String)
  | unknownUnary (name : String)
  | unknownBinary (name : String)
  | unknownOperator (name : String)
  | invalidAttributes
  -- windows
  | strideOrDilationZero (stride dilation : List Nat)
  | strideZero (stride : List Nat)
  | kernelExceedsInput (kernel input : Nat)
  | kernelCoversInput (kernel padded axis : Nat)
  | innerLengths (left right : List Nat)
  -- layouts
  | permutationRank (given rank : Nat)
  | notPermutation (dims : List Nat)
  | keptBeyondRank (position rank : Nat)
  | dimensionInvalid (dimension : Int) (position : Nat)
  | dimensionsOverflow (lengths : List Nat)
  | inferenceIndivisible (elements known : Nat)
  | reshapeCount (elements known : Nat)
  -- tensors
  | bufferType (found : ElementType) (shape : Shape)
  | bufferTooSmall (found : Nat) (shape : Shape)
  | cellCount (shape : Shape) (required given : Nat)
  | noData (shape : Shape)
  | offsetOutside (offset : Nat)
  -- kernels
  | noKernel
  | contextType (expected found : String)
  -- modules
  | parameterExists (module parameter : String)
  | literalWithoutData (shape : Shape)
  | moduleSealed (module : String) (instruction : Nat)
  | unknownInstruction (instruction : Nat) (module : String) (length : Nat)
  | returnAsOperand (instruction : Nat)
  | notAnOperation (instruction : Nat) (name : String)
  | noReturn (module : String)
  | notEarlier (reader : Nat) (module : String) (operand : Nat)
  | replacementShape (instruction : Nat) (inferred cached : Shape)
  -- programs
  | moduleExists (module : String)
  | alreadyCompiled (target : String)
  | parameterUnbound (parameter : String)
  | bindingShape (parameter : String) (expected given : Shape)
  | computedShape (instruction : Nat) (computed inferred : Shape)
  | loweringRefused (module : String)
  /-- A sentence of the caller's own, of any kind. -/
  | stated (kind : ErrorKind) (sentence : String)
  deriving DecidableEq, Repr

namespace Cause

/-- The kind of error a cause makes. -/
def kind : Cause → ErrorKind
  | ranksDiffer .. | indexRank .. | indexBounds .. => .shapeMismatch
  | argumentCount .. | rankUnsupported .. | rankTooSmall .. => .shapeMismatch
  | shapesDiffer | typesDiffer .. | lengthsDiffer .. | operandRanksDiffer .. => .shapeMismatch
  | broadcastSingleAxis .. | broadcastRank .. | broadcastLengths .. => .shapeMismatch
  | innerLengths .. => .shapeMismatch
  | bufferType .. | bufferTooSmall .. | cellCount .. => .shapeMismatch
  | replacementShape .. | bindingShape .. | computedShape .. => .shapeMismatch
  | countOverflows .. => .invalidParameter
  | unknownElementType .. | unknownPaddingMode .. | unknownPoolingMode .. => .invalidParameter
  | unknownActivationMode .. | unknownUnary .. | unknownBinary .. => .invalidParameter
  | invalidAttributes => .invalidParameter
  | strideOrDilationZero .. | strideZero .. => .invalidParameter
  | kernelExceedsInput .. | kernelCoversInput .. => .invalidParameter
  | permutationRank .. | notPermutation .. => .invalidParameter
  | keptBeyondRank .. | dimensionInvalid .. | dimensionsOverflow .. => .invalidParameter
  | inferenceIndivisible .. | reshapeCount .. => .invalidParameter
  | noKernel => .notComputable
  | contextType .. => .contextTypeMismatch
  | unknownOperator .. => .structural
  | parameterExists .. | literalWithoutData .. | moduleSealed .. => .structural
  | unknownInstruction .. | returnAsOperand .. | notAnOperation .. => .structural
  | noReturn .. | notEarlier .. => .structural
  | moduleExists .. | alreadyCompiled .. | parameterUnbound .. | loweringRefused .. => .structural
  | noData .. | offsetOutside .. => .other
  | stated kind _ => kind

/-- The name of an instruction in a text: its position after an at sign. -/
def reference (instruction : Nat) : String := "@" ++ instruction.repr

/-- Lists of lengths side by side, as in `[2, 3] vs [3, 2]`. -/
def sideBySide (lengths : List (List Nat)) : String :=
  Text.separated " vs " (lengths.map Text.bracketedNats)

/-- The sentence of a cause. -/
def reason : Cause → String
  | ranksDiffer lengths strides =>
    s!"lens {Text.bracketedNats lengths} and strides {Text.bracketedNats strides} have different ranks"
  | countOverflows lengths => s!"element count of lens {Text.bracketedNats lengths} overflows"
  | indexRank index shape =>
    s!"index {Text.bracketedNats index} has wrong rank for shape {shape.text}"
  | indexBounds index shape =>
    s!"index {Text.bracketedNats index} out of bounds for shape {shape.text}"
  | argumentCount expected given =>
    s!"wrong number of arguments: expected {expected} but given {given}"
  | rankUnsupported rank => s!"only {rank}d supported"
  | rankTooSmall least => s!"number of dimensions should be at least {least}"
  | shapesDiffer => "shapes do not match"
  | typesDiffer types =>
    "types do not match: " ++ Text.separated " vs " (types.map ElementType.name)
  | lengthsDiffer lengths => "dimensions do not match: " ++ sideBySide lengths
  | operandRanksDiffer lengths => "number of dimensions do not match: " ++ sideBySide lengths
  | broadcastSingleAxis axis =>
    s!"when broadcasting a tensor of size 1, axis should be 0 (got {axis})"
  | broadcastRank operand target axis =>
    s!"cannot broadcast {Text.bracketedNats operand} into {Text.bracketedNats target} at axis {axis}"
  | broadcastLengths operand target axis =>
    "when broadcasting, sizes must match: " ++ sideBySide [operand, target] ++ s!" at axis {axis}"
  | unknownElementType name => s!"unknown element type '{name}'"
  | unknownPaddingMode name => s!"invalid padding mode '{name}'"
  | unknownPoolingMode name => s!"invalid pooling mode '{name}'"
  | unknownActivationMode name => s!"invalid activation mode '{name}'"
  | unknownUnary name => s!"unknown unary operator '{name}'"
  | unknownBinary name => s!"unknown binary operator '{name}'"
  | unknownOperator name => s!"unknown operator '{name}'"
  | invalidAttributes => "invalid attributes"
  | strideOrDilationZero stride dilation =>
    s!"stride {Text.bracketedNats stride} and dilation {Text.bracketedNats dilation} must be positive"
  | strideZero stride => s!"stride {Text.bracketedNats stride} must be positive"
  | kernelExceedsInput kernel input =>
    s!"kernel length {kernel} exceeds input length {input} in valid mode"
  | kernelCoversInput kernel padded axis =>
    s!"kernel length {kernel} must be smaller than the padded input length {padded} on axis {axis}"
  | innerLengths left right =>
    "inner dimensions do not match: " ++ Text.bracedNats left ++ " x " ++ Text.bracedNats right
  | permutationRank given rank =>
    s!"permutation has {given} dimensions but input has rank {rank}"
  | notPermutation dims => Text.bracedNats dims ++ " is not a permutation"
  | keptBeyondRank position rank =>
    s!"dimension {position} is 0 but the input has only {rank} dimensions"
  | dimensionInvalid dimension position =>
    s!"invalid dimension {dimension} at position {position}, only a trailing -1 may be inferred"
  | dimensionsOverflow lengths =>
    s!"element count of dimensions {Text.bracketedNats lengths} overflows"
  | inferenceIndivisible elements known =>
    s!"cannot infer the last dimension: {elements} elements do not divide into {known}"
  | reshapeCount elements known => s!"wrong number of elements for reshape: {elements} to {known}"
  | bufferType found shape => s!"buffer of type {found.name} cannot back shape {shape.text}"
  | bufferTooSmall found shape =>
    s!"buffer of {found} elements is too small for shape {shape.text}"
  | cellCount shape required given =>
    s!"shape {shape.text} requires {required} elements, got {given}"
  | noData shape => s!"argument of shape {shape.text} has no data"
  | offsetOutside offset => s!"offset {offset} outside of buffer"
  | noKernel => "not computable"
  | contextType expected found => s!"unexpected context type: expected {expected}, got {found}"
  | parameterExists module parameter =>
    s!"module '{module}' already has a parameter named '{parameter}'"
  | literalWithoutData shape => s!"literal of shape {shape.text} has no data"
  | moduleSealed module instruction =>
    s!"module '{module}' is sealed by its return instruction {reference instruction}"
  | unknownInstruction instruction module length =>
    s!"{reference instruction} does not exist in module '{module}' ({length} instructions)"
  | returnAsOperand instruction =>
    s!"{reference instruction} is the return instruction and cannot be an operand"
  | notAnOperation instruction name =>
    s!"{reference instruction} is a {name} instruction, not an operation"
  | noReturn module => s!"module '{module}' has no return instruction"
  | notEarlier reader module operand =>
    s!"{reference reader} in module '{module}' reads {reference operand}, which is not an earlier value"
  | replacementShape instruction inferred cached =>
    s!"replacement for {reference instruction} infers {inferred.text} instead of {cached.text}"
  | moduleExists module => s!"module '{module}' already exists"
  | alreadyCompiled target => s!"program is already compiled for target '{target}'"
  | parameterUnbound parameter => s!"parameter '{parameter}' is not bound"
  | bindingShape parameter expected given =>
    s!"parameter '{parameter}' expects {expected.text} but was bound to {given.text}"
  | computedShape instruction computed inferred =>
    s!"{reference instruction} computed {computed.text} but {inferred.text} was inferred"
  | loweringRefused module => s!"module '{module}' cannot be lowered"
  | stated _ sentence => sentence

end Cause

/-- An error: its cause, and the operator to blame when there is one. -/
structure Error where
  operator : Option String
  cause : Cause
  deriving DecidableEq, Repr

namespace Error

/-- The kind of an error is the kind of its cause. -/
def kind (e : Error) : ErrorKind := e.cause.kind

/-- The sentence of an error, led by the operator's name when there is one. -/
def message (e : Error) : String :=
  match e.operator with
  | some name => s!"{name}: {e.cause.reason}"
  | none => e.cause.reason

/-- Names the operator to blame, unless one is named already. -/
def withOperator (name : String) (e : Error) : Error :=
  { e with operator := e.operator.or (some name) }

@[simp] theorem kind_withOperator (name : String) (e : Error) :
    (e.withOperator name).kind = e.kind := rfl

/-- **An error that went through `withOperator` names an operator**, and it is the old name
    whenever there was one. -/
theorem operator_withOperator (name : String) (e : Error) :
    (e.withOperator name).operator = some (e.operator.getD name) := by
  cases h : e.operator <;> simp [withOperator, h]

end Error

/-- How a computation fails: with an error for its caller, or with a fault. -/
inductive Failure where
  | error (e : Error)
  /-- The computation left its 64-bit word or reached outside a list. -/
  | fault
  deriving DecidableEq, Repr

/-- Names the operator to blame in an error; a fault has no one to blame. -/
def Failure.withOperator (name : String) : Failure → Failure
  | .error e => .error (e.withOperator name)
  | .fault => .fault

/-- The result of a computation that can fail. -/
abbrev Outcome := Except Failure

namespace Outcome

variable {α : Type}

/-- Fails with an error that no operator is to blame for. -/
def fail (cause : Cause) : Outcome α := .error (.error ⟨none, cause⟩)

/-- Fails with an error of the named operator. -/
def failIn (operator : String) (cause : Cause) : Outcome α :=
  .error (.error ⟨some operator, cause⟩)

/-- Fails with an error of an operator that may be unnamed. -/
def failFor (operator : Option String) (cause : Cause) : Outcome α :=
  .error (.error ⟨operator, cause⟩)

/-- A fault. -/
def fault : Outcome α := .error .fault

/-- Names the operator to blame if the computation fails with an unnamed error. -/
def withOperator (name : String) : Outcome α → Outcome α
  | .ok a => .ok a
  | .error f => .error (f.withOperator name)

/-- A value that has to be there. -/
def ofOption : Option α → Outcome α
  | some a => .ok a
  | none => fault

/-- A natural number that has to be a word. -/
def word (n : Nat) : Outcome Nat := if n < Word.bound then .ok n else fault

/-- An integer that has to be a signed word. -/
def signedWord (i : Int) : Outcome Int := if Word.isSigned i then .ok i else fault

end Outcome

end TensorGraph
