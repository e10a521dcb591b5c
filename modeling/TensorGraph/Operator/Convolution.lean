import TensorGraph.Operands
import TensorGraph.Operator.Planar

/-!
# Convolution of images

Operands are an image batch `[N, C_in, H, W]` and weights `[C_out, C_in, kH, kW]` of one element
type; the result is the standard shape `[N, C_out, H_out, W_out]`. How the spatial lengths come
out depends on the padding mode:

* explicit padding -- `max 1 ((in - (1 + dilation * (k - 1)) + 2 * padding) / stride + 1)`, where
  every attribute and length is a signed word and the quotient drops its fraction, so a kernel
  that is larger than the padded input gives 1;
* same -- as many windows as it takes to cover the input, `⌈in / stride⌉`;
* valid -- no padding, `⌈(in - k + 1) / stride⌉`, and a kernel longer than the input is refused.

Only the shape is inferred; there is no kernel here.
-/

namespace TensorGraph

/-- How the spatial lengths of a convolution come about. -/
inductive PaddingMode where
  /-- The given padding on both sides of each axis. -/
  | explicit
  /-- Windows that cover the input. -/
  | same
  /-- Windows inside the input. -/
  | valid
  deriving DecidableEq, Repr

namespace PaddingMode

/-- Padding is explicit unless something else is said. -/
instance : Inhabited PaddingMode := ⟨.explicit⟩

/-- All padding modes. -/
def all : List PaddingMode := [.explicit, .same, .valid]

/-- The name of a padding mode. -/
def name : PaddingMode → String
  | explicit => "default"
  | same => "same"
  | valid => "valid"

/-- The padding mode of a name. -/
def ofName? (text : String) : Option PaddingMode := all.find? fun m => m.name == text

/-- The padding mode of a name, or an error that shows the name. -/
def parse (text : String) : Outcome PaddingMode :=
  match ofName? text with
  | some mode => .ok mode
  | none => Outcome.failIn "convolution" (.unknownPaddingMode text)

end PaddingMode

/-- The attributes of a convolution. -/
structure Convolution where
  padding : Planar
  stride : Planar
  dilation : Planar
  mode : PaddingMode
  deriving DecidableEq, Repr

namespace Convolution

/-- No padding, windows side by side, kernels without gaps. -/
instance : Inhabited Convolution := ⟨⟨⟨0, 0⟩, ⟨1, 1⟩, ⟨1, 1⟩, default⟩⟩

/-- The name of the operator. -/
def name : String := "convolution"

/-! ## 1. Spatial lengths -/

/-- The number of windows under explicit padding. Every step is one of signed words. -/
def explicitLength (padding stride dilation input kernel : Nat) : Outcome Nat := do
  let gaps ← Outcome.signedWord (Word.signed kernel - 1)
  let spread ← Outcome.signedWord (Word.signed dilation * gaps)
  let extent ← Outcome.signedWord (1 + spread)
  let room ← Outcome.signedWord (Word.signed input - extent)
  let added ← Outcome.signedWord (2 * Word.signed padding)
  let padded ← Outcome.signedWord (room + added)
  let steps ← Outcome.signedWord (padded.tdiv (Word.signed stride))
  let windows ← Outcome.signedWord (steps + 1)
  return (max 1 windows).toNat

/-- The number of windows that cover the input. -/
def sameLength (stride input : Nat) : Nat := ceilDiv input stride

/-- The number of windows that start where a whole kernel fits. -/
def validLength (stride input kernel : Nat) : Outcome Nat :=
  if input < kernel then Outcome.failIn name (.kernelExceedsInput kernel input)
  else do
    let starts ← Outcome.word (input - kernel + 1)
    return ceilDiv starts stride

/-- The output length of one spatial axis. -/
def outputLength (mode : PaddingMode) (padding stride dilation input kernel : Nat) : Outcome Nat :=
  match mode with
  | .explicit => explicitLength padding stride dilation input kernel
  | .same => .ok (sameLength stride input)
  | .valid => validLength stride input kernel

/-! ## 2. The operator -/

/-- The shape of the result. -/
def infer (c : Convolution) (shapes : List Shape) : Outcome Shape := do
  let operands : Operands := ⟨some name, shapes⟩
  let (input, weights) ← operands.two
  operands.sameType
  operands.sameRank
  operands.rank 4
  if c.stride.hasZero || c.dilation.hasZero then
    Outcome.failIn name (.strideOrDilationZero c.stride.toList c.dilation.toList)
  match input.lengths, weights.lengths with
  | [batch, _, rows, columns], [channels, _, kernelRows, kernelColumns] => do
    let height ← outputLength c.mode c.padding.rows c.stride.rows c.dilation.rows rows kernelRows
    let width ←
      outputLength c.mode c.padding.columns c.stride.columns c.dilation.columns columns kernelColumns
    return Shape.standard input.elementType [batch, channels, height, width]
  | _, _ => Outcome.failIn name (.rankUnsupported 4)

/-- The attributes as text; the padding mode shows only when it is not the explicit one. -/
def attributes (c : Convolution) : String :=
  "padding=" ++ c.padding.text ++ ", stride=" ++ c.stride.text ++ ", dilation=" ++ c.dilation.text ++
    if c.mode = .explicit then "" else ", padding_mode=" ++ c.mode.name

/-- Reads the attributes; what is missing takes its default. -/
def ofValue? (v : Value) : Option Convolution :=
  match v.slots? ["padding", "stride", "dilation", "padding_mode"] with
  | some [padding, stride, dilation, mode] => do
    let defaults : Convolution := default
    let padding ← Value.fieldOr defaults.padding Planar.ofValue? padding
    let stride ← Value.fieldOr defaults.stride Planar.ofValue? stride
    let dilation ← Value.fieldOr defaults.dilation Planar.ofValue? dilation
    let mode ← Value.fieldOr defaults.mode (Value.choice? PaddingMode.ofName?) mode
    return ⟨padding, stride, dilation, mode⟩
  | _ => none

end Convolution

end TensorGraph
