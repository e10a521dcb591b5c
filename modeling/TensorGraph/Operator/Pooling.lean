import TensorGraph.Operands
import TensorGraph.Operator.Planar

/-!
# Pooling of images

The operand is an image batch `[N, C, H, W]`; the result is the standard shape
`[N, C, H_out, W_out]`, where a spatial length counts the windows it takes to reach the end of the
padded input, `⌈(in + 2 * padding - length) / stride⌉ + 1`. On each axis the window has to be
strictly shorter than the padded input.
-/

namespace TensorGraph

/-- How a window becomes one element. -/
inductive PoolingMode where
  | average
  | largest
  deriving DecidableEq, Repr

namespace PoolingMode

/-- Windows are averaged unless something else is said. -/
instance : Inhabited PoolingMode := ⟨.average⟩

/-- All pooling modes. -/
def all : List PoolingMode := [.average, .largest]

/-- The name of a pooling mode. -/
def name : PoolingMode → String
  | average => "average"
  | largest => "max"

/-- The pooling mode of a name. -/
def ofName? (text : String) : Option PoolingMode := all.find? fun m => m.name == text

/-- The pooling mode of a name, or an error that shows the name. -/
def parse (text : String) : Outcome PoolingMode :=
  match ofName? text with
  | some mode => .ok mode
  | none => Outcome.failIn "pooling" (.unknownPoolingMode text)

end PoolingMode

/-- The attributes of a pooling; `window` is the length of a window on each axis. -/
structure Pooling where
  mode : PoolingMode
  padding : Planar
  stride : Planar
  window : Planar
  deriving DecidableEq, Repr

namespace Pooling

/-- Averages of single elements. -/
instance : Inhabited Pooling := ⟨⟨default, ⟨0, 0⟩, ⟨1, 1⟩, ⟨1, 1⟩⟩⟩

/-- The name of the operator. -/
def name : String := "pooling"

/-- The number of windows on one axis, which errors know by its number. -/
def windowCount (axis padding stride window input : Nat) : Outcome Nat := do
  let added ← Outcome.word (2 * padding)
  let padded ← Outcome.word (input + added)
  if padded ≤ window then Outcome.failIn name (.kernelCoversInput window padded axis)
  Outcome.word (ceilDiv (padded - window) stride + 1)

/-- The shape of the result. -/
def infer (p : Pooling) (shapes : List Shape) : Outcome Shape := do
  let operands : Operands := ⟨some name, shapes⟩
  let input ← operands.one
  operands.rank 4
  if p.stride.hasZero then Outcome.failIn name (.strideZero p.stride.toList)
  match input.lengths with
  | [batch, channels, rows, columns] => do
    let height ← windowCount 2 p.padding.rows p.stride.rows p.window.rows rows
    let width ← windowCount 3 p.padding.columns p.stride.columns p.window.columns columns
    return Shape.standard input.elementType [batch, channels, height, width]
  | _ => Outcome.failIn name (.rankUnsupported 4)

/-- The attributes as text. -/
def attributes (p : Pooling) : String :=
  "mode=" ++ p.mode.name ++ ", padding=" ++ p.padding.text ++ ", stride=" ++ p.stride.text ++
    ", lengths=" ++ p.window.text

/-- Reads the attributes; what is missing takes its default. -/
def ofValue? (v : Value) : Option Pooling :=
  match v.slots? ["mode", "padding", "stride", "lengths"] with
  | some [mode, padding, stride, window] => do
    let defaults : Pooling := default
    let mode ← Value.fieldOr defaults.mode (Value.choice? PoolingMode.ofName?) mode
    let padding ← Value.fieldOr defaults.padding Planar.ofValue? padding
    let stride ← Value.fieldOr defaults.stride Planar.ofValue? stride
    let window ← Value.fieldOr defaults.window Planar.ofValue? window
    return ⟨mode, padding, stride, window⟩
  | _ => none

end Pooling

end TensorGraph
