import TensorGraph.Shape.Extent

/-!
# Broadcasting one shape onto another

The operand's lengths are laid onto a run of the target's axes that starts at a given axis. The
result has the target's lengths and the operand's element type: along the run it moves with the
operand's strides, and on every other axis it stands still (stride 0).

An operand in which every length is 1 holds a single element and has no axes to align. It may
only be placed at axis 0, and then its element is repeated everywhere.

The end of the run is computed in a word; an axis so large that the end is none is a fault.
-/

namespace TensorGraph.Shape

/-- Every axis has length 1: the shape holds a single element. -/
def isSingle (s : Shape) : Bool := s.lengths.all (· == 1)

/-- The axes standing still at the given lengths. -/
def still (lengths : List Nat) : List Axis := lengths.map fun l => ⟨l, 0⟩

/-- The axes of a run of `operand` inside `lengths`, starting at `axis`: still before and after
    the run. -/
def alignedAxes (lengths : List Nat) (operand : List Axis) (axis : Nat) : List Axis :=
  still (lengths.take axis) ++ operand ++ still (lengths.drop (axis + operand.length))

/-- The shape of `operand` laid onto the lengths of `target` at `axis`. -/
def broadcast (target operand : Shape) (axis : Nat) : Outcome Shape :=
  if operand.isSingle then
    if axis ≠ 0 then Outcome.fail (.broadcastSingleAxis axis)
    else .ok ⟨operand.elementType, still target.lengths⟩
  else do
    let runEnd ← Outcome.word (axis + operand.rank)
    if target.rank < runEnd then
      Outcome.fail (.broadcastRank operand.lengths target.lengths axis)
    else if operand.lengths ≠ (target.lengths.drop axis).take operand.rank then
      Outcome.fail (.broadcastLengths operand.lengths target.lengths axis)
    else .ok ⟨operand.elementType, alignedAxes target.lengths operand.axes axis⟩

end TensorGraph.Shape
