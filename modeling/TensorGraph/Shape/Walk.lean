import TensorGraph.Shape.Extent
import TensorGraph.Shape.Position

/-!
# The walk over a shape

A walk visits the positions of a shape one after the other, the last axis running fastest, and
yields the buffer offset of each. It keeps the next position and the number of positions that are
left, so a shape with far more positions than anyone visits costs nothing to start on.

For a standard shape the walk counts 0, 1, 2, …; for a transposed or broadcast view it follows the
strides and comes back to the same offset where a stride is 0.

* `Shape.walk` -- the walk over a shape, whose number of positions has to be a word;
* `successor` -- the position after a position, back to all zeros after the last one;
* `Walk.next?` -- one step, nothing after the last position;
* `Walk.take` -- some steps at once, together with the walk that is left;
* `Shape.offsets` -- the whole walk.
-/

namespace TensorGraph

/-- The position after a position, and whether it passed the last one and is back at zero. -/
def successor : List Axis → List Nat → List Nat × Bool
  | a :: axes, i :: is =>
    let (inner, wrapped) := successor axes is
    if wrapped then
      if i + 1 < a.length then ((i + 1) :: inner, false) else (0 :: inner, true)
    else (i :: inner, false)
  | _, _ => ([], true)

/-- A walk over the positions of some axes. -/
structure Walk where
  axes : List Axis
  /-- The position whose offset comes next, if any is left. -/
  position : List Nat
  /-- How many positions are left. -/
  remaining : Nat
  deriving Repr

namespace Walk

/-- The walk over a shape, at its start. -/
def start (s : Shape) : Walk := ⟨s.axes, s.axes.map fun _ => 0, s.elementCount⟩

/-- The offset of the next position and the walk after it; nothing when no position is left. -/
def next? (w : Walk) : Option (Nat × Walk) :=
  match w.remaining with
  | 0 => none
  | n + 1 => some (offset w.axes w.position, ⟨w.axes, (successor w.axes w.position).1, n⟩)

/-- The offsets of the next `n` positions, fewer when fewer are left, and the walk after them. -/
def take : Nat → Walk → List Nat × Walk
  | 0, w => ([], w)
  | n + 1, w =>
    match w.next? with
    | none => ([], w)
    | some (o, w') => let (os, w'') := take n w'; (o :: os, w'')

/-- The offsets of all positions that are left. -/
def toList (w : Walk) : List Nat := (take w.remaining w).1

end Walk

/-- The walk over a shape that may have any number of positions: a fault if that number is no word. -/
def Shape.walk (s : Shape) : Outcome Walk := do
  discard s.elementCountWord
  return Walk.start s

/-- The buffer offsets of all positions, in row-major order. -/
def Shape.offsets (s : Shape) : List Nat := (Walk.start s).toList

end TensorGraph
