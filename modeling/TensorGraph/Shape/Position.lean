import TensorGraph.Error

/-!
# Positions and their buffer offsets

A position of a shape is a list of coordinates, one for each axis and each below the axis's
length. The buffer offset of a position is the sum of its coordinates times the strides.

* `InRange` -- the positions of a list of axes, as a proposition that evaluates;
* `Shape.offset?` -- the offset of a position as a word, and an error for a list of coordinates that
  is no position, found axis by axis;
* `positions` -- all positions in row-major order, the last coordinate running fastest. It is the
  order in which the logical elements of a tensor are listed.
-/

namespace TensorGraph

/-- The buffer offset of coordinates: each times its axis's stride, summed. -/
def offset : List Axis → List Nat → Nat
  | a :: axes, i :: is => i * a.stride + offset axes is
  | _, _ => 0

/-- The coordinates are a position of the axes: one for each, and each below the length. -/
def InRange : List Axis → List Nat → Prop
  | [], [] => True
  | a :: axes, i :: is => i < a.length ∧ InRange axes is
  | _, _ => False

/-- Whether coordinates are a position can be computed. -/
instance decidableInRange : (axes : List Axis) → (index : List Nat) → Decidable (InRange axes index)
  | [], [] => isTrue trivial
  | a :: axes, i :: is =>
    have := decidableInRange axes is
    inferInstanceAs (Decidable (i < a.length ∧ InRange axes is))
  | [], _ :: _ => isFalse id
  | _ :: _, [] => isFalse id

/-- All positions of lengths, in row-major order. -/
def positions : List Nat → List (List Nat)
  | [] => [[]]
  | length :: rest => (List.range length).flatMap fun i => (positions rest).map (i :: ·)

/-- The offset of coordinates, with that of the axes before them given. Axis by axis the coordinate
    is compared with the length and its part is added, so that a sum that is no word is a fault even
    if a later coordinate is out of bounds. -/
def Shape.offsetFrom (outOfBounds : Cause) (before : Nat) : List Axis → List Nat → Outcome Nat
  | a :: axes, i :: is =>
    if a.length ≤ i then Outcome.fail outOfBounds
    else do
      let flat ← Outcome.word (before + i * a.stride)
      offsetFrom outOfBounds flat axes is
  | _, _ => .ok before

/-- The buffer offset of a position. Coordinates of another number than the rank and coordinates
    out of bounds are different errors, and the number is looked at first. An offset that is no word
    is a fault. -/
def Shape.offset? (s : Shape) (index : List Nat) : Outcome Nat :=
  if index.length ≠ s.rank then Outcome.fail (.indexRank index s)
  else offsetFrom (.indexBounds index s) 0 s.axes index

end TensorGraph
