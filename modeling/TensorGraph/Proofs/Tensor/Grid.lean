import TensorGraph.Proofs.Shape.Layout
import TensorGraph.Tensor

/-!
# Grids

A grid is a tensor without a layout: an element type, lengths, and at every position the bits of an
element. There are no strides, no buffer and no identity, and two grids are equal when they show the
same -- which makes them the language in which to say what a graph computes.

* `Grid.tabulate` -- the grid that shows at each position what a function says;
* `Grid.transpose`, `Grid.broadcast`, `Grid.reshape` -- the same elements at other positions;
* `Grid.pointwise` -- a rule for two numbers, position by position;
* `Tensor.grid` -- what a tensor shows through its shape.

A position at which nothing is known shows nothing; a placeholder shows nothing anywhere. What is no
position shows nothing either.
-/

namespace TensorGraph

/-- What a tensor shows: its element type, its lengths and the bits at each position. -/
structure Grid where
  elementType : ElementType
  lengths : List Nat
  content : List Nat → Option Nat

namespace Grid

/-! ## 1. Grids by position -/

/-- The grid that shows at each position what `show?` says. -/
def tabulate (elementType : ElementType) (lengths : List Nat) (show? : List Nat → Option Nat) :
    Grid :=
  ⟨elementType, lengths, fun index => if index ∈ positions lengths then show? index else none⟩

/-- The grid that shows nothing. -/
def blank (elementType : ElementType) (lengths : List Nat) : Grid :=
  tabulate elementType lengths fun _ => none

theorem content_tabulate {t : ElementType} {lengths index : List Nat} {f : List Nat → Option Nat}
    (h : index ∈ positions lengths) : (tabulate t lengths f).content index = f index :=
  if_pos h

/-- **Grids that show the same at every position are the same.** -/
theorem tabulate_congr {t : ElementType} {lengths : List Nat} {f g : List Nat → Option Nat}
    (h : ∀ index ∈ positions lengths, f index = g index) :
    tabulate t lengths f = tabulate t lengths g := by
  unfold tabulate
  congr 1
  funext index
  by_cases hi : index ∈ positions lengths
  · rw [if_pos hi, if_pos hi, h index hi]
  · rw [if_neg hi, if_neg hi]

/-! ## 2. What operators do to grids -/

/-- The element at `index` is the operand's element at the position whose coordinate `dims[k]` is
    `index[k]`. -/
def transpose (dims : List Nat) (g : Grid) : Grid :=
  tabulate g.elementType (dims.map fun d => g.lengths.getD d 0) fun index =>
    g.content (Transpose.source dims index)

/-- The element at `index` is the operand's element at the coordinates from `axis` on, or its only
    element when every length is 1. -/
def broadcast (lengths : List Nat) (axis : Nat) (g : Grid) : Grid :=
  tabulate g.elementType lengths fun index =>
    g.content (if g.lengths.all (· == 1) then g.lengths.map fun _ => 0
      else (index.drop axis).take g.lengths.length)

/-- The elements in row-major order are the operand's. -/
def reshape (lengths : List Nat) (g : Grid) : Grid :=
  tabulate g.elementType lengths fun index =>
    g.content (nthPosition g.lengths (placeOf lengths index))

/-- The element at a position as a double. -/
def float? [ShortFloats] (g : Grid) (index : List Nat) : Option Float :=
  (g.content index).map fun bits => Element.toFloat (BitVec.ofNat g.elementType.bits bits)

/-- A rule for doubles, position by position, with its results converted to an element type. -/
def pointwise [ShortFloats] (t : ElementType) (rule : Float → Float → Float) (x y : Grid) : Grid :=
  tabulate t x.lengths fun index =>
    match x.float? index, y.float? index with
    | some a, some b => some (Element.ofFloat t (rule a b)).toNat
    | _, _ => none

end Grid

/-! ## 3. What a tensor shows -/

/-- What a tensor shows: at each position the bits that its shape finds in its buffer. -/
def Tensor.grid (x : Tensor) : Grid :=
  .tabulate x.shape.elementType x.shape.lengths fun index =>
    x.buffer.bind fun buffer => buffer.storage.pattern? (offset x.shape.axes index)

namespace Tensor

@[simp] theorem lengths_grid (x : Tensor) : x.grid.lengths = x.shape.lengths := rfl

theorem content_grid {x : Tensor} {index : List Nat} (h : index ∈ positions x.shape.lengths) :
    x.grid.content index =
      x.buffer.bind fun buffer => buffer.storage.pattern? (offset x.shape.axes index) :=
  Grid.content_tabulate h

theorem grid_placeholder (shape : Shape) :
    (placeholder shape).grid = .blank shape.elementType shape.lengths := rfl

/-- **A view shows the positions its shape finds**: if every position of the new shape lies where a
    position of the old one lies, it shows the element at that position. -/
theorem grid_view (x : Tensor) (shape : Shape) (source : List Nat → List Nat)
    (h : ∀ index ∈ positions shape.lengths, source index ∈ positions x.shape.lengths ∧
      offset shape.axes index = offset x.shape.axes (source index)) :
    (Tensor.mk shape x.buffer).grid =
      .tabulate shape.elementType shape.lengths fun index => x.grid.content (source index) := by
  refine Grid.tabulate_congr fun index hi => ?_
  obtain ⟨hs, ho⟩ := h index hi
  rw [content_grid hs, ← ho]

end Tensor

end TensorGraph
