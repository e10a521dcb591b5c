import TensorGraph.Text
import TensorGraph.Word
import TensorGraph.ElementType

/-!
# Shapes

A shape is the only thing that shape inference looks at: an element type and, for every axis, a
length and a stride -- the number of buffer elements that one step along the axis skips. Keeping
length and stride of an axis together makes it impossible to have more of the one than of the
other.

* `Shape.standard` -- the row-major shape of given lengths, `{2, 3, 4}` with strides
  `{12, 4, 1}`; any other strides describe a view of some buffer (a transposed view moves lengths
  and strides together, a broadcast view has stride 0 on the axes it repeats);
* `standardStrides` -- row-major strides; a stride beyond 64 bits is held at the largest word,
  which is harmless because no buffer reaches that far;
* `Shape.text` -- `f32, {2, 3}, {3, 1}`.

Two shapes are equal only if type, lengths and strides all agree, so a transposed view differs
from the standard shape of its lengths.
-/

namespace TensorGraph

/-- One axis of a shape: how many positions it has and how far apart they lie in the buffer. -/
structure Axis where
  length : Nat
  stride : Nat
  deriving DecidableEq, Repr

/-- An element type with the axes of a shape, outermost axis first. -/
structure Shape where
  elementType : ElementType
  axes : List Axis
  deriving DecidableEq, Repr

/-! ## 1. Row-major strides -/

/-- The elements of one row-major block of the given lengths, held at the largest word on the
    way from the innermost length outwards. -/
def blockSize : List Nat → Nat
  | [] => 1
  | length :: rest => Word.clamp (blockSize rest * length)

/-- Row-major strides: one step along an axis skips a block of the axes inside it. -/
def standardStrides : List Nat → List Nat
  | [] => []
  | _ :: rest => blockSize rest :: standardStrides rest

namespace Shape

/-- The shape without axes, of the element type that is meant when none is named. -/
instance : Inhabited Shape := ⟨⟨default, []⟩⟩

/-- The axes of given lengths and strides, paired from the front. -/
def axesOf (lengths strides : List Nat) : List Axis := List.zipWith Axis.mk lengths strides

/-- The row-major shape of the given lengths. -/
def standard (elementType : ElementType) (lengths : List Nat) : Shape :=
  ⟨elementType, axesOf lengths (standardStrides lengths)⟩

/-! ## 2. What a shape says -/

/-- The lengths of the axes. -/
def lengths (s : Shape) : List Nat := s.axes.map Axis.length

/-- The strides of the axes. -/
def strides (s : Shape) : List Nat := s.axes.map Axis.stride

/-- The number of axes. -/
def rank (s : Shape) : Nat := s.axes.length

/-- Whether the strides are the row-major ones of the lengths. -/
def isStandard (s : Shape) : Bool := s.strides == standardStrides s.lengths

/-- Whether some axis of at least two positions repeats one element. -/
def isBroadcasted (s : Shape) : Bool := s.axes.any fun a => a.stride == 0 && decide (1 < a.length)

/-- The row-major shape of the same element type and lengths. -/
def toStandard (s : Shape) : Shape := standard s.elementType s.lengths

/-- Element type, lengths and strides, as in `f32, {2, 3}, {3, 1}`. -/
def text (s : Shape) : String :=
  s.elementType.name ++ ", " ++ Text.bracedNats s.lengths ++ ", " ++ Text.bracedNats s.strides

/-! ## 3. First facts -/

theorem length_standardStrides (lengths : List Nat) :
    (standardStrides lengths).length = lengths.length := by
  induction lengths with
  | nil => rfl
  | cons _ _ ih => simp [standardStrides, ih]

theorem lengths_axesOf {lengths strides : List Nat} (h : lengths.length = strides.length)
    (t : ElementType) : (Shape.mk t (axesOf lengths strides)).lengths = lengths := by
  simp only [Shape.lengths, axesOf]
  induction lengths generalizing strides with
  | nil => rfl
  | cons l ls ih =>
    cases strides with
    | nil => simp at h
    | cons d ds => simp [ih (Nat.succ.inj h)]

theorem strides_axesOf {lengths strides : List Nat} (h : lengths.length = strides.length)
    (t : ElementType) : (Shape.mk t (axesOf lengths strides)).strides = strides := by
  simp only [Shape.strides, axesOf]
  induction lengths generalizing strides with
  | nil =>
    cases strides with
    | nil => rfl
    | cons d ds => simp at h
  | cons l ls ih =>
    cases strides with
    | nil => simp at h
    | cons d ds => simp [ih (Nat.succ.inj h)]

@[simp] theorem elementType_standard (t : ElementType) (lengths : List Nat) :
    (standard t lengths).elementType = t := rfl

/-- **A standard shape has the lengths it was made of.** -/
@[simp] theorem lengths_standard (t : ElementType) (lengths : List Nat) :
    (standard t lengths).lengths = lengths :=
  lengths_axesOf (length_standardStrides lengths).symm t

@[simp] theorem strides_standard (t : ElementType) (lengths : List Nat) :
    (standard t lengths).strides = standardStrides lengths :=
  strides_axesOf (length_standardStrides lengths).symm t

/-- Standard shapes differ in their element types or in their lengths. -/
theorem standard_inj {t t' : ElementType} {lengths lengths' : List Nat} :
    standard t lengths = standard t' lengths' ↔ t = t' ∧ lengths = lengths' := by
  refine ⟨fun h => ⟨congrArg Shape.elementType h, ?_⟩, fun h => by rw [h.1, h.2]⟩
  have hlengths := congrArg Shape.lengths h
  rwa [lengths_standard, lengths_standard] at hlengths

theorem isStandard_standard (t : ElementType) (lengths : List Nat) :
    (standard t lengths).isStandard = true := by
  simp [isStandard]

@[simp] theorem length_lengths (s : Shape) : s.lengths.length = s.rank := by
  simp [Shape.lengths, Shape.rank]

@[simp] theorem length_strides (s : Shape) : s.strides.length = s.rank := by
  simp [Shape.strides, Shape.rank]

/-- The axes are the lengths paired with the strides. -/
theorem axesOf_lengths_strides (s : Shape) : axesOf s.lengths s.strides = s.axes := by
  simp only [axesOf, Shape.lengths, Shape.strides]
  induction s.axes with
  | nil => rfl
  | cons a rest ih => simp [ih]

/-- **A shape is its element type, its lengths and its strides.** -/
theorem eq_of_parts {s t : Shape} (he : s.elementType = t.elementType)
    (hl : s.lengths = t.lengths) (hs : s.strides = t.strides) : s = t := by
  have h : s.axes = t.axes := by
    rw [← axesOf_lengths_strides s, ← axesOf_lengths_strides t, hl, hs]
  cases s; cases t
  simp_all

/-- A shape is standard exactly when it is its own standard form. -/
theorem isStandard_iff (s : Shape) : s.isStandard = true ↔ s = s.toStandard := by
  simp only [isStandard, beq_iff_eq]
  refine ⟨fun h => eq_of_parts rfl (by simp [toStandard]) (by simp [toStandard, h]), fun h => ?_⟩
  have h' : s.strides = s.toStandard.strides := congrArg Shape.strides h
  simpa [toStandard] using h'

end Shape

end TensorGraph
