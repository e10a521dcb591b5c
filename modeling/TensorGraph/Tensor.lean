import TensorGraph.Shape.Walk
import TensorGraph.Storage

/-!
# Tensors

A tensor is what evaluation passes from instruction to instruction: a shape and, unless it is a
placeholder, a buffer that the shape reads. Several tensors may read one buffer,

    a    {2, 3}, {3, 1}                buffer 1
    b    {3, 2}, {1, 3}  transposed    buffer 1
    c    {4, 2, 3}, {0, 3, 1}          buffer 1

and only `contiguous` ever copies. Which tensors share a buffer can be observed, so a buffer has
an identity besides its elements: two buffers of equal elements but different identity are two
buffers. Whoever makes a buffer chooses its identity, and is expected to choose a new one.

* `Tensor.ofBuffer` -- a tensor over a buffer, if the buffer has the shape's type and reaches as far
  as the shape does;
* `Tensor.view` -- the same buffer through another shape, under the same condition;
* `Tensor.contiguous` -- a copy with row-major strides in a buffer of its own, bit for bit;
* `Tensor.agree` -- equal shapes and equal elements, and a shortcut for tensors that share their
  buffer.
-/

namespace TensorGraph

/-- Elements in memory, with the identity of the piece of memory that holds them. -/
structure Buffer where
  identity : Nat
  storage : Storage

/-- A shape, and the buffer it reads; without a buffer it is a placeholder. -/
structure Tensor where
  shape : Shape
  buffer : Option Buffer

namespace Tensor

/-! ## 1. Making tensors -/

/-- The storage can back the shape: it has the shape's element type and as many elements as the
    shape can reach. A shape that reaches past the last word is backed by no storage, and to ask
    whether it is backed by one of its type is a fault. -/
def checkBacks (shape : Shape) (storage : Storage) : Outcome Unit := do
  if storage.elementType ≠ shape.elementType then
    Outcome.fail (.bufferType storage.elementType shape)
  let reach ← shape.bufferReachWord
  if storage.size < reach then
    Outcome.fail (.bufferTooSmall storage.size shape)

/-- A tensor that reads a buffer through a shape. -/
def ofBuffer (shape : Shape) (buffer : Buffer) : Outcome Tensor := do
  checkBacks shape buffer.storage
  return ⟨shape, some buffer⟩

/-- A row-major tensor over all elements of a buffer, whose number must be that of the lengths. -/
def dense (lengths : List Nat) (buffer : Buffer) : Outcome Tensor := do
  let shape := Shape.standard buffer.storage.elementType lengths
  let count ← shape.elementCountWord
  if count ≠ buffer.storage.size then
    Outcome.fail (.cellCount shape count buffer.storage.size)
  ofBuffer shape buffer

/-- A tensor that is known by its shape only. -/
def placeholder (shape : Shape) : Tensor := ⟨shape, none⟩

/-- The placeholder without axes. -/
def empty : Tensor := placeholder default

/-! ## 2. Buffers -/

/-- Whether the tensor has a buffer. -/
def hasData (x : Tensor) : Bool := x.buffer.isSome

/-- Both tensors read one buffer. -/
def sharesBuffer (x y : Tensor) : Bool :=
  match x.buffer, y.buffer with
  | some a, some b => a.identity == b.identity
  | _, _ => false

/-- The storage the tensor reads; a placeholder has none. -/
def storage (x : Tensor) : Outcome Storage :=
  match x.buffer with
  | some buffer => .ok buffer.storage
  | none => Outcome.fail (.noData x.shape)

/-- The same buffer through another shape. A view of a placeholder is a placeholder. -/
def view (x : Tensor) (shape : Shape) : Outcome Tensor :=
  match x.buffer with
  | some buffer => ofBuffer shape buffer
  | none => .ok (placeholder shape)

/-! ## 3. Elements -/

/-- The element of a storage at an offset, as a double. -/
def floatAt [ShortFloats] (storage : Storage) (offset : Nat) : Outcome Float :=
  match storage.float? offset with
  | some value => .ok value
  | none => Outcome.fail (.offsetOutside offset)

/-- The element at a position, as a double. -/
def float [ShortFloats] (x : Tensor) (index : List Nat) : Outcome Float := do
  let storage ← x.storage
  let offset ← x.shape.offset? index
  floatAt storage offset

/-- All elements in row-major order, as doubles. -/
def floats [ShortFloats] (x : Tensor) : Outcome (List Float) := do
  let storage ← x.storage
  x.shape.offsets.mapM (floatAt storage)

/-- All elements in row-major order, in a storage of their own. -/
def gathered (x : Tensor) : Outcome Storage := do
  let storage ← x.storage
  storage.gather x.shape.offsets

/-- A copy in a new buffer of the given identity, with row-major strides. -/
def contiguous (x : Tensor) (identity : Nat) : Outcome Tensor := do
  let storage ← x.gathered
  ofBuffer x.shape.toStandard ⟨identity, storage⟩

/-! ## 4. Equality -/

/-- Equal shapes and equal elements in row-major order. Placeholders are compared by their shapes
    alone, and tensors that share their buffer are not looked into. -/
def agree (x y : Tensor) : Bool :=
  x.shape == y.shape &&
    match x.buffer, y.buffer with
    | none, none => true
    | some a, some b =>
      a.identity == b.identity ||
        match a.storage.gather x.shape.offsets, b.storage.gather y.shape.offsets with
        | .ok s, .ok t => s.agree t
        | _, _ => false
    | _, _ => false

/-- Tensors are compared by `agree`. -/
instance : BEq Tensor := ⟨agree⟩

end Tensor

end TensorGraph
