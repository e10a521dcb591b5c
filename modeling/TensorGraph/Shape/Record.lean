import TensorGraph.Error
import TensorGraph.Value

/-!
# Shapes as structured values

A shape is written as a record of its element type (`type`), lengths (`lens`) and strides
(`strides`), always with all three. It is read from a record or from a list in that order, where

* a missing `type` means the default element type (null does not),
* missing or null `strides` mean the row-major ones,
* strides of another number than the lengths are refused.
-/

namespace TensorGraph

/-- The element type of a name, or an error that shows the name. -/
def ElementType.parse (text : String) : Outcome ElementType :=
  match ElementType.ofName? text with
  | some t => .ok t
  | none => Outcome.fail (.unknownElementType text)

namespace Shape

/-- The fields of a shape, in the order in which a list gives them. -/
def fieldNames : List String := ["type", "lens", "strides"]

/-- The shape of given lengths and strides, which must be equally many. -/
def withStrides (t : ElementType) (lengths strides : List Nat) : Outcome Shape :=
  if lengths.length = strides.length then .ok ⟨t, axesOf lengths strides⟩
  else Outcome.fail (.ranksDiffer lengths strides)

/-- The shape of given strides, row-major where none are given. -/
def ofParts (t : ElementType) (lengths : List Nat) : Option (List Nat) → Outcome Shape
  | none => .ok (standard t lengths)
  | some strides => withStrides t lengths strides

/-- Reads a shape. -/
def ofValue? (v : Value) : Option Shape :=
  match v.slots? fieldNames with
  | some [t, lengths, strides] => do
    let t ← Value.fieldOr default (Value.choice? ElementType.ofName?) t
    let lengths ← lengths.bind Value.nats?
    let strides ← Value.fieldOr none (Value.nullable? Value.nats?) strides
    (ofParts t lengths strides).toOption
  | _ => none

/-- Writes a shape. -/
def toValue (s : Shape) : Value :=
  .record [("type", .text s.elementType.name), ("lens", .ofNats s.lengths),
    ("strides", .ofNats s.strides)]

end Shape

end TensorGraph
