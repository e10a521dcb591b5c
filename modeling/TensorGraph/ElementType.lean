/-!
# Element types

The nine types an element of a tensor can have: four binary floating-point types and five
integer types. The type fixes how many bits one element takes and the name under which texts and
attribute records know it. How the bits of an element read as a number is in
`TensorGraph.Element`.

* `all` -- the types in the order in which they are listed to users;
* `ofName?_name` -- every type is found again under its own name.
-/

namespace TensorGraph

/-- The type of the elements of a tensor. -/
inductive ElementType where
  | f16
  | bf16
  | f32
  | f64
  | u8
  | i8
  | u32
  | i32
  | i64
  deriving DecidableEq, Repr

namespace ElementType

/-- A shape that names no element type holds 32-bit floats. -/
instance : Inhabited ElementType := ⟨.f32⟩

/-- All element types, in the order in which they are listed. -/
def all : List ElementType := [.f16, .bf16, .f32, .f64, .u8, .i8, .u32, .i32, .i64]

/-- The name of an element type, in texts and in attribute records. -/
def name : ElementType → String
  | f16 => "f16"
  | bf16 => "bf16"
  | f32 => "f32"
  | f64 => "f64"
  | u8 => "u8"
  | i8 => "i8"
  | u32 => "u32"
  | i32 => "i32"
  | i64 => "i64"

/-- The element type of a name; names are matched exactly. -/
def ofName? (text : String) : Option ElementType := all.find? (fun t => t.name == text)

/-- **Every element type is found again under its name.** -/
theorem ofName?_name (t : ElementType) : ofName? t.name = some t := by
  cases t <;> decide

/-- The bytes one element takes. -/
def bytes : ElementType → Nat
  | f16 | bf16 => 2
  | f32 | u32 | i32 => 4
  | f64 | i64 => 8
  | u8 | i8 => 1

/-- The bits one element takes. -/
def bits (t : ElementType) : Nat := 8 * t.bytes

/-- Whether the elements are floating-point numbers. -/
def isFloat : ElementType → Bool
  | f16 | bf16 | f32 | f64 => true
  | _ => false

end ElementType

end TensorGraph
