import TensorGraph.Text
import TensorGraph.Value

/-!
# Attributes of the two spatial axes

Operators over images take attributes such as a stride or a padding once for the rows and once
for the columns. `ceilDiv` counts how many steps of a given size it takes to cover a length.
-/

namespace TensorGraph

/-- A number for the rows and a number for the columns. -/
structure Planar where
  rows : Nat
  columns : Nat
  deriving DecidableEq, Repr

namespace Planar

/-- The two numbers, rows first. -/
def toList (p : Planar) : List Nat := [p.rows, p.columns]

/-- The two numbers between braces. -/
def text (p : Planar) : String := Text.bracedNats p.toList

/-- Whether one of the numbers is zero. -/
def hasZero (p : Planar) : Bool := p.rows == 0 || p.columns == 0

/-- Reads a list of exactly two words. -/
def ofValue? (v : Value) : Option Planar := v.pair?.map fun p => ⟨p.1, p.2⟩

/-- The two numbers as a value. -/
def toValue (p : Planar) : Value := .ofNats p.toList

end Planar

/-- The least number of steps of size `step` that reach `length`. -/
def ceilDiv (length step : Nat) : Nat :=
  length / step + if length % step = 0 then 0 else 1

end TensorGraph
