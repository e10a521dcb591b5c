import TensorGraph.Text.Blank

/-!
# Settings of an evaluation

Two switches, both off unless they are turned on: tell about every instruction that is evaluated,
and compare every computed shape with the one that was inferred. A setting that is given as text
turns a switch on with `1`, `true`, `yes` or `on`, in any case of the letters and with any white
space around it; every other text, and none at all, leaves it off.
-/

namespace TensorGraph

/-- The switches of an evaluation. -/
structure Config where
  /-- Emit a record for every evaluated instruction. -/
  traceEval : Bool
  /-- Compare every computed shape with the inferred one. -/
  verifyShapes : Bool
  deriving DecidableEq, Repr

namespace Config

/-- Both switches are off. -/
instance : Inhabited Config := ⟨⟨false, false⟩⟩

/-- Whether a text turns a switch on. -/
def isOn (setting : String) : Bool :=
  ["1", "true", "yes", "on"].contains ((Text.trim setting).map Char.toLower)

/-- The switches that two settings turn on. -/
def ofSettings (traceEval verifyShapes : Option String) : Config :=
  ⟨traceEval.any isOn, verifyShapes.any isOn⟩

end Config

end TensorGraph
