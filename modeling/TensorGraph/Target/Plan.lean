import TensorGraph.Number.Nearest
import TensorGraph.Target.Cpu

/-!
# Targets given by a plan

A plan describes a target as data: whether arithmetic becomes kernels, which instructions of which
modules get another operator after that, and which module is refused in the end. A replacement
holds the operator or the reason why there is none; the reason counts once lowering gets there.

Plans come from outside, and the programs compiled for them are run. So it is here that the conversions
of 16-bit numbers are settled: whoever uses plans gets those that round to nearest.
-/

namespace TensorGraph

/-- Another operator for one instruction of the modules of a name. -/
structure Replacement where
  moduleName : String
  position : Nat
  operation : Outcome Operation

/-- A target as data. -/
structure Plan where
  name : String
  /-- Arithmetic becomes kernels first. -/
  kernels : Bool
  replacements : List Replacement
  /-- The name of the module that is refused. -/
  refused : Option String
  context : Context

namespace Plan

/-- The module after the replacements that are meant for it. -/
def replaceAll (m : Module Operation) : List Replacement → Report (Module Operation)
  | [] => pure m
  | r :: rest =>
    if r.moduleName = m.name then do
      let operation ← r.operation
      let after ← m.perform (.replacement r.position operation)
      replaceAll after rest
    else replaceAll m rest

/-- Lowers a module according to the plan. -/
def lower (p : Plan) (m : Module Operation) : Report (Module Operation) := do
  let lowered ← if p.kernels then Cpu.lower m else pure m
  let replaced ← replaceAll lowered p.replacements
  if p.refused = some m.name then
    Report.ofOutcome (Outcome.fail (.loweringRefused m.name))
  else return replaced

/-- The target of a plan. -/
def target (p : Plan) : Target Operation Context := ⟨p.name, p.lower, p.context⟩

end Plan

end TensorGraph
