import TensorGraph.Module.Building

/-!
# Targets

A target is what a program is compiled for. It turns each module into one of operators that
it can run, as a rule by replacing operators, and supplies the context that they run in. What it
tells on the way is part of the report of a lowering.
-/

namespace TensorGraph

/-- A name, a way to lower a module, and the context of the lowered operators. -/
structure Target (Op Ctx : Type) where
  name : String
  lower : Module Op → Report (Module Op)
  context : Ctx

/-- Lowers modules one after the other, up to the first that fails. Each has to be complete before
    and after it is lowered. -/
def Target.lowerAll {Op Ctx : Type} (t : Target Op Ctx) :
    List (Module Op) → Report (List (Module Op))
  | [] => pure []
  | m :: rest => do
    m.validate
    let lowered ← t.lower m
    lowered.validate
    let others ← t.lowerAll rest
    return lowered :: others

end TensorGraph
