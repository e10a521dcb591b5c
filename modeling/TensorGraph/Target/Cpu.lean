import TensorGraph.Operation
import TensorGraph.Program.Basic

/-!
# The CPU target

Lowering for the CPU puts a kernel in the place of every arithmetic operator and leaves all else
alone. A kernel infers what the arithmetic infers, so no replacement changes a shape. Programs run
in a CPU context that has counted nothing yet.
-/

namespace TensorGraph.Cpu

/-- The call that puts a kernel in the place of an arithmetic operator. -/
def kernelCall? (position : Nat) (ins : Instruction Operation) : Option (Call Operation) :=
  match ins.kind with
  | .operation (.catalog (.binary b)) => some (.replacement position (.kernel b))
  | _ => none

/-- The calls for all arithmetic operators of instructions whose first one has the given
    position. -/
def kernelCalls (position : Nat) : List (Instruction Operation) → List (Call Operation)
  | [] => []
  | ins :: rest => (kernelCall? position ins).toList ++ kernelCalls (position + 1) rest

/-- The module with kernels in the place of arithmetic. -/
def lower (m : Module Operation) : Report (Module Operation) :=
  m.performAll (kernelCalls 0 m.instructions)

/-- The CPU as a target. -/
def target : Target Operation Context := ⟨"cpu", lower, .cpu 0⟩

end TensorGraph.Cpu
