import TensorGraph.Proofs.Module.Invariant

/-!
# Sealed modules

The return instruction seals a module. Every call that adds an instruction is refused from then on, and
what is left is to replace operators, which keeps the shapes. So whatever calls are made on a sealed
module, all that can be different afterwards is which operators its operations have.

* `Module.graph` -- a module without its operators: its name, what each instruction is and reads, its
  shape, the constants, and where the return is;
* `Module.graph_step_of_sealed`, `Module.graph_run_of_sealed` -- calls on a sealed module keep its graph.
-/

namespace TensorGraph

variable {Op : Type}

/-! ## 1. The graph of a module -/

/-- What an instruction is, without its operator. -/
def InstructionKind.form : InstructionKind Op → InstructionKind Unit
  | parameter name => parameter name
  | literal value => literal value
  | operation _ => operation ()
  | result => result

/-- An instruction without its operator. -/
def Instruction.form (ins : Instruction Op) : Instruction Unit :=
  ⟨ins.kind.form, ins.inputs, ins.shape⟩

namespace Module

/-- A module without its operators. -/
def graph (m : Module Op) : Module Unit :=
  ⟨m.name, m.instructions.map Instruction.form, m.returnAt⟩

/-- **Replacing an operator keeps the graph.** -/
theorem graph_replace {m : Module Op} {position : Nat} {ins : Instruction Op} {old : Op}
    (hi : m.instruction? position = some ins) (hk : ins.kind = .operation old) (op : Op) :
    (m.replace position ins op).graph = m.graph := by
  have hform : Instruction.form { ins with kind := .operation op } = ins.form := by
    unfold Instruction.form
    rw [hk]
    rfl
  have hsame : (m.replace position ins op).instructions.map Instruction.form =
      m.instructions.map Instruction.form := map_set_of_same hi hform
  unfold graph
  rw [hsame]
  rfl

/-! ## 2. Calls on a sealed module -/

variable [Signature Op]

/-- **A call on a sealed module replaces an operator or fails.** -/
theorem apply_of_sealed {m after : Module Op} {r : Nat} (hr : m.returnAt = some r) {call : Call Op}
    (ha : m.apply call = .ok after) :
    ∃ position op ins old, call = .replacement position op ∧ m.instruction? position = some ins ∧
      ins.kind = .operation old ∧ after = m.replace position ins op := by
  -- a call that adds an instruction asks first whether the module is open
  have hclosed : m.returnAt ≠ none := by
    rw [hr]
    nofun
  cases call with
  | parameter name shape =>
    obtain ⟨hopen, _, _⟩ := (addParameter_eq_ok m after name shape).mp ha
    exact absurd hopen hclosed
  | literal value =>
    obtain ⟨hopen, _, _⟩ := (addLiteral_eq_ok m after value).mp ha
    exact absurd hopen hclosed
  | instruction op inputs =>
    obtain ⟨hopen, _, _⟩ := (addInstruction_eq_ok m after op inputs).mp ha
    exact absurd hopen hclosed
  | result outputs =>
    obtain ⟨hopen, _, _⟩ := (addReturn_eq_ok m after outputs).mp ha
    exact absurd hopen hclosed
  | replacement position op =>
    obtain ⟨ins, old, hi, hk, _, _, hafter⟩ := (replaceOperation_eq_ok m after position op).mp ha
    exact ⟨position, op, ins, old, rfl, hi, hk, hafter⟩

theorem graph_step_of_sealed {m : Module Op} {r : Nat} (hr : m.returnAt = some r) (call : Call Op) :
    (m.step call).graph = m.graph := by
  unfold step
  cases ha : m.apply call with
  | error f => rfl
  | ok after =>
    obtain ⟨position, op, ins, old, _, hi, hk, rfl⟩ := apply_of_sealed hr ha
    exact graph_replace hi hk op

/-- **Calls on a sealed module keep its graph**, those that fail included. -/
theorem graph_run_of_sealed {m : Module Op} {r : Nat} (hr : m.returnAt = some r)
    (calls : List (Call Op)) : (m.run calls).graph = m.graph := by
  induction calls generalizing m with
  | nil => rfl
  | cons call rest ih =>
    have hgraph := graph_step_of_sealed hr call
    have hsealed : (m.step call).returnAt = some r := by
      have hreturn : (m.step call).returnAt = m.returnAt :=
        congrArg (fun g : Module Unit => g.returnAt) hgraph
      rw [hreturn, hr]
    rw [run, ih hsealed, hgraph]

end Module

end TensorGraph
