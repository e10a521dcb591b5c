import TensorGraph.Dialect

/-!
# Modules

A module is a named graph of instructions in the order in which they were added. An instruction is
known by its position, and its operands are positions too. Beside what it is and what it reads,
each instruction keeps its shape, found once when it was added:

    @0 = @param:x -> f32, {4, 6}, {6, 1}
    @1 = @literal -> f32, {6, 2}, {2, 1}
    @2 = gemm(@0, @1) -> f32, {4, 2}, {2, 1}
    @3 = @return(@2) -> f32, {4, 2}, {2, 1}

* `Module.parameters`, `Module.outputShapes` -- what goes in and what comes out;
* `Module.text` -- the listing above;
* `Module.agree` -- the same instructions in the same order, whatever the names of the modules.

How a module grows is in `TensorGraph.Module.Building`.
-/

namespace TensorGraph

/-- What an instruction is. -/
inductive InstructionKind (Op : Type) where
  /-- An input, bound by name when the module is evaluated. -/
  | parameter (name : String)
  /-- A constant. -/
  | literal (value : Tensor)
  | operation (op : Op)
  /-- Its operands are the results of the module. -/
  | result

/-- What an instruction is, which instructions it reads, and its shape. -/
structure Instruction (Op : Type) where
  kind : InstructionKind Op
  inputs : List Nat
  shape : Shape

/-- A named graph of instructions. -/
structure Module (Op : Type) where
  name : String
  instructions : List (Instruction Op)
  /-- The position of the return instruction, once there is one. -/
  returnAt : Option Nat

namespace InstructionKind

variable {Op : Type}

/-- The operator of an operation. -/
def operation? : InstructionKind Op → Option Op
  | operation op => some op
  | _ => none

/-- The name of a parameter. -/
def parameterName? : InstructionKind Op → Option String
  | parameter name => some name
  | _ => none

/-- The name of an instruction: its operator's, or a word for what it is. -/
def name [Signature Op] : InstructionKind Op → String
  | parameter _ => "@param"
  | literal _ => "@literal"
  | operation op => Signature.name op
  | result => "@return"

/-- The text of an instruction in a listing: attributes and the names of parameters included. -/
def text [Signature Op] : InstructionKind Op → String
  | parameter name => "@param:" ++ name
  | literal _ => "@literal"
  | operation op => Signature.text op
  | result => "@return"

/-- Equal names, literals or operators. -/
def agree [BEq Op] : InstructionKind Op → InstructionKind Op → Bool
  | parameter name, parameter name' => name == name'
  | literal value, literal value' => value == value'
  | operation op, operation op' => op == op'
  | result, result => true
  | _, _ => false

end InstructionKind

namespace Instruction

variable {Op : Type}

/-- The same instruction with the same operands and the same shape. -/
def agree [BEq Op] (a b : Instruction Op) : Bool :=
  a.kind.agree b.kind && a.inputs == b.inputs && a.shape == b.shape

/-- References to instructions, separated by commas. -/
def references (inputs : List Nat) : String :=
  Text.separated ", " (inputs.map Cause.reference)

/-- The line of an instruction in a listing. -/
def line [Signature Op] (position : Nat) (ins : Instruction Op) : String :=
  let operands := if ins.inputs.isEmpty then "" else "(" ++ references ins.inputs ++ ")"
  Cause.reference position ++ " = " ++ ins.kind.text ++ operands ++ " -> " ++ ins.shape.text ++ "\n"

end Instruction

namespace Module

variable {Op : Type}

/-- A module without instructions. -/
def new (name : String) : Module Op := ⟨name, [], none⟩

/-- The number of instructions. -/
def size (m : Module Op) : Nat := m.instructions.length

/-- The instruction at a position. -/
def instruction? (m : Module Op) (position : Nat) : Option (Instruction Op) :=
  m.instructions[position]?

/-- The error of a position at which there is no instruction. -/
def unknown {α : Type} (m : Module Op) (position : Nat) : Outcome α :=
  Outcome.fail (.unknownInstruction position m.name m.size)

/-- The shape of the instruction at a position. -/
def shapeOf (m : Module Op) (position : Nat) : Outcome Shape :=
  match m.instruction? position with
  | some ins => .ok ins.shape
  | none => m.unknown position

/-- The shapes of the instructions at some positions, left out where there is no instruction. -/
def shapesOf (m : Module Op) (positions : List Nat) : List Shape :=
  positions.filterMap fun i => (m.instruction? i).map Instruction.shape

/-- The parameters with their shapes, in the order in which they were declared. -/
def parameters (m : Module Op) : List (String × Shape) :=
  m.instructions.filterMap fun ins => ins.kind.parameterName?.map fun name => (name, ins.shape)

/-- The shape of a parameter. -/
def parameterShape? (m : Module Op) (name : String) : Option Shape := m.parameters.lookup name

/-- The shapes of the results, none as long as there is no return instruction. -/
def outputShapes (m : Module Op) : List Shape :=
  match m.returnAt.bind m.instruction? with
  | some ins => m.shapesOf ins.inputs
  | none => []

/-- The same instructions in the same order. Names are not compared. -/
def agree [BEq Op] (a b : Module Op) : Bool :=
  a.instructions.isEqv b.instructions Instruction.agree

/-- The lines of instructions whose first one has the given position. -/
def lines [Signature Op] (position : Nat) : List (Instruction Op) → String
  | [] => ""
  | ins :: rest => ins.line position ++ lines (position + 1) rest

/-- The listing of a module, a line for each instruction. -/
def text [Signature Op] (m : Module Op) : String := lines 0 m.instructions

end Module

end TensorGraph
