import TensorGraph.Module.Basic
import TensorGraph.Report

/-!
# Building modules

A module grows by calls. Each call either gives the module after it or an error, and after an
error the module is what it was. What every module keeps that is built this way:

* operands are earlier instructions, so the order of instructions is an order of evaluation and
  there are no cycles;
* there is at most one return instruction; it is the last one, and it seals the module: from then
  on only operators may be replaced;
* a replaced operator has to infer the same shape, so no shape that was found is ever wrong.

Before anything else, a call that adds an instruction asks whether the module is sealed.

* `Module.addParameter`, `addLiteral`, `addInstruction`, `addReturn`, `replaceOperation`;
* `Call`, `Module.apply` -- the same as data, for those who reason about sequences of calls;
* `Module.perform` -- a call together with the record that tells about it;
* `Module.validate` -- whether a module is complete.
-/

namespace TensorGraph

/-- A call that builds or changes a module. -/
inductive Call (Op : Type) where
  | parameter (name : String) (shape : Shape)
  | literal (value : Tensor)
  | instruction (op : Op) (inputs : List Nat)
  | result (outputs : List Nat)
  | replacement (position : Nat) (op : Op)

namespace Module

variable {Op : Type}

/-! ## 1. Checks -/

/-- The module has no return instruction yet. -/
def checkOpen (m : Module Op) : Outcome Unit :=
  match m.returnAt with
  | some position => Outcome.fail (.moduleSealed m.name position)
  | none => .ok ()

/-- All positions are those of instructions that can be read; the first that is not is the error. -/
def checkOperands (m : Module Op) : List Nat → Outcome Unit
  | [] => .ok ()
  | i :: rest =>
    if m.size ≤ i then m.unknown i
    else if m.returnAt = some i then Outcome.fail (.returnAsOperand i)
    else m.checkOperands rest

/-- The shape of an operator over instructions of the module. -/
def infer [Signature Op] (m : Module Op) (op : Op) (inputs : List Nat) : Outcome Shape := do
  m.checkOperands inputs
  (Signature.infer op (m.shapesOf inputs)).withOperator (Signature.name op)

/-! ## 2. Growing -/

/-- The module with one more instruction, at the position that was its size. -/
def push (m : Module Op) (ins : Instruction Op) : Module Op :=
  { m with instructions := m.instructions ++ [ins] }

/-- Declares an input. Its name is new to the module. -/
def addParameter (m : Module Op) (name : String) (shape : Shape) : Outcome (Module Op) := do
  m.checkOpen
  if (m.parameterShape? name).isSome then Outcome.fail (.parameterExists m.name name)
  return m.push ⟨.parameter name, [], shape⟩

/-- Puts a constant into the module. It is no placeholder. -/
def addLiteral (m : Module Op) (value : Tensor) : Outcome (Module Op) := do
  m.checkOpen
  if !value.hasData then Outcome.fail (.literalWithoutData value.shape)
  return m.push ⟨.literal value, [], value.shape⟩

/-- Applies an operator to instructions of the module and keeps the shape it infers. -/
def addInstruction [Signature Op] (m : Module Op) (op : Op) (inputs : List Nat) :
    Outcome (Module Op) := do
  m.checkOpen
  let shape ← m.infer op inputs
  return m.push ⟨.operation op, inputs, shape⟩

/-- The shape of a return instruction: that of its only operand, or the one without axes. -/
def returnShape (m : Module Op) (outputs : List Nat) : Shape :=
  match m.shapesOf outputs with
  | [shape] => shape
  | _ => default

/-- Makes some instructions the results of the module and seals it. -/
def addReturn (m : Module Op) (outputs : List Nat) : Outcome (Module Op) := do
  m.checkOpen
  m.checkOperands outputs
  return { m.push ⟨.result, outputs, m.returnShape outputs⟩ with returnAt := some m.size }

/-- Puts another operator in the place of one. It has to infer the same shape for the same
    operands. -/
def replaceOperation [Signature Op] (m : Module Op) (position : Nat) (op : Op) :
    Outcome (Module Op) :=
  match m.instruction? position with
  | none => m.unknown position
  | some ins =>
    match ins.kind with
    | .operation _ => do
      let shape ← m.infer op ins.inputs
      if shape ≠ ins.shape then
        Outcome.failIn (Signature.name op) (.replacementShape position shape ins.shape)
      return { m with instructions := m.instructions.set position { ins with kind := .operation op } }
    | kind => Outcome.fail (.notAnOperation position kind.name)

/-! ## 3. Calls as data -/

/-- The module after a call. -/
def apply [Signature Op] (m : Module Op) : Call Op → Outcome (Module Op)
  | .parameter name shape => m.addParameter name shape
  | .literal value => m.addLiteral value
  | .instruction op inputs => m.addInstruction op inputs
  | .result outputs => m.addReturn outputs
  | .replacement position op => m.replaceOperation position op

/-- The position of the instruction that a call on the module adds or changes. -/
def target (m : Module Op) : Call Op → Nat
  | .replacement position _ => position
  | _ => m.size

/-- An operator with its operands between parentheses. -/
def applied [Signature Op] (op : Op) (inputs : List Nat) : String :=
  Signature.text op ++ "(" ++ Instruction.references inputs ++ ")"

/-- The shape of the instruction at a position as text, nothing where there is no instruction. -/
def shapeText (m : Module Op) (position : Nat) : String :=
  match m.instruction? position with
  | some ins => ins.shape.text
  | none => ""

/-- What is told about a call that led from one module to another. -/
def account [Signature Op] (before after : Module Op) (call : Call Op) : String :=
  before.name ++ ": " ++
    match call with
    | .parameter name shape => "parameter '" ++ name ++ "' -> " ++ shape.text
    | .literal value => "literal -> " ++ value.shape.text
    | .instruction op inputs =>
      Cause.reference before.size ++ " = " ++ applied op inputs ++ " -> " ++
        after.shapeText before.size
    | .result outputs => "return(" ++ Instruction.references outputs ++ ")"
    | .replacement position op => Cause.reference position ++ " replaced by " ++ Signature.text op

/-- A call with the record that tells about it; a call that fails is not told about. -/
def perform [Signature Op] (m : Module Op) (call : Call Op) : Report (Module Op) := do
  let after ← m.apply call
  Report.emit .debug (account m after call)
  return after

/-- Calls one after the other, up to the first that fails. -/
def performAll [Signature Op] (m : Module Op) : List (Call Op) → Report (Module Op)
  | [] => pure m
  | call :: rest => do
    let after ← m.perform call
    after.performAll rest

/-! ## 4. Completeness -/

/-- The operands of the instruction at a position are earlier ones and not the return. -/
def checkReads (m : Module Op) (reader : Nat) : List Nat → Outcome Unit
  | [] => .ok ()
  | i :: rest =>
    if reader ≤ i ∨ m.returnAt = some i then Outcome.fail (.notEarlier reader m.name i)
    else m.checkReads reader rest

/-- All instructions from a position on read earlier ones. -/
def checkOrder (m : Module Op) (position : Nat) : List (Instruction Op) → Outcome Unit
  | [] => .ok ()
  | ins :: rest => do
    m.checkReads position ins.inputs
    m.checkOrder (position + 1) rest

/-- The module has a return instruction, and every instruction reads earlier ones. -/
def validate (m : Module Op) : Outcome Unit :=
  match m.returnAt with
  | none => Outcome.fail (.noReturn m.name)
  | some _ => m.checkOrder 0 m.instructions

end Module

end TensorGraph
