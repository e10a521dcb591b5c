import TensorGraph.Program.Basic

/-!
# Evaluating a program

The main module is evaluated in the order of its instructions, with its parameters bound by name.
The bindings are checked first: that there is a return instruction, and then, in the order in which
the parameters were declared, that each is bound to a tensor of its shape. Only then is the context
used. The first instruction that fails ends the evaluation, and no result is given.

* `runInstruction` -- one instruction over the values of the earlier ones;
* `evaluate` -- the instructions from a position on, with everything that a later question may
  ask (`Evaluation`): the values that were reached, how it ended, the context and the records;
* `Program.eval` -- the whole: the outcome, and the program after it, in which only the context can
  have changed.

Kernels make buffers; the buffer that the instruction at position `i` makes has the identity
`firstBuffer + i`.
-/

namespace TensorGraph

/-- What the parameters are bound to. -/
abbrev Bindings := String → Option Tensor

section Instructions

variable {Op Ctx : Type} [Dialect Op Ctx]

/-- The values of operands, which have to be there. -/
def operandValues (values : List Tensor) (inputs : List Nat) : Outcome (List Tensor) :=
  inputs.mapM fun i => Outcome.ofOption values[i]?

/-- Runs an operator over the values of its operands. An error of its kernel is one of the operator,
    and so is a shape that differs from the inferred one, if shapes are verified. -/
def runOperation (config : Config) (firstBuffer : Nat) (values : List Tensor) (op : Op)
    (ins : Instruction Op) (ctx : Ctx) : Outcome Tensor × Ctx :=
  match operandValues values ins.inputs with
  | .error f => (.error f, ctx)
  | .ok args =>
    let (outcome, after) := Dialect.run op ins.shape args (firstBuffer + values.length) ctx
    match outcome.withOperator (Signature.name op) with
    | .error f => (.error f, after)
    | .ok value =>
      if config.verifyShapes ∧ value.shape ≠ ins.shape then
        (Outcome.failIn (Signature.name op)
          (.computedShape values.length value.shape ins.shape), after)
      else (.ok value, after)

/-- The value of the instruction after those whose values are given. -/
def runInstruction (config : Config) (bindings : Bindings) (firstBuffer : Nat)
    (values : List Tensor) (ins : Instruction Op) (ctx : Ctx) : Outcome Tensor × Ctx :=
  match ins.kind with
  | .parameter name =>
    match bindings name with
    | some value => (.ok value, ctx)
    | none => (Outcome.fail (.parameterUnbound name), ctx)
  | .literal value => (.ok value, ctx)
  | .operation op => runOperation config firstBuffer values op ins ctx
  | .result => (.ok Tensor.empty, ctx)

/-- What the evaluation of some instructions came to. -/
structure Evaluation (Ctx : Type) where
  /-- The values of the instructions that succeeded, in their order. -/
  values : List Tensor
  /-- Whether all instructions succeeded, or how the first other one failed. -/
  outcome : Outcome Unit
  context : Ctx
  records : List Record

/-- The record of an evaluated instruction, if instructions are traced. -/
def traceOf (config : Config) (position : Nat) (ins : Instruction Op) (value : Tensor) :
    List Record :=
  if config.traceEval then
    [⟨.trace, Cause.reference position ++ " = " ++ ins.kind.name ++ " -> " ++ value.shape.text⟩]
  else []

/-- Evaluates instructions one after the other, up to the first that fails; the values of the
    instructions before them are given. -/
def evaluate (config : Config) (bindings : Bindings) (firstBuffer : Nat) :
    List (Instruction Op) → List Tensor → Ctx → Evaluation Ctx
  | [], values, ctx => ⟨values, .ok (), ctx, []⟩
  | ins :: rest, values, ctx =>
    match runInstruction config bindings firstBuffer values ins ctx with
    | (.error f, after) => ⟨values, .error f, after, []⟩
    | (.ok value, after) =>
      let later := evaluate config bindings firstBuffer rest (values ++ [value]) after
      { later with records := traceOf config values.length ins value ++ later.records }

end Instructions

namespace Program

variable {Op Ctx : Type}

/-- Every parameter is bound to a tensor of its shape; the first that is not is the error. -/
def checkBindings (bindings : Bindings) : List (String × Shape) → Outcome Unit
  | [] => .ok ()
  | (name, shape) :: rest =>
    match bindings name with
    | none => Outcome.fail (.parameterUnbound name)
    | some value =>
      if value.shape ≠ shape then Outcome.fail (.bindingShape name shape value.shape)
      else checkBindings bindings rest

/-- The return instruction is there, and the parameters are bound. -/
def checkCall (p : Program Op Ctx) (bindings : Bindings) : Outcome Nat :=
  match p.main.returnAt with
  | none => Outcome.fail (.noReturn p.main.name)
  | some position => do
    checkBindings bindings p.main.parameters
    return position

/-- The values of the results: those that the instruction at the given position reads. -/
def results (p : Program Op Ctx) (position : Nat) (values : List Tensor) : Outcome (List Tensor) :=
  match p.main.instruction? position with
  | some ins => operandValues values ins.inputs
  | none => .ok []

/-- What the evaluation of a program came to. -/
structure Run (Op Ctx : Type) where
  outcome : Outcome (List Tensor)
  program : Program Op Ctx
  records : List Record

/-- Evaluates the main module. -/
def eval [Dialect Op Ctx] (p : Program Op Ctx) (bindings : Bindings) (firstBuffer : Nat) :
    Run Op Ctx :=
  match p.checkCall bindings with
  | .error f => ⟨.error f, p, []⟩
  | .ok position =>
    let e := evaluate p.config bindings firstBuffer p.main.instructions [] p.context
    ⟨do e.outcome; p.results position e.values, { p with context := e.context }, e.records⟩

end Program

end TensorGraph
