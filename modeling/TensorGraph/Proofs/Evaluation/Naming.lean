import TensorGraph.Proofs.Evaluation.Compiled
import TensorGraph.Proofs.Evaluation.Failures
import TensorGraph.Proofs.Operator.Blame

/-!
# Errors name the operator that failed

Much of what an operator asks for is checked by helpers that do not know the operator: broadcasting, views,
reading elements. Their errors name nobody, and the name is put in where the operator is known. Since it is
put in only where there is none, all depends on nobody else's being there before.

* `Operator.run_errors`, `Operation.run_errors` -- whatever goes wrong in an operation names it or nobody;
* `Module.addInstruction_error` -- an instruction is refused without a name if the module is sealed or an
  operand cannot be read, and else in the name of the operator;
* `runOperation_error`, `runInstruction_error` -- an evaluated operation fails because its computation does,
  or because of its shape, and either way in the name of the operator;
* `Program.errors_name_operator` -- both, for a module that is built and for a program that is evaluated.
-/

namespace TensorGraph

open Outcome Error

/-! ## 1. Tensors -/

namespace Tensor

variable (name : String)

theorem checkBacks_errors (shape : Shape) (storage : Storage) :
    (checkBacks shape storage).ErrorsAre (NamesAtMost name) := by
  have hreach : shape.bufferReachWord.ErrorsAre (NamesAtMost name) :=
    (errorsAre_ofOption _).bind fun _ => ErrorsAre.check (errorsAre_pure _) (errorsAre_word _)
  have hsize : (do
      let reach ← shape.bufferReachWord
      if storage.size < reach then Outcome.fail (.bufferTooSmall storage.size shape)).ErrorsAre
        (NamesAtMost name) :=
    hreach.bind fun _ => ErrorsAre.check (errorsAre_fail (namesAtMost_unnamed name _)) (errorsAre_pure _)
  exact ErrorsAre.check ((errorsAre_fail (namesAtMost_unnamed name _)).bind fun _ => hsize) hsize

theorem ofBuffer_errors (shape : Shape) (buffer : Buffer) :
    (ofBuffer shape buffer).ErrorsAre (NamesAtMost name) :=
  (checkBacks_errors name shape buffer.storage).bind fun _ => errorsAre_pure _

theorem view_errors (x : Tensor) (shape : Shape) : (x.view shape).ErrorsAre (NamesAtMost name) := by
  unfold view
  split
  · exact ofBuffer_errors name shape _
  · exact errorsAre_ok _

theorem storage_errors (x : Tensor) : x.storage.ErrorsAre (NamesAtMost name) := by
  unfold Tensor.storage
  split
  · exact errorsAre_ok _
  · exact errorsAre_fail (namesAtMost_unnamed name _)

theorem contiguous_errors (x : Tensor) (identity : Nat) :
    (x.contiguous identity).ErrorsAre (NamesAtMost name) := by
  refine ErrorsAre.bind ((storage_errors name x).bind fun storage => ?_) fun _ => ofBuffer_errors name _ _
  unfold Storage.gather
  split
  · exact errorsAre_ok _
  · exact errorsAre_fault

theorem floats_errors [ShortFloats] (x : Tensor) : x.floats.ErrorsAre (NamesAtMost name) := by
  refine (storage_errors name x).bind fun storage => ErrorsAre.mapM (fun offset => ?_) _
  unfold floatAt
  split
  · exact errorsAre_ok _
  · exact errorsAre_fail (namesAtMost_unnamed name _)

end Tensor

/-! ## 2. Operations -/

theorem oneArgument_errors (name : String) (args : List Tensor) :
    (oneArgument name args).ErrorsAre (NamesAtMost name) := by
  unfold oneArgument
  split
  · exact errorsAre_ok _
  · exact errorsAre_failIn (namesAtMost_named name _)

/-- **What goes wrong in an operator names it or nobody.** -/
theorem Operator.run_errors (o : Operator) (output : Shape) (args : List Tensor) (identity : Nat) :
    (o.run output args identity).ErrorsAre (NamesAtMost o.name) := by
  cases o with
  | convolution c => exact errorsAre_failIn (namesAtMost_named _ _)
  | pooling p => exact errorsAre_failIn (namesAtMost_named _ _)
  | gemm => exact errorsAre_failIn (namesAtMost_named _ _)
  | activation mode => exact errorsAre_failIn (namesAtMost_named _ _)
  | binary b => exact errorsAre_failIn (namesAtMost_named _ _)
  | unary f =>
    show (f.run args).ErrorsAre _
    unfold UnaryFunction.run
    split
    · exact errorsAre_ok _
    · exact errorsAre_failIn (namesAtMost_named _ _)
  | transpose dims =>
    exact (oneArgument_errors _ args).bind fun x => x.view_errors _ output
  | contiguous =>
    exact (oneArgument_errors _ args).bind fun x =>
      (x.contiguous_errors _ identity).withOperator fun _ h => .inr h.withOperator
  | reshape dims =>
    refine (oneArgument_errors _ args).bind fun x => ?_
    exact ErrorsAre.check
      ((errorsAre_failIn (namesAtMost_named _ _)).bind fun _ => x.view_errors _ output)
      (x.view_errors _ output)
  | broadcast axis =>
    show (Alignment.run output args).ErrorsAre _
    unfold Alignment.run
    split
    · exact Tensor.view_errors _ _ output
    · exact errorsAre_failIn (namesAtMost_named _ _)
  | outline shape => exact errorsAre_ok _

namespace Kernel

variable [ShortFloats]

theorem compute_errors (b : Binary) (output : Shape) (args : List Tensor) (identity : Nat) :
    (compute b output args identity).ErrorsAre (NamesAtMost (name b)) := by
  unfold compute
  split
  · rename_i left right _
    have hsecond : (secondArgument b left right).ErrorsAre (NamesAtMost (name b)) := by
      unfold secondArgument
      split
      · exact errorsAre_ok _
      · refine ErrorsAre.bind (fun e h => ?_) fun shape => right.view_errors _ shape
        exact (Shape.broadcast_errors (name b) _ _ _ e h).2
    exact hsecond.bind fun aligned => (left.floats_errors _).bind fun _ =>
      (aligned.floats_errors _).bind fun _ => Tensor.ofBuffer_errors _ _ _
  · exact errorsAre_fault

theorem run_errors (b : Binary) (output : Shape) (args : List Tensor) (identity : Nat) (ctx : Context) :
    (run b output args identity ctx).1.ErrorsAre (NamesAtMost (name b)) := by
  unfold run Context.countKernel
  cases ctx with
  | cpu n => exact compute_errors b output args identity
  | null => exact errorsAre_failIn (namesAtMost_named _ _)
  | int value => exact errorsAre_failIn (namesAtMost_named _ _)

end Kernel

/-- **What goes wrong in an operation names it or nobody.** -/
theorem Operation.run_errors [ShortFloats] (op : Operation) (output : Shape) (args : List Tensor)
    (identity : Nat)
    (ctx : Context) : (op.run output args identity ctx).1.ErrorsAre (NamesAtMost op.name) := by
  cases op with
  | catalog o => exact o.run_errors output args identity
  | kernel b => exact Kernel.run_errors b output args identity ctx
  | checkContext expected =>
    refine ErrorsAre.bind ?_ fun _ => errorsAre_pure _
    exact ErrorsAre.check (errorsAre_ok ()) (errorsAre_failIn (namesAtMost_named _ _))

/-! ## 3. Insertions -/

namespace Module

variable {Op : Type}

theorem checkOpen_errors (m : Module Op) :
    m.checkOpen.ErrorsAre fun e => e.kind = .structural ∧ e.operator = none := by
  unfold checkOpen
  split
  · exact errorsAre_fail ⟨rfl, rfl⟩
  · exact errorsAre_ok ()

theorem checkOperands_errors (m : Module Op) (inputs : List Nat) :
    (m.checkOperands inputs).ErrorsAre fun e => e.kind = .structural ∧ e.operator = none := by
  induction inputs with
  | nil => exact errorsAre_ok ()
  | cons i rest ih =>
    exact ErrorsAre.check (errorsAre_fail ⟨rfl, rfl⟩)
      (ErrorsAre.check (errorsAre_fail ⟨rfl, rfl⟩) ih)

/-- **An instruction is refused without a name** if the module is sealed or an operand cannot be read, and
    else in the name of its operator, with an error about shapes or attributes. -/
theorem addInstruction_error {m : Module Operation} {o : Operator} {inputs : List Nat} {e : Error}
    (h : m.addInstruction (.catalog o) inputs = .error (.error e)) :
    (e.kind = .structural ∧ e.operator = none ∧ (m.returnAt ≠ none ∨ ¬ m.Readable inputs)) ∨
      (e.kind.AboutInput ∧ e.operator = some o.name ∧ m.returnAt = none ∧ m.Readable inputs) := by
  rcases bind_eq_error.mp h with hopen | ⟨_, hopen, h⟩
  · obtain ⟨hk, hn⟩ := m.checkOpen_errors e hopen
    refine .inl ⟨hk, hn, .inl fun hr => ?_⟩
    rw [(m.checkOpen_eq_ok).mpr hr] at hopen
    cases hopen
  · rcases bind_eq_error.mp h with hinfer | ⟨_, _, hpure⟩
    · rcases bind_eq_error.mp hinfer with hoperands | ⟨_, hoperands, hshape⟩
      · obtain ⟨hk, hn⟩ := m.checkOperands_errors inputs e hoperands
        refine .inl ⟨hk, hn, .inr fun hr => ?_⟩
        rw [(m.checkOperands_eq_ok inputs).mpr hr] at hoperands
        cases hoperands
      · have hnamed : ((o.infer (m.shapesOf inputs)).withOperator o.name).ErrorsAre fun e =>
            e.kind.AboutInput ∧ e.operator = some o.name :=
          (o.infer_errors _).withOperator fun _ he => ⟨he.1, he.2.withOperator⟩
        obtain ⟨hk, hn⟩ := hnamed e hshape
        exact .inr ⟨hk, hn, (m.checkOpen_eq_ok).mp hopen, (m.checkOperands_eq_ok inputs).mp hoperands⟩
    · exact absurd hpure pure_ne_error

end Module

/-! ## 4. Evaluated operations -/

/-- To take operands from the values is no error: it succeeds or is a fault. -/
theorem operandValues_errors {P : Error → Prop} (values : List Tensor) (inputs : List Nat) :
    (operandValues values inputs).ErrorsAre P :=
  ErrorsAre.mapM (fun _ => errorsAre_ofOption _) inputs

/-- How an operation fails over arguments in a context: its computation does, or it is verified and gives a
    shape that was not inferred. -/
inductive Operation.FailsOver [ShortFloats] (config : Config) (position : Nat)
    (ins : Instruction Operation)
    (args : List Tensor) (identity : Nat) (ctx : Context) (op : Operation) : Cause → Prop where
  | computation {e : Error} : (op.run ins.shape args identity ctx).1 = .error (.error e) →
      FailsOver config position ins args identity ctx op e.cause
  | verification {value : Tensor} : (op.run ins.shape args identity ctx).1 = .ok value →
      config.verifyShapes = true → value.shape ≠ ins.shape →
      FailsOver config position ins args identity ctx op (.computedShape position value.shape ins.shape)

section Evaluation

variable [ShortFloats] {config : Config} {firstBuffer : Nat} {values : List Tensor}
  {ins : Instruction Operation} {before after : Context} {e : Error}

/-- **An evaluated operation fails in its own name**, by its computation or by its shape. -/
theorem runOperation_error {op : Operation}
    (h : runOperation config firstBuffer values op ins before = (.error (.error e), after)) :
    e.operator = some op.name ∧ ∃ args, operandValues values ins.inputs = .ok args ∧
      op.FailsOver config values.length ins args (firstBuffer + values.length) before e.cause := by
  unfold runOperation at h
  cases ha : operandValues values ins.inputs with
  | error f =>
    rw [ha] at h
    cases h
    exact absurd (operandValues_errors (P := fun _ => False) values ins.inputs e ha) id
  | ok args =>
    have herrors := op.run_errors ins.shape args (firstBuffer + values.length) before
    rcases hr : Dialect.run op ins.shape args (firstBuffer + values.length) before with ⟨outcome, later⟩
    have hrun : (op.run ins.shape args (firstBuffer + values.length) before).1 = outcome :=
      congrArg Prod.fst hr
    rw [ha] at h
    dsimp only at h
    rw [hr] at h
    cases outcome with
    | error f =>
      cases f with
      | fault => cases h
      | error inner =>
        have hfails : op.FailsOver config values.length ins args (firstBuffer + values.length) before
            inner.cause := .computation hrun
        cases h
        exact ⟨(herrors inner hrun).withOperator, args, rfl, hfails⟩
    | ok value =>
      dsimp only [Outcome.withOperator] at h
      split at h
      · rename_i hc
        cases h
        exact ⟨rfl, args, rfl, .verification hrun hc.1 hc.2⟩
      · cases h

/-- **An instruction with its parameter bound fails only as an operation**, and in the operation's name. -/
theorem runInstruction_error {bindings : Bindings}
    (hbound : ∀ name, ins.kind = .parameter name → ∃ value, bindings name = some value)
    (h : runInstruction config bindings firstBuffer values ins before = (.error (.error e), after)) :
    ∃ op, ins.kind = .operation op ∧ e.operator = some op.name ∧
      ∃ args, operandValues values ins.inputs = .ok args ∧
        op.FailsOver config values.length ins args (firstBuffer + values.length) before e.cause := by
  unfold runInstruction at h
  cases hk : ins.kind with
  | parameter name =>
    obtain ⟨value, hb⟩ := hbound name hk
    rw [hk] at h
    dsimp only at h
    rw [hb] at h
    cases h
  | literal value =>
    rw [hk] at h
    cases h
  | result =>
    rw [hk] at h
    cases h
  | operation op =>
    rw [hk] at h
    exact ⟨op, rfl, runOperation_error h⟩

end Evaluation

/-! ## 5. Programs -/

namespace Program

/-- To read the results is no error: it succeeds or is a fault. -/
theorem results_errors {p : Program Operation Context} {P : Error → Prop} (position : Nat) (values : List Tensor) :
    (p.results position values).ErrorsAre P := by
  unfold results
  split
  · exact operandValues_errors _ _
  · exact errorsAre_ok _

/-- **Errors name the operator that failed.**

    * An instruction over an operator of the catalog that is refused with an error: the error is a structural
      one without a name exactly if the module is sealed or an operand cannot be read. Else it is about
      shapes or attributes, and names the operator.
    * An evaluation that ends with an error although its parameters are bound, compiled or not: it ends at an
      operation, the instructions before it have run, and it is the computation or the shape of that
      operation that failed. The error names the operation. -/
theorem errors_name_operator [ShortFloats] :
    (∀ (m : Module Operation) (o : Operator) (inputs : List Nat) (e : Error),
      m.addInstruction (.catalog o) inputs = .error (.error e) →
        ((e.kind = .structural ∧ e.operator = none) ↔ (m.returnAt ≠ none ∨ ¬ m.Readable inputs)) ∧
        (m.returnAt = none → m.Readable inputs →
          (e.kind = .shapeMismatch ∨ e.kind = .invalidParameter) ∧ e.operator = some o.name)) ∧
    ∀ (p : Program Operation Context) (bindings : Bindings) (firstBuffer r : Nat) (e : Error),
      p.checkCall bindings = .ok r → (p.eval bindings firstBuffer).outcome = .error (.error e) →
        let values := p.values bindings firstBuffer
        (∀ k < values.length, ∃ ins value before after, p.main.instruction? k = some ins ∧
          values[k]? = some value ∧
          runInstruction p.config bindings firstBuffer (values.take k) ins before = (.ok value, after)) ∧
        ∃ ins op args before, p.main.instruction? values.length = some ins ∧ ins.kind = .operation op ∧
          operandValues values ins.inputs = .ok args ∧
          op.FailsOver p.config values.length ins args (firstBuffer + values.length) before e.cause ∧
          e.operator = some op.name := by
  constructor
  · intro m o inputs e h
    rcases Module.addInstruction_error h with ⟨hk, hn, hwhy⟩ | ⟨hk, hn, hopen, hreadable⟩
    · refine ⟨iff_of_true ⟨hk, hn⟩ hwhy, fun hopen hreadable => ?_⟩
      exact absurd hwhy (not_or.mpr ⟨not_not.mpr hopen, not_not.mpr hreadable⟩)
    · have hnone : ¬ (e.kind = .structural ∧ e.operator = none) := by
        rw [hn]
        exact fun h => nomatch h.2
      refine ⟨iff_of_false hnone ?_, fun _ _ => ⟨hk, hn⟩⟩
      exact not_or.mpr ⟨not_not.mpr hopen, not_not.mpr hreadable⟩
  · intro p bindings firstBuffer r e hc heval values
    obtain ⟨_, hbindings⟩ := checkCall_eq_ok.mp hc
    rw [eval_of_called hc] at heval
    constructor
    · intro k hk
      have hv : values[([] : List Tensor).length + k]? = some values[k] := by
        rw [List.length_nil, Nat.zero_add, List.getElem?_eq_getElem hk]
      obtain ⟨ins, before, after, hi, hr⟩ := evaluate_reached p.config bindings firstBuffer hv
      rw [List.length_nil, Nat.zero_add] at hr
      exact ⟨ins, values[k], before, after, hi, List.getElem?_eq_getElem hk, hr⟩
    · have hall : p.main.instructions.drop ([] : List Tensor).length = p.main.instructions := rfl
      rcases evaluate_end p.config bindings firstBuffer hall p.context with
        ⟨hok, _⟩ | ⟨f, ins, before, hf, hi, hr⟩
      · -- with all values there, nothing is left to fail but the results
        rcases bind_eq_error.mp heval with hwalk | ⟨_, _, hresults⟩
        · cases hok.symm.trans hwalk
        · exact absurd (results_errors (P := fun _ => False) r _ e hresults) id
      · rcases bind_eq_error.mp heval with hwalk | ⟨_, hwalk, _⟩
        · cases hf.symm.trans hwalk
          have hbound : ∀ name, ins.kind = .parameter name → ∃ value, bindings name = some value := by
            intro name hk
            have hmem : (name, ins.shape) ∈ p.main.parameters :=
              List.mem_filterMap.mpr ⟨ins, List.mem_of_getElem? hi, by rw [hk]; rfl⟩
            obtain ⟨value, hb, _⟩ := checkBindings_eq_ok.mp hbindings _ hmem
            exact ⟨value, hb⟩
          obtain ⟨op, hk, hname, args, ha, hfails⟩ := runInstruction_error hbound hr
          exact ⟨ins, op, args, before, hi, hk, ha, hfails, hname⟩
        · cases hf.symm.trans hwalk

/-- Calls that declare a matrix and a row that is too short for it. -/
def unevenCalls : List (Call Operation) :=
  [.parameter "x" (.standard .f32 [2, 3]), .parameter "y" (.standard .f32 [2])]

/-- Calls that add `x` to itself. -/
def doublingCalls : List (Call Operation) :=
  [.parameter "x" (.standard .f32 [2]), .instruction (.catalog (.binary ⟨.add, none⟩)) [0, 0],
    .result [1]]

/-- Broadcasting does not know for whom it fails, and no more does a tensor that is asked for its elements.
    The one error names the broadcast whose row is too short, and the other one the kernel that was to add
    placeholders. -/
theorem helpers_errors_named :
    let m := (Module.new mainName).run unevenCalls
    let short : Error := ⟨some "broadcast", .broadcastLengths [2] [2, 3] 1⟩
    let x := Tensor.placeholder (.standard .f32 [2])
    let empty : Error := ⟨some "cpu::add", .noData x.shape⟩
    m.addInstruction (.catalog (.broadcast 1)) [0, 1] = .error (.error short) ∧
      (m.returnAt = none ∧ m.Readable [0, 1]) ∧
      ∃ p : Program Operation Context,
        ((ofCalls doublingCalls).compile Cpu.target).outcome = .ok p ∧
        p.checkCall (fun _ => some x) = .ok 2 ∧
        (p.eval (fun _ => some x) 7).outcome = .error (.error empty) ∧
        ∃ ins op args before, p.main.instruction? 1 = some ins ∧ ins.kind = .operation op ∧
          op.name = "cpu::add" ∧
          op.FailsOver p.config 1 ins args 8 before (.noData (.standard .f32 [2])) := by
  intro m short x empty
  obtain ⟨hadded, hevaluated⟩ := errors_name_operator
  have hshort : m.addInstruction (.catalog (.broadcast 1)) [0, 1] = .error (.error short) := rfl
  have hclean : ¬ (m.returnAt ≠ none ∨ ¬ m.Readable [0, 1]) := by
    refine mt (hadded m _ _ _ hshort).1.mpr ?_
    exact fun h => nomatch h.2
  obtain ⟨p, hp, hcall, heval, hlength⟩ : ∃ p,
      ((ofCalls doublingCalls).compile Cpu.target).outcome = .ok p ∧
        p.checkCall (fun _ => some x) = .ok 2 ∧
        (p.eval (fun _ => some x) 7).outcome = .error (.error empty) ∧
        (p.values (fun _ => some x) 7).length = 1 := ⟨_, rfl, rfl, rfl, rfl⟩
  refine ⟨hshort, ?_, p, hp, hcall, heval, ?_⟩
  · exact ⟨not_not.mp (not_or.mp hclean).1, not_not.mp (not_or.mp hclean).2⟩
  · obtain ⟨_, ins, op, args, before, hi, hk, _, hfails, hname⟩ :=
      hevaluated p (fun _ => some x) 7 2 empty hcall heval
    rw [hlength] at hi hfails
    exact ⟨ins, op, args, before, hi, hk, (Option.some.inj hname).symm, hfails⟩

end Program

end TensorGraph
