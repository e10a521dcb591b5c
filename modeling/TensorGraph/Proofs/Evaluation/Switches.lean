import TensorGraph.Number.Nearest
import TensorGraph.Operation
import TensorGraph.Proofs.Evaluation.Failures

/-!
# The switches of an evaluation only observe

Two evaluations of one program side by side, from the same state and over the same bindings, with any
operators whatever they compute.

* `evaluate_trace` -- telling about instructions changes nothing but what is told;
* `evaluate_verifying` -- an evaluation that verifies shapes is the one that does not, or it is that one up
  to an operation whose value has not the inferred shape (`Evaluation.Refuses`). There it stops, while
  the other one goes on;
* `Program.EvaluateAlike` -- two programs come to the same, and leave the same context;
* `Program.switches_only_observe` -- so a verified success is a success, and what fails unverified fails
  verified, there or earlier.
-/

namespace TensorGraph

section Instructions

variable {Op Ctx : Type} [Dialect Op Ctx] (bindings : Bindings) (firstBuffer : Nat)

/-! ## 1. Telling -/

/-- What an evaluation comes to, but for what it tells. -/
def Evaluation.result (e : Evaluation Ctx) : List Tensor × Outcome Unit × Ctx :=
  (e.values, e.outcome, e.context)

theorem runInstruction_trace {config config' : Config}
    (h : config'.verifyShapes = config.verifyShapes) (values : List Tensor) (ins : Instruction Op)
    (ctx : Ctx) :
    runInstruction config' bindings firstBuffer values ins ctx =
      runInstruction config bindings firstBuffer values ins ctx := by
  unfold runInstruction runOperation
  rw [h]

/-- **Telling about instructions changes nothing but what is told.** -/
theorem evaluate_trace {config config' : Config} (h : config'.verifyShapes = config.verifyShapes)
    (instructions : List (Instruction Op)) (values : List Tensor) (ctx : Ctx) :
    (evaluate config' bindings firstBuffer instructions values ctx).result =
      (evaluate config bindings firstBuffer instructions values ctx).result := by
  induction instructions generalizing values ctx with
  | nil => rfl
  | cons ins rest ih =>
    rw [evaluate, evaluate, runInstruction_trace bindings firstBuffer h]
    rcases runInstruction config bindings firstBuffer values ins ctx with ⟨outcome, after⟩
    cases outcome with
    | error f => rfl
    | ok value => exact ih (values ++ [value]) after

/-! ## 2. Verifying -/

/-- An instruction comes to the same whether shapes are verified or not, unless it is an operation that
    gives a value of another shape than the inferred one. Verified, that is an error of the operator. -/
theorem runInstruction_verifying (trace trace' : Bool) (values : List Tensor) (ins : Instruction Op)
    (ctx : Ctx) :
    runInstruction ⟨trace, true⟩ bindings firstBuffer values ins ctx =
        runInstruction ⟨trace', false⟩ bindings firstBuffer values ins ctx ∨
      ∃ op value after, ins.kind = .operation op ∧ value.shape ≠ ins.shape ∧
        runInstruction ⟨trace', false⟩ bindings firstBuffer values ins ctx = (.ok value, after) ∧
        runInstruction ⟨trace, true⟩ bindings firstBuffer values ins ctx =
          (Outcome.failIn (Signature.name op) (.computedShape values.length value.shape ins.shape),
            after) := by
  unfold runInstruction
  cases hk : ins.kind with
  | parameter name => exact Or.inl rfl
  | literal value => exact Or.inl rfl
  | result => exact Or.inl rfl
  | operation op =>
    dsimp only
    unfold runOperation
    cases operandValues values ins.inputs with
    | error f => exact Or.inl rfl
    | ok args =>
      dsimp only
      rcases Dialect.run op ins.shape args (firstBuffer + values.length) ctx with ⟨outcome, after⟩
      dsimp only
      cases outcome.withOperator (Signature.name op) with
      | error f => exact Or.inl rfl
      | ok value =>
        by_cases hs : value.shape = ins.shape
        · left
          simp [hs]
        · right
          refine ⟨op, value, after, rfl, hs, ?_, ?_⟩
          · simp
          · simp [hs]

/-- The evaluation ends at an operation whose value it refuses for its shape, and which has that value
    in the other evaluation. -/
def Evaluation.Refuses (on off : Evaluation Ctx) (instructions : List (Instruction Op)) : Prop :=
  ∃ ins op value, instructions[on.values.length]? = some ins ∧ ins.kind = .operation op ∧
    off.values[on.values.length]? = some value ∧ value.shape ≠ ins.shape ∧
    on.outcome = Outcome.failIn (Signature.name op)
      (.computedShape on.values.length value.shape ins.shape)

/-- **A verified evaluation is the unverified one, or ends at a value that it refuses.** -/
theorem evaluate_verifying (trace trace' : Bool) {all rest : List (Instruction Op)}
    {values : List Tensor} (hrest : all.drop values.length = rest) (ctx : Ctx) :
    let on := evaluate ⟨trace, true⟩ bindings firstBuffer rest values ctx
    let off := evaluate ⟨trace', false⟩ bindings firstBuffer rest values ctx
    on.result = off.result ∨ on.Refuses off all := by
  induction rest generalizing values ctx with
  | nil => exact Or.inl rfl
  | cons ins rest ih =>
    obtain ⟨hi, hnext⟩ := next_of_drop hrest
    have hlater : ∀ value, all.drop (values ++ [value]).length = rest := by
      intro value
      rwa [List.length_append, List.length_singleton]
    rw [evaluate, evaluate]
    rcases runInstruction_verifying bindings firstBuffer trace trace' values ins ctx with
      hsame | ⟨op, value, after, hk, hs, hoff, hon⟩
    · rw [hsame]
      rcases runInstruction ⟨trace', false⟩ bindings firstBuffer values ins ctx with ⟨outcome, after⟩
      cases outcome with
      | error f => exact Or.inl rfl
      | ok value => exact ih (hlater value) after
    · right
      rw [hon, hoff]
      -- the other evaluation keeps the refused value at its place
      obtain ⟨later, hvalues⟩ := prefix_evaluate ⟨trace', false⟩ bindings firstBuffer rest
        (values ++ [value]) after
      have hvalue : (evaluate ⟨trace', false⟩ bindings firstBuffer rest (values ++ [value])
          after).values[values.length]? = some value := by
        rw [← hvalues, List.append_assoc, List.getElem?_append_right (Nat.le_refl _), Nat.sub_self]
        rfl
      exact ⟨ins, op, value, hi, hk, hvalue, hs, rfl⟩

end Instructions

/-! ## 3. Programs -/

namespace Program

variable {Op Ctx : Type} [Dialect Op Ctx]

/-- Two programs evaluate alike: to the same results, or to the same failure at the same position, and
    they leave the same context. -/
structure EvaluateAlike (p q : Program Op Ctx) (bindings : Bindings) (firstBuffer : Nat) : Prop where
  outcome : (p.eval bindings firstBuffer).outcome = (q.eval bindings firstBuffer).outcome
  context : (p.eval bindings firstBuffer).program.context =
    (q.eval bindings firstBuffer).program.context
  failsAt : ∀ position f, p.FailsAt bindings firstBuffer position f ↔
    q.FailsAt bindings firstBuffer position f

variable {p : Program Op Ctx} {bindings : Bindings} {firstBuffer : Nat}

/-- A bad call is bad under any switches. -/
theorem evaluateAlike_of_refused {f : Failure} (hc : p.checkCall bindings = .error f)
    (config config' : Config) :
    (p.withConfig config).EvaluateAlike (p.withConfig config') bindings firstBuffer := by
  have hrefused : ∀ c, (p.withConfig c).eval bindings firstBuffer = ⟨.error f, p.withConfig c, []⟩ :=
    fun _ => eval_of_refused hc
  have hnowhere : ∀ c position g, ¬ (p.withConfig c).FailsAt bindings firstBuffer position g := by
    intro c position g h
    obtain ⟨r, hr⟩ := h.called
    cases hr.symm.trans hc
  refine ⟨?_, ?_, fun position g => ?_⟩
  · rw [hrefused, hrefused]
  · rw [hrefused, hrefused]
    rfl
  · exact iff_of_false (hnowhere config position g) (hnowhere config' position g)

/-- The result of the walk decides what an evaluation comes to. -/
theorem evaluateAlike_of_result {config config' : Config}
    (h : (evaluate config bindings firstBuffer p.main.instructions [] p.context).result =
      (evaluate config' bindings firstBuffer p.main.instructions [] p.context).result) :
    (p.withConfig config).EvaluateAlike (p.withConfig config') bindings firstBuffer := by
  cases hc : p.checkCall bindings with
  | error f => exact evaluateAlike_of_refused hc config config'
  | ok r =>
    have hcalled : ∀ c, (p.withConfig c).eval bindings firstBuffer =
        let e := evaluate c bindings firstBuffer p.main.instructions [] p.context
        ⟨do e.outcome; p.results r e.values, { p.withConfig c with context := e.context }, e.records⟩ :=
      fun _ => eval_of_called hc
    obtain ⟨hvalues, h⟩ := Prod.mk.inj h
    obtain ⟨hend, hcontext⟩ := Prod.mk.inj h
    have houtcome : ((p.withConfig config).eval bindings firstBuffer).outcome =
        ((p.withConfig config').eval bindings firstBuffer).outcome := by
      rw [hcalled, hcalled]
      dsimp only
      rw [hend, hvalues]
    have hsize : ((p.withConfig config).values bindings firstBuffer).length =
        ((p.withConfig config').values bindings firstBuffer).length := congrArg List.length hvalues
    refine ⟨houtcome, ?_, fun position f => ⟨fun h => ?_, fun h => ?_⟩⟩
    · rw [hcalled, hcalled]
      exact hcontext
    · exact ⟨⟨r, hc⟩, hsize.symm.trans h.position, houtcome.symm.trans h.failure⟩
    · exact ⟨⟨r, hc⟩, hsize.trans h.position, houtcome.trans h.failure⟩

/-- **A verified evaluation is the unverified one, or fails** at an instruction that the unverified one
    has passed. -/
theorem evaluateAlike_or_failsAt (p : Program Op Ctx) (bindings : Bindings) (firstBuffer : Nat)
    (trace trace' : Bool) :
    let on := p.withConfig ⟨trace, true⟩
    let off := p.withConfig ⟨trace', false⟩
    on.EvaluateAlike off bindings firstBuffer ∨
      ∃ earlier g, on.FailsAt bindings firstBuffer earlier g ∧
        earlier < (off.values bindings firstBuffer).length := by
  intro on off
  cases hc : p.checkCall bindings with
  | error f => exact Or.inl (evaluateAlike_of_refused hc _ _)
  | ok r =>
    have hall : p.main.instructions.drop ([] : List Tensor).length = p.main.instructions := rfl
    rcases evaluate_verifying bindings firstBuffer trace trace' hall p.context with
      hsame | ⟨ins, op, value, _, _, hvalue, _, hfails⟩
    · exact Or.inl (evaluateAlike_of_result hsame)
    · have hcalled : on.checkCall bindings = .ok r := hc
      obtain ⟨g, hg⟩ : ∃ g, (on.eval bindings firstBuffer).outcome = .error g := by
        rw [eval_of_called hcalled]
        exact ⟨_, Outcome.bind_eq_error.mpr (Or.inl hfails)⟩
      exact Or.inr ⟨_, g, ⟨⟨r, hcalled⟩, rfl, hg⟩, (List.getElem?_eq_some_iff.mp hvalue).1⟩

/-- **The switches of an evaluation only observe**, whatever the operators of the program compute.
    Results of a verified evaluation are those of the unverified one, which leaves the same context. Where
    the unverified evaluation fails, the verified one fails as well: both because of the call, or at the
    same instruction and in the same way, or the verified one at an earlier instruction. And telling about
    instructions changes neither results nor failures nor the context. -/
theorem switches_only_observe (p : Program Op Ctx) (bindings : Bindings) (firstBuffer : Nat) :
    (∀ trace trace' outs,
      let on := (p.withConfig ⟨trace, true⟩).eval bindings firstBuffer
      let off := (p.withConfig ⟨trace', false⟩).eval bindings firstBuffer
      on.outcome = .ok outs → off.outcome = .ok outs ∧ off.program.context = on.program.context) ∧
    (∀ trace trace' f,
      let on := p.withConfig ⟨trace, true⟩
      let off := p.withConfig ⟨trace', false⟩
      (off.eval bindings firstBuffer).outcome = .error f →
        (p.checkCall bindings = .error f ∧ (on.eval bindings firstBuffer).outcome = .error f) ∨
          ∃ position earlier g, off.FailsAt bindings firstBuffer position f ∧
            on.FailsAt bindings firstBuffer earlier g ∧
            (earlier < position ∨ earlier = position ∧ g = f) ∧
            (p.main.WellFormed → position < p.main.size)) ∧
    ∀ verify trace trace',
      (p.withConfig ⟨trace, verify⟩).EvaluateAlike (p.withConfig ⟨trace', verify⟩) bindings
        firstBuffer := by
  refine ⟨fun trace trace' outs => ?_, fun trace trace' f => ?_, fun verify trace trace' => ?_⟩
  · intro on off hon
    rcases evaluateAlike_or_failsAt p bindings firstBuffer trace trace' with h | ⟨_, _, hfails, _⟩
    · exact ⟨h.outcome.symm.trans hon, h.context.symm⟩
    · cases hon.symm.trans hfails.failure
  · intro on off hoff
    rcases refused_or_failsAt hoff with hrefused | hat
    · have hon : on.eval bindings firstBuffer = ⟨.error f, on, []⟩ := eval_of_refused hrefused
      exact Or.inl ⟨hrefused, congrArg Run.outcome hon⟩
    right
    have hsize : p.main.WellFormed → (off.values bindings firstBuffer).length < p.main.size := by
      intro hw
      obtain ⟨ins, _, hi, _⟩ := hat.exists_instruction hw
      exact (List.getElem?_eq_some_iff.mp hi).1
    rcases evaluateAlike_or_failsAt p bindings firstBuffer trace trace' with
      h | ⟨earlier, g, hfails, hlt⟩
    · exact ⟨_, _, f, hat, (h.failsAt _ _).mpr hat, Or.inr ⟨rfl, rfl⟩, hsize⟩
    · exact ⟨_, earlier, g, hat, hfails, Or.inl hlt, hsize⟩
  · have hverify : (Config.mk trace verify).verifyShapes = (Config.mk trace' verify).verifyShapes := rfl
    exact evaluateAlike_of_result (evaluate_trace bindings firstBuffer hverify _ _ _)

/-- A program of some calls that runs on the CPU. -/
def onCpu (calls : List (Call Operation)) : Program Operation Context :=
  ⟨(Module.new mainName).run calls, [], default, some "cpu", .cpu 0⟩

/-- Calls that transpose `x`, add the result to itself, and apply an operator without a kernel. -/
def doubledTransposeCalls : List (Call Operation) :=
  [.parameter "x" (.standard .f32 [2, 0]), .instruction (.catalog (.transpose [1, 0])) [0],
    .instruction (.kernel ⟨.add, none⟩) [1, 1], .instruction (.catalog (.unary .tanh)) [2], .result [3]]

/-- Calls that add `x` to itself. -/
def doubledCalls : List (Call Operation) :=
  [.parameter "x" (.standard .f32 [2, 0]), .instruction (.kernel ⟨.add, none⟩) [0, 0], .result [1]]

/-- A matrix without elements under every name. -/
def emptyMatrix : Bindings := fun _ => some ⟨.standard .f32 [2, 0], some ⟨1, ⟨.f32, #[]⟩⟩⟩

/-- The sum of a row-major matrix is the same verified and unverified. The sum of a transposed one has not
    the strides that were inferred for it: verified, the evaluation ends there, and unverified at the
    operator without a kernel that follows. -/
theorem transposed_sum_fails_earlier :
    (((onCpu doubledCalls).withConfig ⟨false, false⟩).eval emptyMatrix 7).outcome =
        .ok [⟨.standard .f32 [2, 0], some ⟨8, ⟨.f32, #[]⟩⟩⟩] ∧
      3 < (onCpu doubledTransposeCalls).main.size ∧
      ((onCpu doubledTransposeCalls).withConfig ⟨false, false⟩).FailsAt emptyMatrix 7 3
        (.error ⟨some "tanh", .noKernel⟩) ∧
      ((onCpu doubledTransposeCalls).withConfig ⟨true, true⟩).FailsAt emptyMatrix 7 2
        (.error ⟨some "cpu::add", .computedShape 2 (.standard .f32 [0, 2])
          ⟨.f32, [⟨0, 1⟩, ⟨2, 0⟩]⟩⟩) := by
  obtain ⟨hresults, _, _⟩ := switches_only_observe (onCpu doubledCalls) emptyMatrix 7
  obtain ⟨_, hfailures, _⟩ := switches_only_observe (onCpu doubledTransposeCalls) emptyMatrix 7
  have hwell : (onCpu doubledTransposeCalls).main.WellFormed :=
    Module.wellFormed_run mainName doubledTransposeCalls
  refine ⟨(hresults true false _ rfl).1, ?_⟩
  rcases hfailures true false _ rfl with ⟨hcall, _⟩ | ⟨position, earlier, g, hoff, hon, _, hsize⟩
  · cases hcall
  · cases hoff.position
    cases hon.position
    cases hon.failure
    exact ⟨hsize hwell, hoff, hon⟩

end Program

end TensorGraph
