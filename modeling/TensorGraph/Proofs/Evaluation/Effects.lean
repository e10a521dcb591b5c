import TensorGraph.Proofs.Evaluation.Compiled
import TensorGraph.Proofs.Evaluation.Failures
import TensorGraph.Proofs.Program.Reachable

/-!
# What an evaluation reads and writes

An evaluation reads the bindings of the parameters of the main module and no others, and it writes the
context and nothing else. The context is not touched before the bindings are checked. On the CPU, the
number it holds grows by one for each kernel that is reached, whether the kernel succeeds or not.

* `evaluate_congr` -- bindings that agree on the parameters cannot be told apart;
* `Program.checkBindings_of_misbound` -- the first parameter without a tensor of its shape is the error;
* `kernelCount`, `evaluate_cpu` -- the kernels among instructions, and how many of them have run;
* `Program.Confined` -- what an evaluation reads and writes, together;
* `Program.evaluation_effects` -- every evaluation is confined, and that of a program compiled for the CPU
  counts the kernels that it reached.
-/

namespace TensorGraph

/-! ## 1. What is read -/

section Instructions

variable {Op Ctx : Type} [Dialect Op Ctx] (config : Config) {bindings bindings' : Bindings}
  (firstBuffer : Nat)

/-- An instruction reads at most the binding of its own name. -/
theorem runInstruction_congr {ins : Instruction Op}
    (h : ∀ name, ins.kind = .parameter name → bindings' name = bindings name) (values : List Tensor)
    (ctx : Ctx) :
    runInstruction config bindings' firstBuffer values ins ctx =
      runInstruction config bindings firstBuffer values ins ctx := by
  unfold runInstruction
  cases hk : ins.kind with
  | parameter name =>
    dsimp only
    rw [h name hk]
  | literal value => rfl
  | operation op => rfl
  | result => rfl

/-- **Bindings that agree on the parameters cannot be told apart.** -/
theorem evaluate_congr {instructions : List (Instruction Op)}
    (h : ∀ ins ∈ instructions, ∀ name, ins.kind = .parameter name → bindings' name = bindings name)
    (values : List Tensor) (ctx : Ctx) :
    evaluate config bindings' firstBuffer instructions values ctx =
      evaluate config bindings firstBuffer instructions values ctx := by
  induction instructions generalizing values ctx with
  | nil => rfl
  | cons ins rest ih =>
    obtain ⟨hfirst, hrest⟩ := List.forall_mem_cons.mp h
    rw [evaluate, evaluate, runInstruction_congr config firstBuffer hfirst]
    rcases runInstruction config bindings firstBuffer values ins ctx with ⟨outcome, after⟩
    cases outcome with
    | error f => rfl
    | ok value =>
      dsimp only
      rw [ih hrest]

end Instructions

namespace Program

/-- The parameter is bound to a tensor of its shape. -/
def BoundTo (bindings : Bindings) (q : String × Shape) : Prop :=
  ∃ value, bindings q.1 = some value ∧ value.shape = q.2

/-- What is wrong with a parameter that is not bound to a tensor of its shape. -/
def misbinding (bindings : Bindings) (q : String × Shape) : Cause :=
  match bindings q.1 with
  | none => .parameterUnbound q.1
  | some value => .bindingShape q.1 q.2 value.shape

section Calls

variable {Op Ctx : Type} {p : Program Op Ctx} {bindings bindings' : Bindings}

theorem checkBindings_congr {parameters : List (String × Shape)}
    (h : ∀ q ∈ parameters, bindings' q.1 = bindings q.1) :
    checkBindings bindings' parameters = checkBindings bindings parameters := by
  induction parameters with
  | nil => rfl
  | cons q rest ih =>
    obtain ⟨hfirst, hrest⟩ := List.forall_mem_cons.mp h
    rw [checkBindings, checkBindings, hfirst, ih hrest]

/-- **The first parameter without a tensor of its shape is the error**, whatever comes after it. -/
theorem checkBindings_of_misbound {front rest : List (String × Shape)} {q : String × Shape}
    (hfront : ∀ a ∈ front, BoundTo bindings a) (hq : ¬ BoundTo bindings q) :
    checkBindings bindings (front ++ q :: rest) = Outcome.fail (misbinding bindings q) := by
  induction front with
  | nil =>
    rw [List.nil_append, checkBindings, misbinding]
    cases hb : bindings q.1 with
    | none => rfl
    | some value =>
      have hne : value.shape ≠ q.2 := fun hs => hq ⟨value, hb, hs⟩
      exact if_pos hne
  | cons a front ih =>
    obtain ⟨⟨value, hb, hs⟩, hfront⟩ := List.forall_mem_cons.mp hfront
    rw [List.cons_append, checkBindings, hb]
    dsimp only
    rw [if_neg (not_not_intro hs), ih hfront]

/-- Some parameter is the first that is not bound as it should be. -/
theorem exists_first_misbound {parameters : List (String × Shape)}
    (h : ∃ q ∈ parameters, ¬ BoundTo bindings q) :
    ∃ front q rest, parameters = front ++ q :: rest ∧ (∀ a ∈ front, BoundTo bindings a) ∧
      ¬ BoundTo bindings q := by
  induction parameters with
  | nil =>
    obtain ⟨_, hq, _⟩ := h
    cases hq
  | cons a parameters ih =>
    by_cases ha : BoundTo bindings a
    · obtain ⟨front, q, rest, rfl, hfront, hq⟩ := ih (by simpa [ha] using h)
      exact ⟨a :: front, q, rest, rfl, List.forall_mem_cons.mpr ⟨ha, hfront⟩, hq⟩
    · exact ⟨[], a, parameters, rfl, fun _ hb => absurd hb List.not_mem_nil, ha⟩

end Calls

/-- What the evaluation of a program reads and writes. -/
structure Confined {Op Ctx : Type} [Dialect Op Ctx] (p : Program Op Ctx) (bindings : Bindings)
    (firstBuffer : Nat) : Prop where
  /-- It writes the context alone. -/
  writes : (p.eval bindings firstBuffer).program =
    { p with context := (p.eval bindings firstBuffer).program.context }
  /-- It reads the bindings of the parameters alone. -/
  reads : ∀ bindings', (∀ q ∈ p.main.parameters, bindings' q.1 = bindings q.1) →
    p.eval bindings' firstBuffer = p.eval bindings firstBuffer
  /-- Without a return instruction it does nothing. -/
  noReturn : p.main.returnAt = none →
    p.eval bindings firstBuffer = ⟨Outcome.fail (.noReturn p.main.name), p, []⟩
  /-- It does nothing over a parameter that is not bound to a tensor of its shape, and the first such is
      the error. -/
  misbound : p.main.returnAt ≠ none → (∃ q ∈ p.main.parameters, ¬ BoundTo bindings q) →
    ∃ front q rest, p.main.parameters = front ++ q :: rest ∧ (∀ a ∈ front, BoundTo bindings a) ∧
      ¬ BoundTo bindings q ∧
      p.eval bindings firstBuffer = ⟨Outcome.fail (misbinding bindings q), p, []⟩

/-- **Every evaluation is confined**, with any operators. -/
theorem confined {Op Ctx : Type} [Dialect Op Ctx] (p : Program Op Ctx) (bindings : Bindings)
    (firstBuffer : Nat) : p.Confined bindings firstBuffer where
  writes := program_eval p bindings firstBuffer
  reads bindings' h := by
    have hnames : ∀ ins ∈ p.main.instructions, ∀ name, ins.kind = .parameter name →
        bindings' name = bindings name := by
      intro ins hins name hk
      exact h (name, ins.shape) (Module.mem_parameters hins hk)
    unfold eval checkCall
    rw [checkBindings_congr h, evaluate_congr p.config firstBuffer hnames]
  noReturn h := by
    refine eval_of_refused ?_
    unfold checkCall
    rw [h]
    rfl
  misbound hr h := by
    obtain ⟨front, q, rest, hparameters, hfront, hq⟩ := exists_first_misbound h
    refine ⟨front, q, rest, hparameters, hfront, hq, eval_of_refused ?_⟩
    unfold checkCall
    rw [hparameters, checkBindings_of_misbound hfront hq]
    cases hreturn : p.main.returnAt with
    | none => exact absurd hreturn hr
    | some position => rfl

end Program

/-! ## 2. What is counted -/

/-- The instruction runs a kernel of the CPU. -/
def Instruction.isKernel (ins : Instruction Operation) : Bool :=
  match ins.kind with
  | .operation (.kernel _) => true
  | _ => false

/-- The number of kernels among instructions. -/
def kernelCount (instructions : List (Instruction Operation)) : Nat :=
  instructions.countP Instruction.isKernel

theorem kernelCount_append (l l' : List (Instruction Operation)) :
    kernelCount (l ++ l') = kernelCount l + kernelCount l' := List.countP_append

/-- An operation that finds its operands leaves the context that its operator leaves, whatever comes of
    its value. -/
theorem context_runOperation {Op Ctx : Type} [Dialect Op Ctx] {config : Config} {firstBuffer : Nat}
    {values args : List Tensor} {op : Op} {ins : Instruction Op}
    (ha : operandValues values ins.inputs = .ok args) (ctx : Ctx) :
    (runOperation config firstBuffer values op ins ctx).2 =
      (Dialect.run op ins.shape args (firstBuffer + values.length) ctx).2 := by
  unfold runOperation
  rw [ha]
  dsimp only
  rcases Dialect.run op ins.shape args (firstBuffer + values.length) ctx with ⟨outcome, after⟩
  dsimp only
  split
  · rfl
  · split <;> rfl

/-- **An instruction that finds its operands counts itself if it is a kernel**, also where it fails. -/
theorem context_runInstruction [ShortFloats] {config : Config} {bindings : Bindings}
    {firstBuffer n : Nat}
    {values args : List Tensor} {ins : Instruction Operation}
    (ha : operandValues values ins.inputs = .ok args) :
    (runInstruction config bindings firstBuffer values ins (.cpu n)).2 =
      .cpu (n + kernelCount [ins]) := by
  unfold runInstruction kernelCount
  rw [List.countP_singleton]
  unfold Instruction.isKernel
  cases ins.kind with
  | parameter name =>
    dsimp only
    cases bindings name <;> rfl
  | literal value => rfl
  | result => rfl
  | operation op =>
    dsimp only
    rw [context_runOperation ha]
    cases op with
    | catalog o => rfl
    | kernel b => rfl
    | checkContext expected => rfl

/-- **The kernels that were reached have been counted**, the one that failed among them. -/
theorem context_evaluate [ShortFloats] {m : Module Operation} (hw : m.WellFormed) (config : Config)
    (bindings : Bindings) (firstBuffer n : Nat) {rest : List (Instruction Operation)}
    {values : List Tensor} (hrest : m.instructions.drop values.length = rest) {ctx : Context}
    (hctx : ctx = .cpu (n + kernelCount (m.instructions.take values.length))) :
    let e := evaluate config bindings firstBuffer rest values ctx
    e.context = .cpu (n + kernelCount (m.instructions.take (e.values.length + 1))) := by
  -- over the instructions that are left; the count so far is that of the instructions before them
  induction rest generalizing values ctx with
  | nil =>
    have hall : m.instructions.length ≤ values.length := List.drop_eq_nil_iff.mp hrest
    rw [List.take_of_length_le hall, ← List.take_of_length_le (Nat.le_succ_of_le hall)] at hctx
    exact hctx
  | cons ins rest ih =>
    obtain ⟨hi, hnext⟩ := next_of_drop hrest
    obtain ⟨args, ha⟩ := hw.exists_operands hi (Nat.le_refl _)
    have hcount : n + kernelCount (m.instructions.take values.length) + kernelCount [ins] =
        n + kernelCount (m.instructions.take (values.length + 1)) := by
      rw [List.take_add_one, hi, kernelCount_append, Nat.add_assoc]
      rfl
    have hafter : (runInstruction config bindings firstBuffer values ins ctx).2 =
        .cpu (n + kernelCount (m.instructions.take (values.length + 1))) := by
      rw [hctx, context_runInstruction ha, hcount]
    rw [evaluate]
    rcases hr : runInstruction config bindings firstBuffer values ins ctx with ⟨outcome, after⟩
    rw [hr] at hafter
    cases outcome with
    | error f => exact hafter
    | ok value =>
      have hlength : (values ++ [value]).length = values.length + 1 := List.length_append
      exact ih (by rwa [hlength]) (by rwa [hlength])

/-! ## 3. Programs on the CPU -/

namespace Program

variable {p : Program Operation Context} {bindings : Bindings} {firstBuffer n : Nat}

/-- A good call on the CPU counts the kernels that it reaches. -/
theorem context_eval [ShortFloats] (hw : p.main.WellFormed) (hctx : p.context = .cpu n) {position : Nat}
    (hc : p.checkCall bindings = .ok position) :
    (p.eval bindings firstBuffer).program.context = .cpu (n +
      kernelCount (p.main.instructions.take ((p.values bindings firstBuffer).length + 1))) := by
  have hall : p.main.instructions.drop ([] : List Tensor).length = p.main.instructions := rfl
  rw [eval_of_called hc]
  exact context_evaluate hw p.config bindings firstBuffer n hall hctx

/-- **A program that is compiled for the CPU stays on the CPU.** -/
theorem CompiledFor.context [ShortFloats] (h : p.CompiledFor Cpu.target) : ∃ n, p.context = .cpu n := by
  induction h with
  | compile _ hc => exact ⟨0, (compile_eq_ok hc).2.2⟩
  | @step p after hp hs ih =>
    obtain ⟨n, hn⟩ := ih
    cases hs with
    | configure | main | other => exact ⟨n, hn⟩
    | addModule h =>
      obtain ⟨_, rfl⟩ := addModule_eq_ok.mp h
      exact ⟨n, hn⟩
    | compile _ h =>
      obtain ⟨hnone, _⟩ := compile_eq_ok_iff.mp h
      cases hp.target.symm.trans hnone
    | eval bindings firstBuffer =>
      have hw : p.main.WellFormed :=
        (hp.reachable Cpu.target_byCalls).wellFormed p.main List.mem_cons_self
      cases hc : p.checkCall bindings with
      | error f =>
        rw [eval_of_refused hc]
        exact ⟨n, hn⟩
      | ok position => exact ⟨_, context_eval hw hn hc⟩

/-- **What an evaluation reads and writes.** It writes the context alone, reads the bindings of the
    parameters of the main module alone, and does nothing where the return is missing or a parameter is not
    bound to a tensor of its shape; this holds of any program with any operators. And a program that was
    compiled for the CPU counts the kernels of its main module: all of them when it succeeds, and those up
    to the instruction that failed, this one included, when it fails. -/
theorem evaluation_effects [ShortFloats] :
    (∀ {Op Ctx : Type} [Dialect Op Ctx] (p : Program Op Ctx) (bindings : Bindings) (firstBuffer : Nat),
      p.Confined bindings firstBuffer) ∧
    ∀ p : Program Operation Context, p.CompiledFor Cpu.target → ∀ bindings firstBuffer,
      ∃ before, p.context = .cpu before ∧
        (∀ outs, (p.eval bindings firstBuffer).outcome = .ok outs →
          (p.eval bindings firstBuffer).program.context =
            .cpu (before + kernelCount p.main.instructions)) ∧
        ∀ f, (p.eval bindings firstBuffer).outcome = .error f →
          (p.checkCall bindings = .error f ∧
            (p.eval bindings firstBuffer).program.context = .cpu before) ∨
          ∃ i, p.FailsAt bindings firstBuffer i f ∧ i < p.main.size ∧
            (p.eval bindings firstBuffer).program.context =
              .cpu (before + kernelCount (p.main.instructions.take (i + 1))) := by
  refine ⟨fun p bindings firstBuffer => confined p bindings firstBuffer, ?_⟩
  intro p hcompiled bindings firstBuffer
  have hw : p.main.WellFormed :=
    (hcompiled.reachable Cpu.target_byCalls).wellFormed p.main List.mem_cons_self
  obtain ⟨before, hctx⟩ := hcompiled.context
  refine ⟨before, hctx, fun outs hok => ?_, fun f hf => ?_⟩
  · obtain ⟨position, hr, hb, hwalk, _⟩ := eval_eq_ok.mp hok
    obtain ⟨later, hvalues, hlength, _⟩ := evaluate_steps hwalk
    have hsize : (p.values bindings firstBuffer).length = p.main.instructions.length := by
      unfold values
      rw [hvalues, List.nil_append, hlength]
    rw [context_eval hw hctx (checkCall_eq_ok.mpr ⟨hr, hb⟩), hsize,
      List.take_of_length_le (Nat.le_succ _)]
  · rcases refused_or_failsAt hf with hc | hat
    · left
      rw [eval_of_refused hc]
      exact ⟨hc, hctx⟩
    · right
      obtain ⟨r, hc⟩ := hat.called
      obtain ⟨ins, _, hi, _⟩ := hat.exists_instruction hw
      exact ⟨_, hat, (List.getElem?_eq_some_iff.mp hi).1, context_eval hw hctx hc⟩

/-- Calls that add `x` to itself before `y` is declared, and multiply by `y` in the end. In between come
    other calls. -/
def lateCalls (between : List (Call Operation)) : List (Call Operation) :=
  [.parameter "x" (.standard .f32 [2]), .instruction (.catalog (.binary ⟨.add, none⟩)) [0, 0],
    .parameter "y" (.standard .f32 [2])] ++ between ++
    [.instruction (.catalog (.binary ⟨.mul, none⟩)) [1, 2], .result [1]]

/-- Zeros for `x`, and for `y` too if it is bound. -/
def zerosFor (bindsY : Bool) : Bindings := fun name =>
  if name = "x" ∨ bindsY = true ∧ name = "y" then some (zeros [2]) else none

theorem compiledFor_ofCalls [ShortFloats] {calls : List (Call Operation)} {compiled : Program Operation Context}
    (h : ((ofCalls calls).compile Cpu.target).outcome = .ok compiled) :
    compiled.CompiledFor Cpu.target :=
  .compile ((Reachable.new default).run calls) h

/-- Unbound, `y` is an error before the sum that precedes it is counted. Bound, both kernels are counted;
    and only the first is, if an operator without a kernel comes between them. -/
theorem late_parameter_effects :
    ∃ good bad : Program Operation Context,
      ((ofCalls (lateCalls [])).compile Cpu.target).outcome = .ok good ∧
      ((ofCalls (lateCalls [.instruction (.catalog (.unary .tanh)) [0]])).compile Cpu.target).outcome =
        .ok bad ∧
      good.eval (zerosFor false) 7 = ⟨Outcome.fail (.parameterUnbound "y"), good, []⟩ ∧
      (good.eval (zerosFor true) 7).program.context = .cpu 2 ∧
      bad.FailsAt (zerosFor true) 7 3 (.error ⟨some "tanh", .noKernel⟩) ∧
      (bad.eval (zerosFor true) 7).program.context = .cpu 1 := by
  obtain ⟨good, hgood⟩ : ∃ good, ((ofCalls (lateCalls [])).compile Cpu.target).outcome = .ok good :=
    ⟨_, rfl⟩
  obtain ⟨bad, hbad⟩ : ∃ bad, ((ofCalls (lateCalls [.instruction (.catalog (.unary .tanh)) [0]])).compile
      Cpu.target).outcome = .ok bad := ⟨_, rfl⟩
  obtain ⟨hconfined, hcounts⟩ := evaluation_effects
  refine ⟨good, bad, hgood, hbad, ?_, ?_, ?_⟩
  · have hparameters : good.main.parameters =
        [("x", .standard .f32 [2]), ("y", .standard .f32 [2])] := by
      cases hgood
      rfl
    have hreturn : good.main.returnAt ≠ none := by
      cases hgood
      nofun
    have hx : BoundTo (zerosFor false) ("x", .standard .f32 [2]) := ⟨zeros [2], rfl, rfl⟩
    have hy : ¬ BoundTo (zerosFor false) ("y", .standard .f32 [2]) := by
      intro h
      obtain ⟨_, hb, _⟩ := h
      cases hb
    obtain ⟨front, q, rest, hsplit, _, hq, hrun⟩ :=
      (hconfined good (zerosFor false) 7).misbound hreturn ⟨_, by rw [hparameters]; simp, hy⟩
    rw [hparameters] at hsplit
    rcases List.cons_eq_append_iff.mp hsplit with ⟨rfl, h⟩ | ⟨front, rfl, h⟩
    · cases h
      exact absurd hx hq
    · rcases List.singleton_eq_append_iff.mp h with ⟨rfl, h⟩ | ⟨_, h⟩
      · cases h
        exact hrun
      · cases h
  · obtain ⟨before, hbefore, hsuccess, _⟩ :=
      hcounts good (compiledFor_ofCalls hgood) (zerosFor true) 7
    cases hgood
    cases hbefore
    exact hsuccess _ rfl
  · obtain ⟨before, hbefore, _, hfailure⟩ := hcounts bad (compiledFor_ofCalls hbad) (zerosFor true) 7
    cases hbad
    cases hbefore
    rcases hfailure _ rfl with ⟨hcall, _⟩ | ⟨i, hat, _, hcontext⟩
    · cases hcall
    · cases hat.position
      exact ⟨hat, hcontext⟩

end Program

end TensorGraph
