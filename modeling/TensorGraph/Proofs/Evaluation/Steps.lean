import TensorGraph.Proofs.Module.Invariant
import TensorGraph.Proofs.Tensor.Backed
import TensorGraph.Program.Evaluation

/-!
# Evaluation instruction by instruction

An evaluation that succeeds has a value for each instruction, and each value is what running its
instruction gives over the values before it. Stated once (`evaluate_steps`), this spares everyone
else the recursion of the evaluation: what holds of a value follows from what holds of the values at
earlier positions.

* `steps_of_collected` -- the same of any list that is collected element by element, over what there is
  already;
* `Program.values` -- the values of the main module's instructions;
* `Program.eval_of_refused`, `Program.eval_of_called` -- what an evaluation is after a bad call and
  after a good one;
* `Program.program_eval` -- it changes nothing of the program but the context;
* `Program.eval_eq_ok` -- when an evaluation succeeds, and with which results;
* `runOperation_eq_ok`, `runOperation_of_failIn` -- when an operation succeeds, and when it fails;
* `evaluate_config` -- whether shapes are verified makes no difference where each is the inferred
  one.
-/

namespace TensorGraph

section Instructions

variable {Op Ctx : Type} [Dialect Op Ctx] {config : Config} {bindings : Bindings} {firstBuffer : Nat}

/-! ## 1. Operands -/

/-- What holds of the values at the operands, listed like the operands. -/
theorem map_operandValues {β : Type} {values args : List Tensor} {inputs : List Nat}
    (h : operandValues values inputs = .ok args) {f : Tensor → β} {g : Nat → Option β}
    (hg : ∀ i ∈ inputs, ∀ v, values[i]? = some v → g i = some (f v)) :
    args.map f = inputs.filterMap g := by
  unfold operandValues at h
  induction inputs generalizing args with
  | nil =>
    rw [List.mapM_nil] at h
    cases h
    rfl
  | cons i rest ih =>
    rw [List.mapM_cons] at h
    obtain ⟨v, hv, h⟩ := Outcome.bind_eq_ok.mp h
    obtain ⟨others, ho, h⟩ := Outcome.bind_eq_ok.mp h
    cases h
    have hi := hg i List.mem_cons_self v (Outcome.ofOption_eq_ok.mp hv)
    rw [List.map_cons, List.filterMap_cons, hi,
      ih ho fun j hj => hg j (List.mem_cons_of_mem i hj)]

theorem mem_of_operandValues {values args : List Tensor} {inputs : List Nat}
    (h : operandValues values inputs = .ok args) {x : Tensor} (hx : x ∈ args) : x ∈ values := by
  obtain ⟨k, hk⟩ := List.mem_iff_getElem?.mp hx
  obtain ⟨hlen, hget⟩ := Outcome.mapM_eq_ok h
  have hlt : k < inputs.length := hlen ▸ (List.getElem?_eq_some_iff.mp hk).1
  obtain ⟨v, hv, hr⟩ := hget k _ (List.getElem?_eq_getElem hlt)
  rw [hk] at hr
  cases hr
  exact List.mem_of_getElem? (Outcome.ofOption_eq_ok.mp hv)

/-- An instruction of a well-formed module finds its operands among the values before it. -/
theorem Module.WellFormed.exists_operands {m : Module Op} (hw : m.WellFormed)
    {values : List Tensor} {i : Nat} {ins : Instruction Op} (hi : m.instruction? i = some ins)
    (hle : i ≤ values.length) : ∃ args, operandValues values ins.inputs = .ok args := by
  refine Outcome.exists_mapM_eq_ok fun j hj => ?_
  have hlt : j < values.length := Nat.lt_of_lt_of_le (hw.reads i ins hi j hj).1 hle
  exact ⟨values[j], Outcome.ofOption_eq_ok.mpr (List.getElem?_eq_getElem hlt)⟩

/-! ## 2. Operations -/

theorem runOperation_eq_ok {values : List Tensor} {op : Op} {ins : Instruction Op} {ctx after : Ctx}
    {value : Tensor} :
    runOperation config firstBuffer values op ins ctx = (.ok value, after) ↔
      ∃ args, operandValues values ins.inputs = .ok args ∧
        Dialect.run op ins.shape args (firstBuffer + values.length) ctx = (.ok value, after) ∧
        (config.verifyShapes = true → value.shape = ins.shape) := by
  unfold runOperation
  cases ha : operandValues values ins.inputs with
  | error f => simp
  | ok args =>
    simp only [Except.ok.injEq, exists_eq_left']
    rcases Dialect.run op ins.shape args (firstBuffer + values.length) ctx with ⟨outcome, later⟩
    cases outcome with
    | error f => simp [Outcome.withOperator]
    | ok y =>
      by_cases hc : config.verifyShapes = true ∧ y.shape ≠ ins.shape
      · simp only [Outcome.withOperator, if_pos hc, Prod.mk.injEq, Outcome.failIn_ne_ok, false_and,
          Except.ok.injEq, false_iff, not_and]
        intro h hs
        obtain ⟨rfl, _⟩ := h
        exact hc.2 (hs hc.1)
      · simp only [Outcome.withOperator, if_neg hc, Prod.mk.injEq, Except.ok.injEq]
        constructor
        · intro h
          obtain ⟨rfl, rfl⟩ := h
          exact ⟨⟨rfl, rfl⟩, fun hv => Decidable.not_not.mp fun hs => hc ⟨hv, hs⟩⟩
        · exact And.left

/-- An operation fails as its operator does. -/
theorem runOperation_of_failIn {values args : List Tensor} {op : Op} {ins : Instruction Op}
    {ctx after : Ctx} {cause : Cause} (ha : operandValues values ins.inputs = .ok args)
    (hr : Dialect.run op ins.shape args (firstBuffer + values.length) ctx =
      (Outcome.failIn (Signature.name op) cause, after)) :
    runOperation config firstBuffer values op ins ctx =
      (Outcome.failIn (Signature.name op) cause, after) := by
  unfold runOperation
  rw [ha]
  dsimp only
  rw [hr]
  rfl

/-! ## 3. Steps -/

/-- What is left of a list begins with its element at that position, and after it less is left. -/
theorem next_of_drop {α : Type} {l rest : List α} {k : Nat} {a : α} (h : l.drop k = a :: rest) :
    l[k]? = some a ∧ l.drop (k + 1) = rest := by
  constructor
  · rw [← List.head?_drop, h]
    rfl
  · rw [← List.drop_drop, h]
    rfl

/-- What is collected from a list element by element, each time over what there is already. -/
theorem steps_of_collected {α β : Type} {collect : List β → List α → List β} {next : List β → α → β}
    (hnil : ∀ before, collect before [] = before)
    (hcons : ∀ before a rest, collect before (a :: rest) = collect (before ++ [next before a]) rest)
    (before : List β) (l : List α) :
    ∃ later, collect before l = before ++ later ∧ later.length = l.length ∧
      ∀ (k : Nat) (a : α), l[k]? = some a → later[k]? = some (next (before ++ later.take k) a) := by
  induction l generalizing before with
  | nil =>
    refine ⟨[], ?_, rfl, fun k a hk => ?_⟩
    · rw [hnil, List.append_nil]
    · cases hk
  | cons a rest ih =>
    obtain ⟨later, hc, hlen, hsteps⟩ := ih (before ++ [next before a])
    refine ⟨next before a :: later, ?_, congrArg Nat.succ hlen, fun k found hk => ?_⟩
    · rw [hcons, hc, List.append_assoc]
      rfl
    · cases k with
      | zero =>
        cases hk
        rw [List.take_zero, List.append_nil]
        rfl
      | succ k =>
        rw [List.getElem?_cons_succ, hsteps k found hk, List.take_succ_cons, List.append_assoc]
        rfl

/-- **Each value is what its instruction gives over the values before it.** -/
theorem evaluate_steps {instructions : List (Instruction Op)} {values : List Tensor} {ctx : Ctx}
    (h : (evaluate config bindings firstBuffer instructions values ctx).outcome = .ok ()) :
    ∃ later, (evaluate config bindings firstBuffer instructions values ctx).values = values ++ later ∧
      later.length = instructions.length ∧
      ∀ (k : Nat) (ins : Instruction Op), instructions[k]? = some ins → ∃ value before after,
        later[k]? = some value ∧
        runInstruction config bindings firstBuffer (values ++ later.take k) ins before =
          (.ok value, after) := by
  induction instructions generalizing values ctx with
  | nil =>
    refine ⟨[], ?_, rfl, fun k ins hk => ?_⟩
    · rw [evaluate, List.append_nil]
    · cases hk
  | cons ins rest ih =>
    rw [evaluate] at h ⊢
    rcases hr : runInstruction config bindings firstBuffer values ins ctx with ⟨outcome, after⟩
    cases outcome with
    | error f => rw [hr] at h; cases h
    | ok value =>
      rw [hr] at h
      obtain ⟨later, hv, hlen, hsteps⟩ := ih h
      refine ⟨value :: later, ?_, by rw [List.length_cons, hlen, List.length_cons], ?_⟩
      · show (evaluate config bindings firstBuffer rest (values ++ [value]) after).values = _
        rw [hv, List.append_assoc]
        rfl
      · intro k found hk
        cases k with
        | zero =>
          cases hk
          refine ⟨value, ctx, after, rfl, ?_⟩
          rw [List.take_zero, List.append_nil]
          exact hr
        | succ k =>
          obtain ⟨v, before, final, hget, hrun⟩ := hsteps k found hk
          refine ⟨v, before, final, hget, ?_⟩
          rw [List.take_succ_cons]
          rwa [List.append_assoc] at hrun

/-- An instruction that succeeds with the inferred shape succeeds under any configuration. -/
theorem runInstruction_config (config' : Config) {values : List Tensor} {ins : Instruction Op}
    {ctx after : Ctx} {value : Tensor}
    (h : runInstruction config bindings firstBuffer values ins ctx = (.ok value, after))
    (hs : ∀ op, ins.kind = .operation op → value.shape = ins.shape) :
    runInstruction config' bindings firstBuffer values ins ctx = (.ok value, after) := by
  unfold runInstruction at h ⊢
  cases hk : ins.kind with
  | parameter name => rwa [hk] at h
  | literal constant => rwa [hk] at h
  | result => rwa [hk] at h
  | operation op =>
    rw [hk] at h
    obtain ⟨args, ha, hr, _⟩ := runOperation_eq_ok.mp h
    exact runOperation_eq_ok.mpr ⟨args, ha, hr, fun _ => hs op hk⟩

/-- **Whether shapes are verified makes no difference** to an evaluation that succeeds and in which
    every operation has the inferred shape. -/
theorem evaluate_config {config' : Config} (ht : config'.traceEval = config.traceEval)
    {instructions : List (Instruction Op)} {values : List Tensor} {ctx : Ctx}
    (h : (evaluate config bindings firstBuffer instructions values ctx).outcome = .ok ())
    (hs : ∀ (k : Nat) (ins : Instruction Op) (op : Op) (v : Tensor), instructions[k]? = some ins →
      ins.kind = .operation op →
      (evaluate config bindings firstBuffer instructions values ctx).values[values.length + k]? =
        some v → v.shape = ins.shape) :
    evaluate config' bindings firstBuffer instructions values ctx =
      evaluate config bindings firstBuffer instructions values ctx := by
  induction instructions generalizing values ctx with
  | nil => rfl
  | cons ins rest ih =>
    rw [evaluate] at h hs
    rcases hr : runInstruction config bindings firstBuffer values ins ctx with ⟨outcome, after⟩
    cases outcome with
    | error f => rw [hr] at h; cases h
    | ok value =>
      rw [hr] at h hs
      obtain ⟨later, hv, _, _⟩ := evaluate_steps h
      have hfirst : ∀ op, ins.kind = .operation op → value.shape = ins.shape := fun op hk => by
        refine hs 0 ins op value rfl hk ?_
        show (evaluate config bindings firstBuffer rest (values ++ [value]) after).values[_]? = _
        rw [hv, List.append_assoc, Nat.add_zero, List.getElem?_append_right (Nat.le_refl _),
          Nat.sub_self]
        rfl
      have hrest := ih h fun k found op v hk hop hget => by
        refine hs (k + 1) found op v hk hop ?_
        rw [List.length_append, List.length_singleton] at hget
        rw [← Nat.add_assoc, Nat.add_right_comm]
        exact hget
      have htrace : ∀ position, traceOf config' position ins value =
          traceOf config position ins value := fun position => by
        unfold traceOf
        rw [ht]
      rw [evaluate, evaluate, runInstruction_config config' hr hfirst, hr]
      dsimp only
      rw [hrest, htrace]

end Instructions

/-! ## 4. Programs -/

namespace Program

variable {Op Ctx : Type}

theorem checkBindings_eq_ok {bindings : Bindings} {parameters : List (String × Shape)} :
    checkBindings bindings parameters = .ok () ↔
      ∀ p ∈ parameters, ∃ value, bindings p.1 = some value ∧ value.shape = p.2 := by
  induction parameters with
  | nil => simp [checkBindings]
  | cons p rest ih =>
    obtain ⟨name, shape⟩ := p
    rw [checkBindings, List.forall_mem_cons]
    cases hb : bindings name with
    | none => simp
    | some value =>
      simp only [Outcome.check_eq_ok, ne_eq, Decidable.not_not, ih, Option.some.injEq,
        exists_eq_left']

/-- The values of the instructions of the main module. -/
def values [Dialect Op Ctx] (p : Program Op Ctx) (bindings : Bindings) (firstBuffer : Nat) :
    List Tensor :=
  (evaluate p.config bindings firstBuffer p.main.instructions [] p.context).values

theorem checkCall_eq_ok {p : Program Op Ctx} {bindings : Bindings} {position : Nat} :
    p.checkCall bindings = .ok position ↔
      p.main.returnAt = some position ∧ checkBindings bindings p.main.parameters = .ok () := by
  unfold checkCall
  cases p.main.returnAt with
  | none => simp
  | some r =>
    refine Outcome.then_eq_ok.trans ?_
    rw [Outcome.pure_eq_ok, Option.some.injEq, and_comm, eq_comm]

section Calls

variable [Dialect Op Ctx] {p : Program Op Ctx} {bindings : Bindings} {firstBuffer : Nat}

/-- A call that is no good ends an evaluation before it begins. -/
theorem eval_of_refused {f : Failure} (h : p.checkCall bindings = .error f) :
    p.eval bindings firstBuffer = ⟨.error f, p, []⟩ := by
  unfold eval
  rw [h]

/-- A good call comes to what its instructions come to. -/
theorem eval_of_called {position : Nat} (h : p.checkCall bindings = .ok position) :
    p.eval bindings firstBuffer =
      let e := evaluate p.config bindings firstBuffer p.main.instructions [] p.context
      ⟨do e.outcome; p.results position e.values, { p with context := e.context }, e.records⟩ := by
  unfold eval
  rw [h]

/-- **Only the context of a program changes** when it is evaluated. -/
theorem program_eval (p : Program Op Ctx) (bindings : Bindings) (firstBuffer : Nat) :
    (p.eval bindings firstBuffer).program =
      { p with context := (p.eval bindings firstBuffer).program.context } := by
  cases hc : p.checkCall bindings with
  | error f => rw [eval_of_refused hc]
  | ok position => rw [eval_of_called hc]

/-- **When an evaluation succeeds**: there is a return instruction, the parameters are bound, every
    instruction succeeds, and the results are the values that the return instruction reads. -/
theorem eval_eq_ok {outs : List Tensor} :
    (p.eval bindings firstBuffer).outcome = .ok outs ↔ ∃ position,
      p.main.returnAt = some position ∧ checkBindings bindings p.main.parameters = .ok () ∧
      (evaluate p.config bindings firstBuffer p.main.instructions [] p.context).outcome = .ok () ∧
      p.results position (p.values bindings firstBuffer) = .ok outs := by
  cases hc : p.checkCall bindings with
  | error f =>
    rw [eval_of_refused hc]
    refine ⟨nofun, fun h => ?_⟩
    obtain ⟨position, hr, hb, _⟩ := h
    have hgood := checkCall_eq_ok.mpr ⟨hr, hb⟩
    rw [hc] at hgood
    cases hgood
  | ok position =>
    obtain ⟨hr, hb⟩ := checkCall_eq_ok.mp hc
    rw [eval_of_called hc, hr, hb]
    simp only [Option.some.injEq, exists_eq_left', true_and]
    exact Outcome.then_eq_ok

end Calls

end Program

end TensorGraph
