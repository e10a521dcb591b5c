import TensorGraph.Proofs.Evaluation.Steps

/-!
# Where an evaluation fails

The walk over the instructions ends behind the last of them or at the first that fails, and the values
that it has by then say which one that is.

* `prefix_evaluate` -- values that are there stay there;
* `evaluate_reached` -- a value that there is in the end is what its instruction gives over the values
  before it;
* `evaluate_end` -- the walk gets to the end, or stops at an instruction that fails over the values
  before it;
* `Program.FailsAt` -- an evaluation whose call was good fails at a position;
* `Program.FailsAt.exists_instruction` -- in a well-formed main module that is the position of an
  instruction, and it is the one that failed: reading the results is never what fails.
-/

namespace TensorGraph

section Instructions

variable {Op Ctx : Type} [Dialect Op Ctx] (config : Config) (bindings : Bindings) (firstBuffer : Nat)

/-- The values that are given stay in front. -/
theorem prefix_evaluate (instructions : List (Instruction Op)) (values : List Tensor) (ctx : Ctx) :
    values <+: (evaluate config bindings firstBuffer instructions values ctx).values := by
  induction instructions generalizing values ctx with
  | nil => exact List.prefix_rfl
  | cons ins rest ih =>
    rw [evaluate]
    rcases runInstruction config bindings firstBuffer values ins ctx with ⟨outcome, after⟩
    cases outcome with
    | error f => exact List.prefix_rfl
    | ok value => exact (List.prefix_append values [value]).trans (ih (values ++ [value]) after)

/-- **A value is what its instruction gives over the values before it**, also if a later instruction
    fails. -/
theorem evaluate_reached {instructions : List (Instruction Op)} {values : List Tensor} {ctx : Ctx}
    {k : Nat} {value : Tensor} :
    let e := evaluate config bindings firstBuffer instructions values ctx
    e.values[values.length + k]? = some value →
      ∃ ins before after, instructions[k]? = some ins ∧
        runInstruction config bindings firstBuffer (e.values.take (values.length + k)) ins before =
          (.ok value, after) := by
  induction instructions generalizing values ctx k with
  | nil =>
    intro e hv
    have hnone : values[values.length + k]? = none := List.getElem?_eq_none (Nat.le_add_right ..)
    cases hnone.symm.trans hv
  | cons ins rest ih =>
    rw [evaluate]
    rcases hr : runInstruction config bindings firstBuffer values ins ctx with ⟨outcome, after⟩
    cases outcome with
    | error f =>
      intro e hv
      have hnone : values[values.length + k]? = none := List.getElem?_eq_none (Nat.le_add_right ..)
      cases hnone.symm.trans hv
    | ok first =>
      intro e hv
      have hlength : (values ++ [first]).length = values.length + 1 := List.length_append
      cases k with
      | zero =>
        -- the first value follows those that are given, and both stay where they are
        obtain ⟨later, hlater⟩ := prefix_evaluate config bindings firstBuffer rest (values ++ [first]) after
        have hvalues : e.values = values ++ ([first] ++ later) := by
          rw [← List.append_assoc, hlater]
        rw [hvalues, Nat.add_zero] at hv ⊢
        rw [List.getElem?_append_right (Nat.le_refl _), Nat.sub_self] at hv
        cases hv
        rw [List.take_left]
        exact ⟨ins, ctx, after, rfl, hr⟩
      | succ k =>
        have hnext : values.length + (k + 1) = (values ++ [first]).length + k := by omega
        rw [hnext] at hv ⊢
        exact ih hv

/-- **The walk gets to the end, or stops at the first instruction that fails** over the values before
    it. -/
theorem evaluate_end {all rest : List (Instruction Op)} {values : List Tensor}
    (hrest : all.drop values.length = rest) (ctx : Ctx) :
    let e := evaluate config bindings firstBuffer rest values ctx
    (e.outcome = .ok () ∧ all.length ≤ e.values.length) ∨
      ∃ f ins before, e.outcome = .error f ∧ all[e.values.length]? = some ins ∧
        runInstruction config bindings firstBuffer e.values ins before = (.error f, e.context) := by
  induction rest generalizing values ctx with
  | nil => exact Or.inl ⟨rfl, List.drop_eq_nil_iff.mp hrest⟩
  | cons ins rest ih =>
    obtain ⟨hi, hnext⟩ := next_of_drop hrest
    rw [evaluate]
    rcases hr : runInstruction config bindings firstBuffer values ins ctx with ⟨outcome, after⟩
    cases outcome with
    | error f => exact Or.inr ⟨f, ins, ctx, rfl, hi, hr⟩
    | ok value =>
      have hlater : all.drop (values ++ [value]).length = rest := by
        rwa [List.length_append, List.length_singleton]
      exact ih hlater after

end Instructions

namespace Program

variable {Op Ctx : Type} [Dialect Op Ctx]

/-- An evaluation fails at a position: the call is good, and the instructions before the position have
    values, but it comes to a failure and not to results. -/
structure FailsAt (p : Program Op Ctx) (bindings : Bindings) (firstBuffer position : Nat)
    (f : Failure) : Prop where
  called : ∃ r, p.checkCall bindings = .ok r
  position : (p.values bindings firstBuffer).length = position
  failure : (p.eval bindings firstBuffer).outcome = .error f

variable {p : Program Op Ctx} {bindings : Bindings} {firstBuffer : Nat}

/-- **An evaluation that fails is a bad call, or fails at a position.** -/
theorem refused_or_failsAt {f : Failure} (h : (p.eval bindings firstBuffer).outcome = .error f) :
    p.checkCall bindings = .error f ∨
      p.FailsAt bindings firstBuffer (p.values bindings firstBuffer).length f := by
  cases hc : p.checkCall bindings with
  | error g =>
    rw [eval_of_refused hc] at h
    cases h
    exact Or.inl rfl
  | ok r => exact Or.inr ⟨⟨r, hc⟩, rfl, h⟩

/-- **What fails at a position is the instruction there**, over the values before it. -/
theorem FailsAt.exists_instruction {position : Nat} {f : Failure}
    (h : p.FailsAt bindings firstBuffer position f) (hw : p.main.WellFormed) :
    ∃ ins before, p.main.instruction? position = some ins ∧
      runInstruction p.config bindings firstBuffer (p.values bindings firstBuffer) ins before =
        (.error f, (p.eval bindings firstBuffer).program.context) := by
  obtain ⟨⟨r, hc⟩, rfl, hf⟩ := h
  rw [eval_of_called hc] at hf ⊢
  have hall : p.main.instructions.drop ([] : List Tensor).length = p.main.instructions := rfl
  rcases evaluate_end p.config bindings firstBuffer hall p.context with
    ⟨hok, hlength⟩ | ⟨g, ins, before, hg, hi, hr⟩
  · -- then the values that the return reads are all there
    obtain ⟨hr, _⟩ := checkCall_eq_ok.mp hc
    obtain ⟨ret, hret, _⟩ := (hw.sealed r).mp hr
    have hsize : p.main.size ≤ (p.values bindings firstBuffer).length := hlength
    have hlast := hw.last r hr
    obtain ⟨outs, houts⟩ : ∃ outs, operandValues (p.values bindings firstBuffer) ret.inputs = .ok outs :=
      hw.exists_operands hret (by omega)
    rcases Outcome.bind_eq_error.mp hf with hwalk | ⟨_, _, hresults⟩
    · rw [hok] at hwalk
      cases hwalk
    · unfold results at hresults
      rw [hret] at hresults
      have hread := hresults.symm.trans houts
      cases hread
  · rcases Outcome.bind_eq_error.mp hf with hwalk | ⟨_, hwalk, _⟩
    · rw [hg] at hwalk
      cases hwalk
      exact ⟨ins, before, hi, hr⟩
    · rw [hg] at hwalk
      cases hwalk

end Program

end TensorGraph
