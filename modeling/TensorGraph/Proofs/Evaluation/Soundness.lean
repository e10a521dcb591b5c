import TensorGraph.Number.Nearest
import TensorGraph.Proofs.Evaluation.Operators
import TensorGraph.Proofs.Evaluation.Steps

/-!
# Evaluation computes what a graph means

The values of a module's instructions have the inferred shapes and show what the module means
(`Module.Computed`). The proof goes from position to position (`Steps.realizes`): an instruction
reads earlier ones, whose values are right, so the shapes that inference saw are those that its
operator sees now, and the operator gives what it means.

There are two exceptions. A return gives a placeholder of no use to anyone, whatever its shape. And
a kernel gives a row-major tensor where the inferred shape may have other strides; the theorem asks
for modules in which it has not (`Module.RowMajor`).

* `Program.uncompiled_evaluation_sound` -- a program that was not compiled has no kernels, so an
  evaluation that succeeds computes what the main module means.
-/

namespace TensorGraph

open Outcome

/-! ## 1. Operations -/

/-- The shape of an operation's result where `output` is the inferred one. -/
def Operation.resultShape (output : Shape) : Operation → Shape
  | kernel _ => output.toStandard
  | catalog _ | checkContext _ => output

section Operations

variable [ShortFloats]

theorem Kernel.run_eq_ok {b : Binary} {output : Shape} {args : List Tensor} {identity : Nat}
    {ctx after : Context} {y : Tensor} (h : Kernel.run b output args identity ctx = (.ok y, after)) :
    Kernel.compute b output args identity = .ok y := by
  unfold run at h
  split at h
  · cases h
  · exact congrArg Prod.fst h

/-- **An operation that runs gives what it means**, in a tensor of its result shape. -/
theorem Operation.run_realizes {op : Operation} {args : List Tensor} {y : Tensor} {output : Shape}
    {identity : Nat} {before after : Context} (hb : ∀ x ∈ args, x.Backed)
    (hi : op.infer (args.map Tensor.shape) = .ok output)
    (hr : op.run output args identity before = (.ok y, after)) :
    y.Realizes (op.resultShape output) (op.meaning output (args.map Tensor.grid)) := by
  cases op with
  | catalog o =>
    have ho : o.run output args identity = .ok y := congrArg Prod.fst hr
    exact Operator.run_realizes hb hi ho
  | kernel b =>
    have hc := Kernel.run_eq_ok hr
    obtain ⟨_, _, he, _⟩ := Binary.infer_eq_ok.mp hi
    obtain ⟨left, rest, rfl, rfl, hrest⟩ := List.map_eq_cons_iff.mp he
    obtain ⟨right, rfl, rfl⟩ := List.map_eq_singleton_iff.mp hrest
    have hleft : left.Backed := hb left List.mem_cons_self
    have hright : right.Backed := hb right (List.mem_cons_of_mem left List.mem_cons_self)
    exact Kernel.compute_realizes hleft hright hi hc
  | checkContext expected =>
    cases hi
    have ho : (before.expect expected (checkContext expected).name >>= fun _ => pure Tensor.empty) =
        .ok y := congrArg Prod.fst hr
    obtain ⟨_, _, hy⟩ := bind_eq_ok.mp ho
    cases hy
    exact ⟨rfl, Tensor.backed_placeholder default, Tensor.grid_placeholder default⟩

/-! ## 2. The reference by position -/

/-- Each meaning is that of its instruction over the meanings before it. -/
theorem reference_steps (bindings : Bindings) (grids : List Grid)
    (instructions : List (Instruction Operation)) :
    ∃ later, reference bindings grids instructions = grids ++ later ∧
      later.length = instructions.length ∧
      ∀ (k : Nat) (ins : Instruction Operation), instructions[k]? = some ins →
        later[k]? = some (ins.meaning bindings (grids ++ later.take k)) :=
  steps_of_collected (fun _ => rfl) (fun _ _ _ => rfl) grids instructions

end Operations

namespace Module

variable {m : Module Operation} {bindings : Bindings}

theorem length_reference [ShortFloats] (m : Module Operation) (bindings : Bindings) :
    (m.reference bindings).length = m.size := by
  obtain ⟨later, hr, hlen, _⟩ := reference_steps bindings [] m.instructions
  rw [Module.reference, hr, List.nil_append, hlen]
  rfl

theorem reference_getElem? [ShortFloats] {i : Nat} {ins : Instruction Operation}
    (hi : m.instruction? i = some ins) :
    (m.reference bindings)[i]? =
      some (ins.meaning bindings ((m.reference bindings).take i)) := by
  obtain ⟨later, hr, _, hsteps⟩ := reference_steps bindings [] m.instructions
  have hl : m.reference bindings = later := hr
  rw [hl]
  exact hsteps i ins hi

/-! ## 3. Right values -/

/-- The values of a module's instructions are right: there is one for each, it has the inferred shape
    unless it is that of the return, and it shows what the module means there. -/
structure Computed [ShortFloats] (m : Module Operation) (bindings : Bindings)
    (values : List Tensor) : Prop where
  size : values.length = m.size
  shapes : ∀ i ins value, m.instruction? i = some ins → values[i]? = some value →
    ins.kind ≠ .result → value.shape = ins.shape
  grids : values.map Tensor.grid = m.reference bindings

/-- Each value is that of an instruction. -/
theorem instruction?_of_value {values : List Tensor} (hsize : values.length = m.size) {i : Nat}
    {value : Tensor} (hv : values[i]? = some value) : ∃ ins, m.instruction? i = some ins := by
  have hlt : i < values.length := (List.getElem?_eq_some_iff.mp hv).1
  rw [hsize] at hlt
  exact ⟨_, List.getElem?_eq_getElem hlt⟩

/-- Every kernel was inferred a row-major shape. -/
def RowMajor (m : Module Operation) : Prop :=
  ∀ ins ∈ m.instructions, ∀ b, ins.kind = .operation (.kernel b) → ins.shape.isStandard = true

/-- The values of a module's instructions, each of which ran over the values before it, with bound
    parameters and constants that are backed. -/
structure Steps [ShortFloats] (m : Module Operation) (config : Config) (bindings : Bindings)
    (firstBuffer : Nat) (values : List Tensor) : Prop where
  wellFormed : m.WellFormed
  parameters : ∀ p ∈ m.parameters, ∃ value, bindings p.1 = some value ∧ value.shape = p.2
  bound : ∀ name value, bindings name = some value → value.Backed
  literals : ∀ ins ∈ m.instructions, ∀ value, ins.kind = .literal value → value.Backed
  size : values.length = m.size
  step : ∀ i ins, m.instruction? i = some ins → ∃ value before after, values[i]? = some value ∧
    runInstruction config bindings firstBuffer (values.take i) ins before = (.ok value, after)

namespace Steps

variable [ShortFloats] {config : Config} {firstBuffer : Nat} {values : List Tensor}

/-- The value of an operation, from the values of its operands. -/
theorem operation (h : m.Steps config bindings firstBuffer values) {i : Nat}
    {ins : Instruction Operation} {value : Tensor} (hi : m.instruction? i = some ins)
    (hv : values[i]? = some value) {op : Operation} (hk : ins.kind = .operation op) :
    ∃ args identity before after, operandValues (values.take i) ins.inputs = .ok args ∧
      op.run ins.shape args identity before = (.ok value, after) := by
  obtain ⟨found, before, after, hf, hrun⟩ := h.step i ins hi
  rw [hv] at hf
  cases hf
  rw [runInstruction, hk] at hrun
  obtain ⟨args, ha, hr, _⟩ := runOperation_eq_ok.mp hrun
  exact ⟨args, _, before, after, ha, hr⟩

/-- An operation whose operands are right gives what it means, in a tensor of its result shape. -/
theorem operation_realizes (h : m.Steps config bindings firstBuffer values) {i : Nat}
    (earlier : ∀ j < i, ∀ ins value, m.instruction? j = some ins → values[j]? = some value →
      value.Backed ∧ (ins.kind ≠ .result → value.shape = ins.shape) ∧
        (m.reference bindings)[j]? = some value.grid)
    {ins : Instruction Operation} {value : Tensor} (hi : m.instruction? i = some ins)
    (hv : values[i]? = some value) {op : Operation} (hk : ins.kind = .operation op) :
    value.Realizes (op.resultShape ins.shape)
      (ins.meaning bindings ((m.reference bindings).take i)) := by
  have hbefore : ∀ (j : Nat) v, (values.take i)[j]? = some v → j < i ∧ values[j]? = some v := by
    intro j v hj
    rw [List.getElem?_take] at hj
    by_cases hlt : j < i
    · rw [if_pos hlt] at hj
      exact ⟨hlt, hj⟩
    · rw [if_neg hlt] at hj
      cases hj
  obtain ⟨args, identity, before, after, ha, hr⟩ := h.operation hi hv hk
  have hbacked : ∀ x ∈ args, x.Backed := by
    intro x hx
    obtain ⟨j, hj⟩ := List.mem_iff_getElem?.mp (mem_of_operandValues ha hx)
    obtain ⟨hlt, hj⟩ := hbefore j x hj
    obtain ⟨found, hf⟩ := instruction?_of_value h.size hj
    exact (earlier j hlt found x hf hj).1
  have hshapes : args.map Tensor.shape = m.shapesOf ins.inputs := by
    refine map_operandValues ha fun j hin v hj => ?_
    obtain ⟨hlt, hj⟩ := hbefore j v hj
    obtain ⟨found, hf⟩ := instruction?_of_value h.size hj
    have hne : found.kind ≠ .result := h.wellFormed.not_result_of_read hi hin hf
    rw [hf, Option.map_some, (earlier j hlt found v hf hj).2.1 hne]
  have hgrids : args.map Tensor.grid =
      ins.inputs.filterMap (((m.reference bindings).take i)[·]?) := by
    refine map_operandValues ha fun j _ v hj => ?_
    obtain ⟨hlt, hj⟩ := hbefore j v hj
    obtain ⟨found, hf⟩ := instruction?_of_value h.size hj
    rw [List.getElem?_take, if_pos hlt, (earlier j hlt found v hf hj).2.2]
  have hinfer : op.infer (args.map Tensor.shape) = .ok ins.shape := by
    rw [hshapes]
    exact h.wellFormed.infer_eq (List.mem_of_getElem? hi) hk
  rw [Instruction.meaning, hk]
  show value.Realizes _ (op.meaning ins.shape _)
  rw [← hgrids]
  exact Operation.run_realizes hbacked hinfer hr

/-- **Values are right position by position.** -/
theorem realizes (h : m.Steps config bindings firstBuffer values) (hrow : m.RowMajor) (i : Nat) :
    ∀ ins value, m.instruction? i = some ins → values[i]? = some value → value.Backed ∧
      (ins.kind ≠ .result → value.shape = ins.shape) ∧
      (m.reference bindings)[i]? = some value.grid := by
  induction i using Nat.strongRecOn with
  | ind i ih =>
    intro ins value hi hv
    have hmem := List.mem_of_getElem? hi
    obtain ⟨found, before, after, hf, hrun⟩ := h.step i ins hi
    rw [hv] at hf
    cases hf
    rw [reference_getElem? hi]
    cases hk : ins.kind with
    | parameter name =>
      obtain ⟨bound, hb, hs⟩ := h.parameters _ (mem_parameters hmem hk)
      simp only [runInstruction, hk, hb] at hrun
      cases hrun
      refine ⟨h.bound name value hb, fun _ => hs, ?_⟩
      rw [Instruction.meaning, hk]
      simp only [hb, Option.map_some, Option.getD_some]
    | literal constant =>
      simp only [runInstruction, hk] at hrun
      cases hrun
      obtain ⟨_, hs⟩ := h.wellFormed.literal hmem hk
      refine ⟨h.literals ins hmem value hk, fun _ => hs.symm, ?_⟩
      rw [Instruction.meaning, hk]
    | result =>
      simp only [runInstruction, hk] at hrun
      cases hrun
      refine ⟨Tensor.backed_placeholder _, fun hne => absurd rfl hne, ?_⟩
      rw [Instruction.meaning, hk]
    | operation op =>
      have hreal := h.operation_realizes ih hi hv hk
      have hresult : op.resultShape ins.shape = ins.shape := by
        cases op with
        | kernel b => exact ((Shape.isStandard_iff ins.shape).mp (hrow ins hmem b hk)).symm
        | catalog o => rfl
        | checkContext expected => rfl
      exact ⟨hreal.backed, fun _ => hreal.shape.trans hresult, congrArg some hreal.grid.symm⟩

/-- **Steps through a module with row-major kernels compute what the module means.** -/
theorem computed (h : m.Steps config bindings firstBuffer values) (hrow : m.RowMajor) :
    m.Computed bindings values where
  size := h.size
  shapes i ins value hi hv := (h.realizes hrow i ins value hi hv).2.1
  grids := by
    refine List.ext_getElem? fun i => ?_
    rw [List.getElem?_map]
    by_cases hlt : i < m.size
    · have hi : m.instruction? i = some _ := List.getElem?_eq_getElem hlt
      have hv : values[i]? = some _ := List.getElem?_eq_getElem (h.size.symm ▸ hlt)
      rw [(h.realizes hrow i _ _ hi hv).2.2, hv]
      rfl
    · have hvalues : values.length ≤ i := by
        rw [h.size]
        omega
      have hreference : (m.reference bindings).length ≤ i := by
        rw [length_reference]
        omega
      rw [List.getElem?_eq_none hvalues, List.getElem?_eq_none hreference]
      rfl

end Steps

/-- The calls put backed constants and no kernels into a module. -/
structure SourceCalls (calls : List (Call Operation)) : Prop where
  operators : ∀ call ∈ calls, ∀ op, kindOf call = .operation op → ∀ b, op ≠ .kernel b
  constants : ∀ call ∈ calls, ∀ value, kindOf call = .literal value → value.Backed

namespace SourceCalls

variable {calls : List (Call Operation)}

theorem nil : SourceCalls [] where
  operators := fun _ h => absurd h List.not_mem_nil
  constants := fun _ h => absurd h List.not_mem_nil

theorem cons {call : Call Operation} (h : SourceCalls calls)
    (ho : ∀ op, kindOf call = .operation op → ∀ b, op ≠ .kernel b)
    (hc : ∀ value, kindOf call = .literal value → value.Backed) : SourceCalls (call :: calls) where
  operators := List.forall_mem_cons.mpr ⟨ho, h.operators⟩
  constants := List.forall_mem_cons.mpr ⟨hc, h.constants⟩

theorem parameter (h : SourceCalls calls) {name : String} {shape : Shape} :
    SourceCalls (.parameter name shape :: calls) := by
  refine h.cons (fun op hk => ?_) (fun value hk => ?_)
  · cases hk
  · cases hk

/-- Operators of the catalog are no kernels. -/
theorem instruction (h : SourceCalls calls) {o : Operator} {inputs : List Nat} :
    SourceCalls (.instruction (.catalog o) inputs :: calls) := by
  refine h.cons (fun op hk b => ?_) (fun value hk => ?_)
  · cases hk
    nofun
  · cases hk

theorem result (h : SourceCalls calls) {outputs : List Nat} :
    SourceCalls (.result outputs :: calls) := by
  refine h.cons (fun op hk => ?_) (fun value hk => ?_)
  · cases hk
  · cases hk

theorem literals (h : SourceCalls calls) {name : String} :
    ∀ ins ∈ ((Module.new name).run calls).instructions, ∀ value,
      ins.kind = .literal value → value.Backed := by
  intro ins hins value hk
  obtain ⟨call, hc, hcall⟩ := kind_of_run hins
  exact h.constants call hc value (hcall.symm.trans hk)

theorem operations (h : SourceCalls calls) {name : String} :
    ∀ ins ∈ ((Module.new name).run calls).instructions, ∀ op,
      ins.kind = .operation op → ∀ b, op ≠ .kernel b := by
  intro ins hins op hk
  obtain ⟨call, hc, hcall⟩ := kind_of_run hins
  exact h.operators call hc op (hcall.symm.trans hk)

/-- A module without kernels has none that is not row-major. -/
theorem rowMajor (h : SourceCalls calls) (name : String) :
    ((Module.new name).run calls : Module Operation).RowMajor := by
  intro ins hins b hk
  exact absurd rfl (h.operations ins hins _ hk b)

end SourceCalls

end Module

/-! ## 4. Programs -/

namespace Program

/-- The program with the verification of shapes switched on or off. -/
def verifying (p : Program Operation Context) (verify : Bool) : Program Operation Context :=
  { p with config := { p.config with verifyShapes := verify } }

section Evaluation

variable [ShortFloats] {p : Program Operation Context} {bindings : Bindings} {firstBuffer : Nat}
  {outs : List Tensor}

/-- An evaluation that succeeds goes through the main module step by step. -/
theorem steps_of_eval (hw : p.main.WellFormed)
    (hl : ∀ ins ∈ p.main.instructions, ∀ value, ins.kind = .literal value → value.Backed)
    (hb : ∀ name value, bindings name = some value → value.Backed)
    (heval : (p.eval bindings firstBuffer).outcome = .ok outs) :
    p.main.Steps p.config bindings firstBuffer (p.values bindings firstBuffer) := by
  obtain ⟨_, _, hp, he, _⟩ := eval_eq_ok.mp heval
  obtain ⟨later, hv, hlen, hsteps⟩ := evaluate_steps he
  have hvalues : p.values bindings firstBuffer = later := hv
  rw [hvalues]
  exact
    { wellFormed := hw
      parameters := checkBindings_eq_ok.mp hp
      bound := hb
      literals := hl
      size := hlen
      step := hsteps }

/-- The results of an evaluation are the values that the return instruction reads. -/
theorem results_of_eval (hw : p.main.WellFormed)
    (heval : (p.eval bindings firstBuffer).outcome = .ok outs)
    (hc : p.main.Computed bindings (p.values bindings firstBuffer)) :
    outs.map Tensor.shape = p.main.outputShapes ∧
      outs.map Tensor.grid = p.main.outputGrids bindings := by
  obtain ⟨position, hr, _, _, hres⟩ := eval_eq_ok.mp heval
  obtain ⟨ret, hret, _⟩ := (hw.sealed position).mp hr
  unfold results at hres
  unfold Module.outputShapes Module.outputGrids
  rw [hret] at hres
  rw [hr, Option.bind_some, hret]
  constructor
  · refine map_operandValues hres fun i hi value hv => ?_
    obtain ⟨found, hf⟩ := Module.instruction?_of_value hc.size hv
    have hne : found.kind ≠ .result := hw.not_result_of_read hret hi hf
    rw [hf, Option.map_some, hc.shapes i found value hf hv hne]
  · refine map_operandValues hres fun i _ value hv => ?_
    rw [← hc.grids, List.getElem?_map, hv]
    rfl

/-- An evaluation that computes what the module means comes to the same whether shapes are verified
    or not. -/
theorem eval_verifying (heval : (p.eval bindings firstBuffer).outcome = .ok outs)
    (hc : p.main.Computed bindings (p.values bindings firstBuffer)) (verify : Bool) :
    ((p.verifying verify).eval bindings firstBuffer).outcome =
        (p.eval bindings firstBuffer).outcome ∧
      ((p.verifying verify).eval bindings firstBuffer).records =
        (p.eval bindings firstBuffer).records ∧
      ((p.verifying verify).eval bindings firstBuffer).program.context =
        (p.eval bindings firstBuffer).program.context := by
  obtain ⟨_, _, _, he, _⟩ := eval_eq_ok.mp heval
  have hsame : evaluate (p.verifying verify).config bindings firstBuffer p.main.instructions []
      p.context = evaluate p.config bindings firstBuffer p.main.instructions [] p.context := by
    refine evaluate_config ?_ he fun k ins op value hi hk hv => ?_
    · rfl
    · rw [List.length_nil, Nat.zero_add] at hv
      have hne : ins.kind ≠ .result := by
        rw [hk]
        nofun
      exact hc.shapes k ins value hi hv hne
  have hcall : (p.verifying verify).checkCall bindings = p.checkCall bindings := rfl
  unfold eval
  rw [hcall]
  cases p.checkCall bindings with
  | error f => exact ⟨rfl, rfl, rfl⟩
  | ok position =>
    dsimp only
    rw [show (p.verifying verify).main = p.main from rfl,
      show (p.verifying verify).context = p.context from rfl, hsame]
    exact ⟨rfl, rfl, rfl⟩

/-- **An uncompiled program computes what its main module means.** Whenever the evaluation of a main
    module that is built of parameters, constants and operators that are no kernels succeeds, each
    instruction but the return has a value of the inferred shape that shows what the module means
    there, and a value with data shows an element at each of its positions. The results have the
    shapes that the module announces, and to verify shapes makes no difference. -/
theorem uncompiled_evaluation_sound {name : String} {calls : List (Call Operation)}
    (hmain : p.main = (Module.new name).run calls) (hcalls : Module.SourceCalls calls)
    (hbound : ∀ name value, bindings name = some value → value.Backed)
    (heval : (p.eval bindings firstBuffer).outcome = .ok outs) :
    p.main.Computed bindings (p.values bindings firstBuffer) ∧
      (∀ value ∈ p.values bindings firstBuffer, value.hasData = true →
        ∀ index ∈ positions value.shape.lengths, (value.grid.content index).isSome = true) ∧
      outs.map Tensor.shape = p.main.outputShapes ∧
      outs.map Tensor.grid = p.main.outputGrids bindings ∧
      ∀ verify, ((p.verifying verify).eval bindings firstBuffer).outcome = .ok outs ∧
        ((p.verifying verify).eval bindings firstBuffer).records =
          (p.eval bindings firstBuffer).records ∧
        ((p.verifying verify).eval bindings firstBuffer).program.context =
          (p.eval bindings firstBuffer).program.context := by
  have hw : p.main.WellFormed := by
    rw [hmain]
    exact Module.wellFormed_run name calls
  have hl : ∀ ins ∈ p.main.instructions, ∀ value, ins.kind = .literal value → value.Backed := by
    rw [hmain]
    exact hcalls.literals
  have hrow : p.main.RowMajor := by
    rw [hmain]
    exact hcalls.rowMajor name
  have hsteps := steps_of_eval hw hl hbound heval
  have hc := hsteps.computed hrow
  obtain ⟨hshapes, hgrids⟩ := results_of_eval hw heval hc
  refine ⟨hc, ?_, hshapes, hgrids, ?_⟩
  · intro value hv hd index hi
    obtain ⟨i, hget⟩ := List.mem_iff_getElem?.mp hv
    obtain ⟨found, hf⟩ := Module.instruction?_of_value hc.size hget
    have hbacked : value.Backed := (hsteps.realizes hrow i found value hf hget).1
    exact hbacked.isSome_content hd hi
  · intro verify
    obtain ⟨ho, hrecords, hcontext⟩ := eval_verifying heval hc verify
    exact ⟨ho.trans heval, hrecords, hcontext⟩

end Evaluation

/-- Calls that take `x`, transpose it, and return that. -/
def transposingCalls (s : Shape) : List (Call Operation) :=
  [.parameter "x" s, .instruction (.catalog (.transpose [1, 0])) [0], .result [1]]

theorem sourceCalls_transposing (s : Shape) : Module.SourceCalls (transposingCalls s) :=
  Module.SourceCalls.nil.result.instruction.parameter

/-- The program of these calls. -/
def transposing (s : Shape) : Program Operation Context :=
  { Program.new default with main := (Module.new mainName).run (transposingCalls s) }

/-- Transposing a matrix of two rows: the same buffer, through a shape of two columns. -/
theorem transposing_matrix_sound :
    let x : Tensor := ⟨.standard .u8 [2, 3], some ⟨1, .ofPatterns .u8 [0, 1, 2, 3, 4, 5]⟩⟩
    let p := transposing (.standard .u8 [2, 3])
    let y : Tensor := ⟨⟨.u8, [⟨3, 1⟩, ⟨2, 3⟩]⟩, x.buffer⟩
    (p.eval (fun _ => some x) 7).outcome = .ok [y] ∧
      p.main.Computed (fun _ => some x) (p.values (fun _ => some x) 7) := by
  intro x p y
  have hx : x.Backed := by
    intro buffer h
    cases h
    rfl
  have hbound : ∀ name value, (fun _ => some x : Bindings) name = some value → value.Backed := by
    intro _ _ h
    cases h
    exact hx
  have heval : (p.eval (fun _ => some x) 7).outcome = .ok [y] := rfl
  have hmain : p.main = (Module.new mainName).run (transposingCalls (.standard .u8 [2, 3])) := rfl
  exact ⟨heval, (uncompiled_evaluation_sound hmain (sourceCalls_transposing _) hbound heval).1⟩

/-- **The value of a return instruction is an empty placeholder**, whatever the shape it returns. -/
theorem transposing_return_shape :
    let x := Tensor.placeholder (.standard .f32 [2, 3])
    let p := transposing (.standard .f32 [2, 3])
    (∃ outs, (p.eval (fun _ => some x) 7).outcome = .ok outs) ∧
      ¬ ∀ i ins value, p.main.instruction? i = some ins →
        (p.values (fun _ => some x) 7)[i]? = some value → value.shape = ins.shape := by
  intro x p
  refine ⟨⟨_, rfl⟩, fun h => ?_⟩
  have hshape : Tensor.empty.shape = ⟨.f32, [⟨3, 1⟩, ⟨2, 3⟩]⟩ := h 2 _ _ rfl rfl
  cases hshape

end Program

end TensorGraph
