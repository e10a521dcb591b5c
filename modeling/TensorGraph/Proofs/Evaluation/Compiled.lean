import TensorGraph.Proofs.Evaluation.Soundness
import TensorGraph.Proofs.Target.Lowering

/-!
# When a compiled program computes what it means

Compiling for the CPU puts kernels in the place of arithmetic. A kernel means what its arithmetic
means, so the meaning of a module survives (`Module.reference_lowered`). Its layout does not: a
kernel gives a row-major tensor, and inference promised the strides of the first operand. Whoever
reads the result through a shape that was inferred from that promise reads other elements.

* `Module.RowMajorArithmetic` -- inference promised row-major results to all arithmetic;
* `Program.compiled_evaluation_exact` -- this is exactly the condition under which an evaluation of
  the compiled program, when it succeeds, computes what the module means.
-/

namespace TensorGraph

open Outcome

/-! ## 1. The lowered module -/

namespace Module

/-- Every arithmetic operator was inferred a row-major shape. -/
def RowMajorArithmetic (m : Module Operation) : Prop :=
  ∀ ins ∈ m.instructions, ∀ b, ins.kind = .operation (.catalog (.binary b)) →
    ins.shape.isStandard = true

section Meaning

variable [ShortFloats]

/-- A kernel means what its arithmetic means. -/
theorem meaning_lowered (bindings : Bindings) (grids : List Grid) (ins : Instruction Operation) :
    (Cpu.lowered ins).meaning bindings grids = ins.meaning bindings grids := by
  rcases Cpu.kernelCall?_cases 0 ins with ⟨_, hne⟩ | ⟨b, _, hk⟩
  · rw [Cpu.lowered_of_ne hne]
  · rw [Cpu.lowered_of_binary hk, Instruction.meaning, Instruction.meaning, hk]
    rfl

theorem reference_map_lowered (bindings : Bindings) (grids : List Grid)
    (instructions : List (Instruction Operation)) :
    TensorGraph.reference bindings grids (instructions.map Cpu.lowered) =
      TensorGraph.reference bindings grids instructions := by
  induction instructions generalizing grids with
  | nil => rfl
  | cons ins rest ih =>
    rw [List.map_cons, TensorGraph.reference, TensorGraph.reference, meaning_lowered, ih]

end Meaning

section Lowered

variable {m after : Module Operation} {bindings : Bindings}

/-- **Lowering keeps what a module means.** -/
theorem reference_lowered [ShortFloats] (hm : after.instructions = m.instructions.map Cpu.lowered) :
    after.reference bindings = m.reference bindings := by
  unfold Module.reference
  rw [hm, reference_map_lowered]

theorem instruction?_lowered (hm : after.instructions = m.instructions.map Cpu.lowered) (i : Nat) :
    after.instruction? i = (m.instruction? i).map Cpu.lowered := by
  unfold instruction?
  rw [hm, List.getElem?_map]

theorem size_lowered (hm : after.instructions = m.instructions.map Cpu.lowered) :
    after.size = m.size := by
  unfold size
  rw [hm, List.length_map]

/-- The return of the lowered module is the lowered return. -/
theorem return_lowered (hm : after.instructions = m.instructions.map Cpu.lowered)
    (hr : after.returnAt = m.returnAt) :
    after.returnAt.bind after.instruction? = (m.returnAt.bind m.instruction?).map Cpu.lowered := by
  rw [hr]
  cases m.returnAt with
  | none => rfl
  | some r => exact instruction?_lowered hm r

theorem outputShapes_lowered (hm : after.instructions = m.instructions.map Cpu.lowered)
    (hr : after.returnAt = m.returnAt) : after.outputShapes = m.outputShapes := by
  have hshapes : ∀ inputs, after.shapesOf inputs = m.shapesOf inputs := fun inputs =>
    shapesOf_congr fun i _ => by
      rw [instruction?_lowered hm]
      cases m.instruction? i <;> simp
  unfold outputShapes
  rw [return_lowered hm hr]
  cases m.returnAt.bind m.instruction? with
  | none => rfl
  | some ins =>
    show after.shapesOf (Cpu.lowered ins).inputs = m.shapesOf ins.inputs
    rw [hshapes, Cpu.inputs_lowered]

theorem outputGrids_lowered [ShortFloats]
    (hm : after.instructions = m.instructions.map Cpu.lowered) (hr : after.returnAt = m.returnAt) :
    after.outputGrids bindings = m.outputGrids bindings := by
  unfold outputGrids
  rw [return_lowered hm hr, reference_lowered hm]
  cases m.returnAt.bind m.instruction? with
  | none => rfl
  | some ins =>
    show (Cpu.lowered ins).inputs.filterMap _ = _
    rw [Cpu.inputs_lowered]

/-- An instruction that is no operation is lowered to itself. -/
theorem kind_lowered_iff {ins : Instruction Operation} {kind : InstructionKind Operation}
    (hk : ∀ op, kind ≠ .operation op) : (Cpu.lowered ins).kind = kind ↔ ins.kind = kind := by
  rcases Cpu.kernelCall?_cases 0 ins with ⟨_, hne⟩ | ⟨b, _, hb⟩
  · rw [Cpu.lowered_of_ne hne]
  · rw [Cpu.lowered_of_binary hb, hb]
    exact ⟨fun h => absurd h.symm (hk _), fun h => absurd h.symm (hk _)⟩

/-- **Right values of the lowered module are right values of the module.** -/
theorem computed_lowered [ShortFloats]
    (hm : after.instructions = m.instructions.map Cpu.lowered) {values : List Tensor} :
    after.Computed bindings values ↔ m.Computed bindings values := by
  have hshapes : (∀ i ins value, after.instruction? i = some ins → values[i]? = some value →
        ins.kind ≠ .result → value.shape = ins.shape) ↔
      ∀ i ins value, m.instruction? i = some ins → values[i]? = some value →
        ins.kind ≠ .result → value.shape = ins.shape := by
    have hresult : ∀ ins : Instruction Operation,
        (Cpu.lowered ins).kind = .result ↔ ins.kind = .result :=
      fun _ => kind_lowered_iff nofun
    constructor
    · intro h i ins value hi hv hne
      have hlowered : after.instruction? i = some (Cpu.lowered ins) := by
        rw [instruction?_lowered hm, hi]
        rfl
      have hkind : (Cpu.lowered ins).kind ≠ .result := (hresult ins).not.mpr hne
      have hshape := h i (Cpu.lowered ins) value hlowered hv hkind
      rwa [Cpu.shape_lowered] at hshape
    · intro h i ins value hi hv hne
      rw [instruction?_lowered hm] at hi
      obtain ⟨found, hf, rfl⟩ := Option.map_eq_some_iff.mp hi
      rw [Cpu.shape_lowered]
      exact h i found value hf hv ((hresult found).not.mp hne)
  constructor
  · intro h
    obtain ⟨hs, h, hg⟩ := h
    exact ⟨hs.trans (size_lowered hm), hshapes.mp h, hg.trans (reference_lowered hm)⟩
  · intro h
    obtain ⟨hs, h, hg⟩ := h
    exact ⟨hs.trans (size_lowered hm).symm, hshapes.mpr h, hg.trans (reference_lowered hm).symm⟩

/-- Where a module has no kernels of its own, those of the lowered module are its arithmetic. -/
theorem rowMajor_lowered (hm : after.instructions = m.instructions.map Cpu.lowered)
    (hops : ∀ ins ∈ m.instructions, ∀ op, ins.kind = .operation op → ∀ b, op ≠ .kernel b) :
    after.RowMajor ↔ m.RowMajorArithmetic := by
  unfold RowMajor RowMajorArithmetic
  rw [hm]
  constructor
  · intro h ins hi b hk
    have hkernel : (Cpu.lowered ins).kind = .operation (.kernel b) := by
      rw [Cpu.lowered_of_binary hk]
    have hstandard := h (Cpu.lowered ins) (List.mem_map_of_mem hi) b hkernel
    rwa [Cpu.shape_lowered] at hstandard
  · intro h ins hi b hk
    obtain ⟨found, hf, rfl⟩ := List.mem_map.mp hi
    rw [Cpu.shape_lowered]
    rcases Cpu.kernelCall?_cases 0 found with ⟨_, hne⟩ | ⟨b', _, hb⟩
    · rw [Cpu.lowered_of_ne hne] at hk
      exact absurd rfl (hops found hf _ hk b)
    · exact h found hf b' hb

end Lowered

/-- **A kernel has the shape that was inferred for it only if that is row-major.** -/
theorem Steps.rowMajor_of_computed [ShortFloats] {m : Module Operation} {config : Config}
    {bindings : Bindings} {firstBuffer : Nat} {values : List Tensor}
    (h : m.Steps config bindings firstBuffer values) (hc : m.Computed bindings values) : m.RowMajor := by
  intro ins hins b hk
  obtain ⟨i, hi⟩ := List.mem_iff_getElem?.mp hins
  have hlt : i < values.length := by
    rw [hc.size]
    exact (List.getElem?_eq_some_iff.mp hi).1
  have hv : values[i]? = some values[i] := List.getElem?_eq_getElem hlt
  obtain ⟨args, identity, before, after, _, hr⟩ := h.operation hi hv hk
  have hshape : values[i].shape = ins.shape.toStandard :=
    Kernel.shape_of_compute (Kernel.run_eq_ok hr)
  have hne : ins.kind ≠ .result := by
    rw [hk]
    nofun
  rw [Shape.isStandard_iff, ← hshape]
  exact (hc.shapes i ins _ hi hv hne).symm

end Module

/-! ## 2. Compiled programs -/

namespace Program

variable {p compiled : Program Operation Context} {bindings : Bindings} {firstBuffer : Nat}
  {outs : List Tensor}

/-- **When a compiled program computes what its main module means.** Let the main module be built of
    parameters, constants and operators that are no kernels, and let the evaluation of the compiled
    program succeed. Its values have the inferred shapes and show what the module means, except for
    the value of the return, exactly if every arithmetic operator was inferred a row-major shape; and
    then so do the results. -/
theorem compiled_evaluation_exact [ShortFloats] {name : String} {calls : List (Call Operation)}
    (hmain : p.main = (Module.new name).run calls) (hcalls : Module.SourceCalls calls)
    (hcompile : (p.compile Cpu.target).outcome = .ok compiled)
    (hbound : ∀ name value, bindings name = some value → value.Backed)
    (heval : (compiled.eval bindings firstBuffer).outcome = .ok outs) :
    (p.main.Computed bindings (compiled.values bindings firstBuffer) ↔
        p.main.RowMajorArithmetic) ∧
      (p.main.RowMajorArithmetic → outs.map Tensor.shape = p.main.outputShapes ∧
        outs.map Tensor.grid = p.main.outputGrids bindings) := by
  obtain ⟨hlower, _, _⟩ := compile_eq_ok hcompile
  obtain ⟨hi, hret, hkeep⟩ := Cpu.lower_eq_ok hlower
  have hops : ∀ ins ∈ p.main.instructions, ∀ op, ins.kind = .operation op → ∀ b, op ≠ .kernel b := by
    rw [hmain]
    exact hcalls.operations
  have hliterals : ∀ ins ∈ compiled.main.instructions, ∀ value, ins.kind = .literal value →
      value.Backed := by
    intro ins hins value hk
    rw [hi] at hins
    obtain ⟨found, hf, rfl⟩ := List.mem_map.mp hins
    rw [hmain] at hf
    have hsame : (Cpu.lowered found).kind = .literal value ↔ found.kind = .literal value :=
      Module.kind_lowered_iff nofun
    exact hcalls.literals found hf value (hsame.mp hk)
  have hbuilt : p.main.WellFormed := by
    rw [hmain]
    exact Module.wellFormed_run name calls
  have hwell : compiled.main.WellFormed := hkeep hbuilt
  have hsteps := steps_of_eval hwell hliterals hbound heval
  have hiff : p.main.Computed bindings (compiled.values bindings firstBuffer) ↔
      p.main.RowMajorArithmetic := by
    rw [← Module.computed_lowered hi, ← Module.rowMajor_lowered hi hops]
    exact ⟨hsteps.rowMajor_of_computed, hsteps.computed⟩
  refine ⟨hiff, fun hrow => ?_⟩
  obtain ⟨hshapes, hgrids⟩ :=
    results_of_eval hwell heval ((Module.computed_lowered hi).mpr (hiff.mpr hrow))
  rw [hshapes, hgrids, Module.outputShapes_lowered hi hret, Module.outputGrids_lowered hi hret]
  exact ⟨rfl, rfl⟩

/-- Calls that add `y` to the transposed `x` and transpose the sum. -/
def transposedSumCalls : List (Call Operation) :=
  [.parameter "x" (.standard .f32 [2, 3]), .parameter "y" (.standard .f32 [3, 2]),
    .instruction (.catalog (.transpose [1, 0])) [0],
    .instruction (.catalog (.binary ⟨.add, none⟩)) [2, 1],
    .instruction (.catalog (.transpose [1, 0])) [3], .result [4]]

/-- Calls that add `x` to itself. -/
def doubleCalls : List (Call Operation) :=
  [.parameter "x" (.standard .f32 [2, 3]), .instruction (.catalog (.binary ⟨.add, none⟩)) [0, 0],
    .result [1]]

theorem sourceCalls_double : Module.SourceCalls doubleCalls :=
  Module.SourceCalls.nil.result.instruction.parameter

/-- The program of some calls. -/
def ofCalls (calls : List (Call Operation)) : Program Operation Context :=
  { Program.new default with main := (Module.new mainName).run calls }

/-- Zeros of the given lengths. -/
def zeros (lengths : List Nat) : Tensor :=
  ⟨.standard .f32 lengths, some ⟨1, ⟨.f32, Array.replicate lengths.prod 0⟩⟩⟩

theorem backed_zeros_matrix : (zeros [2, 3]).Backed := by
  intro buffer h
  cases h
  rfl

/-- The sum of a row-major matrix with itself is computed. -/
theorem double_matrix_computed :
    ∃ compiled outs, ((ofCalls doubleCalls).compile Cpu.target).outcome = .ok compiled ∧
      (compiled.eval (fun _ => some (zeros [2, 3])) 7).outcome = .ok outs ∧
      (ofCalls doubleCalls).main.Computed (fun _ => some (zeros [2, 3]))
        (compiled.values (fun _ => some (zeros [2, 3])) 7) := by
  have hmain : (ofCalls doubleCalls).main = (Module.new mainName).run doubleCalls := rfl
  have hbound : ∀ name value, (fun _ => some (zeros [2, 3]) : Bindings) name = some value →
      value.Backed := by
    intro _ _ h
    cases h
    exact backed_zeros_matrix
  have hrow : (ofCalls doubleCalls).main.RowMajorArithmetic := by
    intro ins hins b _
    have hshape : ∀ ins ∈ (ofCalls doubleCalls).main.instructions, ins.shape.isStandard = true := by
      decide
    exact hshape ins hins
  obtain ⟨compiled, hcompile⟩ : ∃ compiled,
      ((ofCalls doubleCalls).compile Cpu.target).outcome = .ok compiled := ⟨_, rfl⟩
  obtain ⟨outs, heval⟩ : ∃ outs,
      (compiled.eval (fun _ => some (zeros [2, 3])) 7).outcome = .ok outs := by
    cases hcompile
    exact ⟨_, rfl⟩
  exact ⟨compiled, outs, hcompile, heval,
    (compiled_evaluation_exact hmain sourceCalls_double hcompile hbound heval).1.mpr hrow⟩

/-- **A sum is promised the strides of its first operand, and is row-major.** Here the first operand
    is a transposed matrix, so what is computed is not what was inferred. -/
theorem transposed_sum_not_computed :
    ∃ compiled outs bindings,
      ((ofCalls transposedSumCalls).compile Cpu.target).outcome = .ok compiled ∧
      (compiled.eval bindings 7).outcome = .ok outs ∧
      ¬ (ofCalls transposedSumCalls).main.Computed bindings (compiled.values bindings 7) := by
  let bindings : Bindings := fun name => some (if name = "x" then zeros [2, 3] else zeros [3, 2])
  refine ⟨_, _, bindings, rfl, rfl, fun h => ?_⟩
  have hsum : Shape.standard .f32 [3, 2] = ⟨.f32, [⟨3, 1⟩, ⟨2, 3⟩]⟩ :=
    h.shapes 3 _ _ rfl rfl nofun
  exact absurd hsum (by decide)

end Program

end TensorGraph
