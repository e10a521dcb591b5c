import TensorGraph.Proofs.Evaluation.Operators
import TensorGraph.Proofs.Tensor.Reading

/-!
# Arithmetic with an axis and arithmetic after a broadcast

Arithmetic with an axis lays its second operand onto the first by itself. The same can be said with two
instructions, a broadcast and arithmetic without an axis, and a graph may be written in either way:

* `Binary.infer_fused_iff` -- inference accepts the one where it accepts the other, with the same shape;
* `Tensor.Backed.view_broadcast`, `Tensor.Backed.view_uncountable` -- a broadcast shape is one through which
  the second argument can be viewed, unless nobody can count its elements;
* `Kernel.compute_fused` -- from there on the kernels do the same;
* `Kernel.fused_broadcast_exact` -- so, where the view succeeds, they give the same tensor, bit for bit and
  over the same buffer, or the same failure, and leave the same context;
* `Kernel.bias_on_uncountable_matrix` -- where it does not, they may differ.

To view the second argument is to count the elements of the first operand's shape. A shape whose elements are
more than a word counts has no data, but a placeholder may have it; then viewing is a fault. Two instructions
view before they ask for a context, and one instruction views after that, so a context that does not count
kernels turns the fault of the one into an error.
-/

namespace TensorGraph

/-! ## 1. Inference -/

/-- **Arithmetic with an axis infers what arithmetic after a broadcast infers**, and is refused where one of
    the two is. -/
theorem Binary.infer_fused_iff {f : Arithmetic} {axis : Nat} {left right output : Shape} :
    Binary.infer ⟨f, some axis⟩ [left, right] = .ok output ↔
      ∃ aligned, Alignment.infer axis [left, right] = .ok aligned ∧
        Binary.infer ⟨f, none⟩ [left, aligned] = .ok output := by
  simp only [Binary.infer_eq_ok, Alignment.infer_eq_ok]
  constructor
  · intro h
    obtain ⟨_, _, he, htype, rfl, _, hsome⟩ := h
    cases he
    obtain ⟨aligned, hs⟩ := hsome axis rfl
    obtain ⟨hlengths, htype'⟩ := Shape.kept_of_broadcast hs
    exact ⟨aligned, ⟨_, _, rfl, hs⟩, _, _, rfl, htype.trans htype'.symm, rfl, fun _ => hlengths.symm, nofun⟩
  · intro h
    obtain ⟨aligned, ⟨_, _, he, hs⟩, _, _, he', htype, rfl, _⟩ := h
    cases he
    cases he'
    refine ⟨_, _, rfl, htype.trans (Shape.kept_of_broadcast hs).2, rfl, nofun, fun axis' ha => ?_⟩
    cases ha
    exact ⟨aligned, hs⟩

/-! ## 2. The second argument -/

namespace Tensor

variable {x : Tensor} {target aligned : Shape} {axis : Nat}

/-- **What backs the operand backs its broadcast**, where the elements of the target can be counted. A
    placeholder is not checked. -/
theorem Backed.view_broadcast (h : x.Backed) (hs : Shape.broadcast target x.shape axis = .ok aligned)
    (hc : x.hasData = true → Word.Countable target.lengths) :
    x.view aligned = .ok ⟨aligned, x.buffer⟩ := by
  obtain ⟨hlengths, htype⟩ := Shape.kept_of_broadcast hs
  cases hd : x.buffer with
  | none => exact view_eq_ok.mpr ⟨by rw [hd], nofun⟩
  | some buffer =>
    have hcount : Word.Countable aligned.lengths := hlengths ▸ hc (Option.isSome_iff_exists.mpr ⟨_, hd⟩)
    rw [← hd]
    exact h.view_eq htype hcount (Shape.bufferReach_le_of_broadcast hs)

/-- Elsewhere the check of a buffer is a fault. -/
theorem Backed.view_uncountable (h : x.Backed) (hd : x.hasData = true)
    (ht : aligned.elementType = x.shape.elementType) (hc : ¬ Word.Countable aligned.lengths) :
    x.view aligned = .error .fault := by
  obtain ⟨buffer, hb⟩ := Option.isSome_iff_exists.mp hd
  have htype : buffer.storage.elementType = aligned.elementType :=
    ((checkBacks_eq_ok.mp (h buffer hb)).1).trans ht.symm
  unfold view ofBuffer checkBacks
  rw [hb, Shape.bufferReachWord_of_not_countable hc]
  dsimp only
  rw [if_neg (not_not_intro htype)]
  rfl

end Tensor

/-! ## 3. Kernels -/

namespace Kernel

section Kernels

variable [ShortFloats] {f : Arithmetic} {axis : Nat} {aligned output : Shape} {left right : Tensor}
  {identity : Nat} {ctx : Context}

/-- What two instructions come to in the place of a kernel with an axis: a broadcast for the shape that was
    inferred of it, and a kernel without an axis on what the broadcast gave. -/
def runApart (f : Arithmetic) (axis : Nat) (aligned output : Shape) (left right : Tensor)
    (identity : Nat) (ctx : Context) : Outcome Tensor × Context :=
  match Operation.run (.catalog (.broadcast axis)) aligned [left, right] identity ctx with
  | (.error f, after) => (.error f, after)
  | (.ok laid, after) => Operation.run (.kernel ⟨f, none⟩) output [left, laid] identity after

/-- A broadcast views its second argument, and needs no context for that. -/
theorem run_broadcast :
    Operation.run (.catalog (.broadcast axis)) aligned [left, right] identity ctx =
      (right.view aligned, ctx) := rfl

/-- **A kernel with an axis goes on with its view of the second argument as a kernel without one does.** -/
theorem compute_fused {view : Outcome Tensor}
    (hs : Shape.broadcast left.shape right.shape axis = .ok aligned) (hv : right.view aligned = view) :
    compute ⟨f, some axis⟩ output [left, right] identity =
      view.bind fun laid => compute ⟨f, none⟩ output [left, laid] identity := by
  have hsecond : secondArgument ⟨f, some axis⟩ left right = view := by
    show (Shape.broadcast left.shape right.shape axis >>= fun shape => right.view shape) = view
    rw [hs]
    exact hv
  show (secondArgument ⟨f, some axis⟩ left right >>= _) = _
  rw [hsecond]
  cases view <;> rfl

/-- Where the view succeeds both ways are the same. -/
theorem run_fused_of_view {laid : Tensor}
    (hs : Shape.broadcast left.shape right.shape axis = .ok aligned)
    (hv : right.view aligned = .ok laid) :
    Operation.run (.kernel ⟨f, some axis⟩) output [left, right] identity ctx =
      runApart f axis aligned output left right identity ctx := by
  have hcompute : compute ⟨f, some axis⟩ output [left, right] identity =
      compute ⟨f, none⟩ output [left, laid] identity := compute_fused hs hv
  -- the axis is no part of the name under which the kernel asks for its context
  have hname : name ⟨f, some axis⟩ = name ⟨f, none⟩ := rfl
  rw [runApart, run_broadcast, hv]
  show run ⟨f, some axis⟩ output [left, right] identity ctx =
    run ⟨f, none⟩ output [left, laid] identity ctx
  unfold run
  rw [hcompute, hname]

/-- Where the view faults neither way gives a tensor: a kernel with an axis asks for its context before it
    gets there. -/
theorem run_fused_of_fault (hs : Shape.broadcast left.shape right.shape axis = .ok aligned)
    (hv : right.view aligned = .error .fault) :
    runApart f axis aligned output left right identity ctx = (.error .fault, ctx) ∧
      Operation.run (.kernel ⟨f, some axis⟩) output [left, right] identity ctx =
        match ctx.countKernel (name ⟨f, none⟩) with
        | .error refusal => (.error refusal, ctx)
        | .ok after => (.error .fault, after) := by
  constructor
  · rw [runApart, run_broadcast, hv]
  · have hcompute : compute ⟨f, some axis⟩ output [left, right] identity = .error .fault :=
      compute_fused hs hv
    show run ⟨f, some axis⟩ output [left, right] identity ctx = _
    unfold run
    rw [hcompute]
    rfl

/-- **Arithmetic with an axis is arithmetic after a broadcast.** It infers a shape exactly when the broadcast
    does and arithmetic without an axis accepts the first operand and what the broadcast gives, and the
    shape is the same. Its kernel, on arguments that have the shapes, with data or without, comes to what
    the broadcast and the kernel without an axis come to, one after the other: the same tensor, or the same
    error, and the same context. This is so if the first argument has data, or the second has none, or the
    elements of the first shape can be counted. Otherwise an argument with data is laid onto a placeholder
    that has more elements than a word counts. Nobody can view it there, so the broadcast is a fault and
    leaves the context; the kernel with an axis asks for its context first, and is a fault only if that is
    one that counts. -/
theorem fused_broadcast_exact (f : Arithmetic) (axis : Nat) (left right : Shape) :
    (∀ output, Operation.infer (.catalog (.binary ⟨f, some axis⟩)) [left, right] = .ok output ↔
      ∃ aligned, Operation.infer (.catalog (.broadcast axis)) [left, right] = .ok aligned ∧
        Operation.infer (.catalog (.binary ⟨f, none⟩)) [left, aligned] = .ok output) ∧
    ∀ aligned, Operation.infer (.catalog (.broadcast axis)) [left, right] = .ok aligned →
      ∀ x y : Tensor, x.Made → y.Made → x.shape = left → y.shape = right →
      ∀ output identity ctx,
        let fused := Operation.run (.kernel ⟨f, some axis⟩) output [x, y] identity ctx
        let apart := runApart f axis aligned output x y identity ctx
        ((x.hasData = true ∨ y.hasData = false ∨ ∃ count, left.elementCountWord = .ok count) →
          fused = apart) ∧
        (¬ (x.hasData = true ∨ y.hasData = false ∨ ∃ count, left.elementCountWord = .ok count) →
          apart = (.error .fault, ctx) ∧
          fused = match ctx.countKernel (name ⟨f, none⟩) with
            | .error refusal => (.error refusal, ctx)
            | .ok after => (.error .fault, after)) := by
  refine ⟨fun output => Binary.infer_fused_iff, fun aligned h x y hx hy hl hr output identity ctx => ?_⟩
  subst hl hr
  obtain ⟨_, _, he, hs⟩ := Alignment.infer_eq_ok.mp h
  cases he
  have hcount : (∃ count, x.shape.elementCountWord = .ok count) ↔ Word.Countable x.shape.lengths := by
    simp only [Shape.elementCountWord_eq_ok, exists_and_left, exists_eq, and_true]
  rw [hcount]
  constructor
  · intro hcases
    refine run_fused_of_view hs (hy.backed.view_broadcast hs fun hd => ?_)
    rcases hcases with hdata | hnone | hcountable
    · exact hx.backed.countable hdata
    · rw [hd] at hnone
      cases hnone
    · exact hcountable
  · intro hnone
    obtain ⟨hlengths, htype⟩ := Shape.kept_of_broadcast hs
    have hdata : y.hasData = true := by
      by_contra hd
      exact hnone (.inr (.inl (Bool.eq_false_iff.mpr hd)))
    have huncountable : ¬ Word.Countable aligned.lengths := by
      rw [hlengths]
      exact fun hc => hnone (.inr (.inr hc))
    exact run_fused_of_fault hs (hy.backed.view_uncountable hdata htype huncountable)

end Kernels

/-- A bias over the columns of a matrix is added in one instruction or in two, with the same sum and one more
    kernel counted. Without the matrix, and without a context that counts, both give the same error. A bias
    for the rows is refused in both. -/
theorem bias_added_in_one_or_two :
    let matrix := Shape.standard .f32 [2, 3]
    let bias := Shape.standard .f32 [3]
    let laid : Shape := ⟨.f32, [⟨2, 0⟩, ⟨3, 1⟩]⟩
    let x : Tensor := ⟨matrix, some ⟨0, .ofFloats .f32 [1, 2, 3, 4, 5, 6]⟩⟩
    let y : Tensor := ⟨bias, some ⟨1, .ofFloats .f32 [7, 8, 9]⟩⟩
    let one := Operation.run (.kernel ⟨.add, some 1⟩) matrix
    let two := runApart .add 1 laid matrix
    Operation.infer (.catalog (.binary ⟨.add, some 1⟩)) [matrix, bias] = .ok matrix ∧
      (¬ ∃ output, Operation.infer (.catalog (.binary ⟨.add, some 0⟩)) [matrix, bias] = .ok output) ∧
      one [x, y] 2 (.cpu 0) = two x y 2 (.cpu 0) ∧ (two x y 2 (.cpu 0)).2 = .cpu 1 ∧
      one [.placeholder matrix, y] 2 (.cpu 0) = two (.placeholder matrix) y 2 (.cpu 0) ∧
      (two (.placeholder matrix) y 2 (.cpu 0)).1 = Outcome.fail (.noData matrix) ∧
      one [x, y] 2 .null = two x y 2 .null := by
  intro matrix bias laid x y one two
  obtain ⟨haccepts, hruns⟩ := fused_broadcast_exact .add 1 matrix bias
  have hlaid : Operation.infer (.catalog (.broadcast 1)) [matrix, bias] = .ok laid := rfl
  have hmatrix : Tensor.ofBuffer matrix ⟨0, .ofFloats .f32 [1, 2, 3, 4, 5, 6]⟩ = .ok x := rfl
  have hbias : Tensor.ofBuffer bias ⟨1, .ofFloats .f32 [7, 8, 9]⟩ = .ok y := rfl
  have hcount : ∃ count, matrix.elementCountWord = .ok count := ⟨6, rfl⟩
  have hdata : ∀ ctx, one [x, y] 2 ctx = two x y 2 ctx := fun ctx =>
    (hruns laid hlaid x y (.ofBuffer hmatrix) (.ofBuffer hbias) rfl rfl matrix 2 ctx).1 (.inl rfl)
  refine ⟨(haccepts matrix).mpr ⟨laid, hlaid, rfl⟩, ?_, hdata _, rfl, ?_, rfl, hdata _⟩
  · intro ⟨output, h⟩
    obtain ⟨_, hrefused, _⟩ := ((fused_broadcast_exact .add 0 matrix bias).1 output).mp h
    cases hrefused
  · exact (hruns laid hlaid (.placeholder matrix) y (.placeholder matrix) (.ofBuffer hbias) rfl rfl matrix 2
      _).1 (.inr (.inr hcount))

/-- **A bias on a matrix that nobody can count** is accepted in one instruction and in two. The matrix is a
    placeholder, and viewing the bias is a fault in both; but one instruction has counted its kernel before
    that, and without a context that counts it is an error instead. -/
theorem bias_on_uncountable_matrix :
    let matrix := Shape.standard .f32 [2 ^ 63, 4]
    let bias := Shape.standard .f32 [4]
    let laid : Shape := ⟨.f32, [⟨2 ^ 63, 0⟩, ⟨4, 1⟩]⟩
    let x : Tensor := .placeholder matrix
    let y : Tensor := ⟨bias, some ⟨1, .ofFloats .f32 [7, 8, 9, 10]⟩⟩
    let one := Operation.run (.kernel ⟨.add, some 1⟩) matrix [x, y] 2
    let two := runApart .add 1 laid matrix x y 2
    Operation.infer (.catalog (.binary ⟨.add, some 1⟩)) [matrix, bias] = .ok matrix ∧
      Operation.infer (.catalog (.broadcast 1)) [matrix, bias] = .ok laid ∧ x.Made ∧ y.Made ∧
      one (.cpu 0) = (.error .fault, .cpu 1) ∧ two (.cpu 0) = (.error .fault, .cpu 0) ∧
      one .null = (Outcome.failIn "cpu::add"
        (.contextType ContextKind.cpu.typeName ContextKind.null.typeName), .null) ∧
      two .null = (.error .fault, .null) := by
  intro matrix bias laid x y one two
  have hbias : Tensor.ofBuffer bias ⟨1, .ofFloats .f32 [7, 8, 9, 10]⟩ = .ok y := rfl
  exact ⟨rfl, rfl, .placeholder matrix, .ofBuffer hbias, rfl, rfl, rfl, rfl⟩

end Kernel

end TensorGraph
