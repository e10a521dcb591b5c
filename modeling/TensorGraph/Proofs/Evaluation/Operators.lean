import TensorGraph.Proofs.Evaluation.Reference
import TensorGraph.Proofs.Operands
import TensorGraph.Proofs.Operator.Reshaping
import TensorGraph.Proofs.Operator.Transposing
import TensorGraph.Proofs.Tensor.Broadcast

/-!
# Operators compute what they mean

An operator of the catalog that runs on backed tensors, for the shape it inferred from theirs, gives
a backed tensor of that shape which shows what the operator means (`Operator.run_realizes`). There
is an argument for each layout: which position of the operand a position of the view shows.

A kernel shows what its arithmetic means as well, but in a row-major tensor
(`Kernel.compute_realizes`). The inferred shape is that of the first operand with its strides, so
the two shapes are the same only where those are row-major.

* `Tensor.Realizes` -- a tensor has a shape, is backed, and shows a grid;
* `Contiguous.infer_eq_ok`, `Binary.infer_eq_ok` -- when inference succeeds, and with which shape; transposes
  are in `TensorGraph.Proofs.Operator.Transposing`, reshapes in `TensorGraph.Proofs.Operator.Reshaping`.
-/

namespace TensorGraph

open Outcome

/-- A tensor has the shape, is backed, and shows the grid. -/
structure Tensor.Realizes (x : Tensor) (shape : Shape) (g : Grid) : Prop where
  shape : x.shape = shape
  backed : x.Backed
  grid : x.grid = g

/-! ## 1. Arguments -/

theorem oneArgument_eq_ok {name : String} {args : List Tensor} {x : Tensor} :
    oneArgument name args = .ok x ↔ args = [x] := by
  unfold oneArgument
  split
  · rename_i y
    simp
  · rename_i hne
    exact ⟨nofun, fun h => absurd h (hne x)⟩

theorem UnaryFunction.run_eq_ok {f : UnaryFunction} {args : List Tensor} {y : Tensor} :
    f.run args = .ok y ↔ f = .identity ∧ args = [y] := by
  unfold run
  split
  · rename_i x
    simp
  · rename_i hne
    refine ⟨nofun, ?_⟩
    intro h
    obtain ⟨rfl, rfl⟩ := h
    exact absurd rfl (hne y rfl)

theorem Alignment.run_eq_ok {output : Shape} {args : List Tensor} {y : Tensor} :
    Alignment.run output args = .ok y ↔ ∃ target x, args = [target, x] ∧ x.view output = .ok y := by
  unfold run
  split
  · rename_i target x
    constructor
    · intro h
      exact ⟨target, x, rfl, h⟩
    · intro h
      obtain ⟨_, _, h, hv⟩ := h
      cases h
      exact hv
  · rename_i hne
    refine ⟨nofun, ?_⟩
    intro h
    obtain ⟨target, x, rfl, _⟩ := h
    exact absurd rfl (hne target x)

/-! ## 2. Transposing -/

theorem Transpose.run_realizes {dims : List Nat} {x y : Tensor} {output : Shape}
    (hi : Transpose.infer dims [x.shape] = .ok output) (hr : x.view output = .ok y) :
    y.Realizes output (x.grid.transpose dims) := by
  obtain ⟨input, he, hl, hp, rfl⟩ := infer_eq_ok.mp hi
  cases he
  obtain ⟨rfl, hb⟩ := Tensor.view_eq_ok.mp hr
  refine ⟨rfl, hb, ?_⟩
  have hlengths : (permuted x.shape.axes dims).map Axis.length =
      dims.map fun d => x.shape.lengths.getD d 0 := by
    rw [permuted_eq (lt_of_isPermutation hp hl), List.map_map]
    exact List.map_congr_left fun d _ => (getD_lengths x.shape.axes d).symm
  have hshown : ∀ index ∈ positions ((permuted x.shape.axes dims).map Axis.length),
      source dims index ∈ positions x.shape.lengths ∧
        offset (permuted x.shape.axes dims) index = offset x.shape.axes (source dims index) := by
    intro index hi
    exact ⟨source_mem_positions hp hl hi, offset_permuted hp hl index⟩
  rw [Tensor.grid_view x ⟨x.shape.elementType, permuted x.shape.axes dims⟩ (source dims) hshown]
  unfold Grid.transpose
  rw [Tensor.lengths_grid, ← hlengths]
  rfl

/-! ## 3. Copying -/

theorem Contiguous.infer_eq_ok {shapes : List Shape} {output : Shape} :
    Contiguous.infer shapes = .ok output ↔ ∃ input, shapes = [input] ∧ 2 ≤ input.rank ∧
      output = input.toStandard := by
  unfold infer
  rw [bind_eq_ok]
  simp only [Operands.one_eq_ok]
  refine exists_congr fun input => and_congr_right ?_
  intro h
  cases h
  rw [then_eq_ok, Operands.leastRank, Operands.require_eq_ok, pure_eq_ok]
  simp

theorem Contiguous.run_realizes {x y : Tensor} {identity : Nat} {output : Shape}
    (hi : Contiguous.infer [x.shape] = .ok output) (hr : x.contiguous identity = .ok y) :
    y.Realizes output x.grid := by
  obtain ⟨input, he, _, rfl⟩ := infer_eq_ok.mp hi
  cases he
  obtain ⟨hs, hb, hg⟩ := Tensor.contiguous_eq_ok hr
  exact ⟨hs, hb, hg⟩

/-! ## 4. Reshaping -/

/-- **Reshaping a row-major tensor keeps the elements in row-major order**: the position at a place
    shows the position of the operand at that place. -/
theorem Reshape.run_realizes {dims : List Int} {x y : Tensor} {output : Shape}
    (hi : Reshape.infer dims [x.shape] = .ok output) (hs : x.shape.isStandard = true)
    (hr : x.view output = .ok y) : y.Realizes output (x.grid.reshape output.lengths) := by
  obtain ⟨htype, hs', hcount, hsame⟩ := kept_of_infer hi
  have hword : x.shape.lengths.prod < Word.bound := hsame ▸ hcount.prod_lt
  obtain ⟨rfl, hb⟩ := Tensor.view_eq_ok.mp hr
  refine ⟨rfl, hb, ?_⟩
  refine (Tensor.grid_view x output (fun index => nthPosition x.shape.lengths
    (placeOf output.lengths index)) fun index hm => ?_).trans (by rw [htype]; rfl)
  have hplace : placeOf output.lengths index < x.shape.lengths.prod := hsame ▸ placeOf_lt hm
  have hmem : nthPosition x.shape.lengths (placeOf output.lengths index) ∈ positions x.shape.lengths :=
    List.mem_of_getElem? (getElem?_positions hplace)
  refine ⟨hmem, ?_⟩
  rw [offset_of_isStandard hs' hm hcount.prod_lt, offset_of_isStandard hs hmem hword,
    placeOf_nthPosition hplace]

/-! ## 5. Broadcasting -/

theorem Alignment.infer_eq_ok {axis : Nat} {shapes : List Shape} {output : Shape} :
    Alignment.infer axis shapes = .ok output ↔ ∃ target operand, shapes = [target, operand] ∧
      Shape.broadcast target operand axis = .ok output := by
  unfold infer
  rw [bind_eq_ok]
  simp only [Operands.two_eq_ok, Prod.exists, withOperator_eq_ok]

/-- **A broadcast shows the operand along its run**, or its only element everywhere. -/
theorem Shape.broadcast_realizes {target shape : Shape} {axis : Nat} {x y : Tensor}
    (hs : Shape.broadcast target x.shape axis = .ok shape) (hr : x.view shape = .ok y) :
    y.Realizes shape (x.grid.broadcast target.lengths axis) ∧ shape.lengths = target.lengths := by
  obtain ⟨rfl, hb⟩ := Tensor.view_eq_ok.mp hr
  obtain ⟨hlengths, htype⟩ := Shape.kept_of_broadcast hs
  refine ⟨⟨rfl, hb, ?_⟩, hlengths⟩
  cases hsingle : x.shape.isSingle with
  | true =>
    have hall : x.grid.lengths.all (· == 1) = true := hsingle
    rw [Tensor.grid_view x _ fun _ => x.shape.lengths.map fun _ => 0]
    · unfold Grid.broadcast
      rw [hlengths, htype, hall]
      rfl
    · intro index _
      refine ⟨zeros_mem_positions hsingle, (Shape.offset_of_single hs hsingle index).trans ?_⟩
      rw [Shape.lengths, List.map_map]
      exact (offset_zeros x.shape.axes).symm
  | false =>
    have hall : x.grid.lengths.all (· == 1) = false := hsingle
    rw [Tensor.grid_view x _ fun index => (index.drop axis).take x.shape.rank]
    · unfold Grid.broadcast
      rw [hlengths, htype, hall, Tensor.lengths_grid, Shape.length_lengths]
      rfl
    · intro index hi
      rw [hlengths] at hi
      exact Shape.run_of_broadcast hs hsingle hi

/-! ## 6. Arithmetic -/

theorem Binary.infer_eq_ok {b : Binary} {shapes : List Shape} {output : Shape} :
    b.infer shapes = .ok output ↔ ∃ left right, shapes = [left, right] ∧
      left.elementType = right.elementType ∧ output = left ∧
      (b.axis = none → left.lengths = right.lengths) ∧
      ∀ axis, b.axis = some axis → ∃ shape, Shape.broadcast left right axis = .ok shape := by
  unfold infer
  rw [bind_eq_ok]
  simp only [Operands.two_eq_ok, Prod.exists]
  refine exists_congr fun left => exists_congr fun right => and_congr_right ?_
  intro h
  cases h
  rw [then_eq_ok, Operands.sameType, Operands.require_eq_ok, Operands.agree_pair]
  refine and_congr_right fun _ => ?_
  cases b.axis with
  | none =>
    rw [then_eq_ok, Operands.sameLengths, Operands.require_eq_ok, Operands.agree_pair, pure_eq_ok,
      and_comm]
    simp
  | some axis =>
    rw [then_eq_ok, discard_eq_ok, pure_eq_ok, and_comm]
    simp only [withOperator_eq_ok, reduceCtorEq, false_implies, Option.some.injEq, true_and,
      forall_eq']

namespace Kernel

/-- The second argument has the lengths of the first, and shows what the arithmetic takes it for. -/
theorem secondArgument_realizes [ShortFloats] {b : Binary} {left right aligned : Tensor} (hr : right.Backed)
    {output : Shape} (hi : b.infer [left.shape, right.shape] = .ok output)
    (ha : secondArgument b left right = .ok aligned) :
    aligned.Backed ∧ aligned.shape.lengths = left.shape.lengths ∧
      b.meaning left.grid right.grid =
        .pointwise left.shape.elementType b.arithmetic.apply left.grid aligned.grid := by
  obtain ⟨l, r, he, _, _, hnone, hsome⟩ := Binary.infer_eq_ok.mp hi
  cases he
  unfold secondArgument at ha
  unfold Binary.meaning
  cases hx : b.axis with
  | none =>
    rw [hx] at ha
    cases ha
    exact ⟨hr, (hnone hx).symm, rfl⟩
  | some axis =>
    rw [hx] at ha
    obtain ⟨shape, hs, hv⟩ := bind_eq_ok.mp ha
    obtain ⟨hreal, hlengths⟩ := Shape.broadcast_realizes hs hv
    refine ⟨hreal.backed, ?_, ?_⟩
    · rw [hreal.shape, hlengths]
    · rw [hreal.grid]
      rfl

/-- Doubles converted to an element type, place by place. -/
theorem pattern?_ofFloats [ShortFloats] (t : ElementType) (values : List Float) (k : Nat) :
    (Storage.ofFloats t values).pattern? k =
      values[k]?.map fun x => (Element.ofFloat t x).toNat := by
  unfold Storage.pattern? Storage.ofFloats
  rw [List.getElem?_toArray, List.getElem?_map, Option.map_map]
  rfl

/-- A kernel gives a row-major tensor, whatever its arguments. -/
theorem shape_of_compute [ShortFloats] {b : Binary} {output : Shape} {args : List Tensor}
    {identity : Nat} {y : Tensor} (h : compute b output args identity = .ok y) :
    y.shape = output.toStandard := by
  unfold compute at h
  split at h
  · obtain ⟨_, _, h⟩ := bind_eq_ok.mp h
    obtain ⟨_, _, h⟩ := bind_eq_ok.mp h
    obtain ⟨_, _, h⟩ := bind_eq_ok.mp h
    obtain ⟨rfl, _⟩ := Tensor.ofBuffer_eq_ok.mp h
    rfl
  · cases h

/-- **A kernel shows what its arithmetic means**, in a row-major tensor. -/
theorem compute_realizes [ShortFloats] {b : Binary} {left right y : Tensor} (hl : left.Backed)
    (hr : right.Backed) {output : Shape} {identity : Nat} (hi : b.infer [left.shape, right.shape] = .ok output)
    (hc : compute b output [left, right] identity = .ok y) :
    y.Realizes output.toStandard (b.meaning left.grid right.grid) := by
  obtain ⟨l, _, he, _, rfl, _, _⟩ := Binary.infer_eq_ok.mp hi
  cases he
  obtain ⟨aligned, ha, hc⟩ := bind_eq_ok.mp hc
  obtain ⟨xs, hxs, hc⟩ := bind_eq_ok.mp hc
  obtain ⟨ys, hys, hc⟩ := bind_eq_ok.mp hc
  obtain ⟨rfl, hb⟩ := Tensor.ofBuffer_eq_ok.mp hc
  obtain ⟨hab, hal, hmeaning⟩ := secondArgument_realizes hr hi ha
  refine ⟨rfl, hb, ?_⟩
  have hlengths : left.shape.toStandard.lengths = left.shape.lengths := Shape.lengths_standard _ _
  have hword : left.shape.lengths.prod < Word.bound := by
    rw [← hlengths]
    exact hb.prod_lt rfl
  rw [hmeaning]
  show Grid.tabulate left.shape.elementType left.shape.toStandard.lengths _ =
    Grid.tabulate left.shape.elementType left.shape.lengths _
  rw [hlengths]
  refine Grid.tabulate_congr fun index hm => ?_
  have hx := (Tensor.floats_eq_ok hl hxs).2 index hm
  have hy := (Tensor.floats_eq_ok hab hys).2 index (hal ▸ hm)
  rw [hal] at hy
  show (Storage.ofFloats _ _).pattern? (offset left.shape.toStandard.axes index) = _
  rw [offset_toStandard _ hm hword, pattern?_ofFloats, List.getElem?_zipWith, hx, hy]
  cases left.grid.float? index with
  | none => rfl
  | some x => cases aligned.grid.float? index <;> rfl

end Kernel

/-! ## 7. The catalog -/

/-- **An operator of the catalog that runs gives what it means**, in a tensor of the inferred
    shape. -/
theorem Operator.run_realizes [ShortFloats] {o : Operator} {args : List Tensor} {y : Tensor}
    {output : Shape} {identity : Nat} (hb : ∀ x ∈ args, x.Backed)
    (hi : o.infer (args.map Tensor.shape) = .ok output) (hr : o.run output args identity = .ok y) :
    y.Realizes output (o.meaning output (args.map Tensor.grid)) := by
  cases o with
  | convolution c => cases hr
  | pooling p => cases hr
  | gemm => cases hr
  | activation mode => cases hr
  | binary b => cases hr
  | unary f =>
    obtain ⟨rfl, rfl⟩ := UnaryFunction.run_eq_ok.mp hr
    have hone : (Operands.mk (some UnaryFunction.identity.name) [y.shape]).one = .ok output := hi
    cases (Operands.one_eq_ok _ _).mp hone
    exact ⟨rfl, hb y List.mem_cons_self, rfl⟩
  | transpose dims =>
    obtain ⟨x, hx, hv⟩ := bind_eq_ok.mp hr
    cases oneArgument_eq_ok.mp hx
    exact Transpose.run_realizes hi hv
  | contiguous =>
    obtain ⟨x, hx, hv⟩ := bind_eq_ok.mp hr
    cases oneArgument_eq_ok.mp hx
    exact Contiguous.run_realizes hi (withOperator_eq_ok.mp hv)
  | reshape dims =>
    obtain ⟨x, hx, hv⟩ := bind_eq_ok.mp hr
    cases oneArgument_eq_ok.mp hx
    simp only [failIn_bind, checkIn_eq_ok, Bool.not_eq_true', Bool.not_eq_false] at hv
    exact Reshape.run_realizes hi hv.1 hv.2
  | broadcast axis =>
    obtain ⟨target, x, rfl, hv⟩ := Alignment.run_eq_ok.mp hr
    obtain ⟨_, _, he, hs⟩ := Alignment.infer_eq_ok.mp hi
    cases he
    exact (Shape.broadcast_realizes hs hv).1
  | outline shape =>
    cases hr
    have hempty : args.map Tensor.shape = [] := by
      obtain ⟨_, h, _⟩ := bind_eq_ok.mp hi
      rw [Operands.none, Operands.count, Operands.require_eq_ok] at h
      simpa using h
    rw [List.map_eq_nil_iff.mp hempty]
    exact ⟨rfl, Tensor.backed_placeholder output, rfl⟩

end TensorGraph
