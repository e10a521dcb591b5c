import TensorGraph.Proofs.Tensor.Backed

/-!
# Broadcast shapes

A broadcast lays the axes of an operand onto a run of the target's axes, or the only element of an operand
onto all of them.

* `Shape.exists_broadcast_iff` -- when it succeeds, in terms of lengths;
* `Shape.kept_of_broadcast` -- it has the target's lengths and the operand's element type;
* `Shape.run_of_broadcast`, `Shape.offset_of_single` -- a position of it lies where the coordinates along the
  run lie in the operand, or at the operand's only element;
* `Shape.bufferReach_of_broadcast` -- it reaches as far as the operand, and where the target has no elements
  it reaches nothing;
* `Shape.broadcast_exact` -- all of this, and that every buffer that backs the operand backs it.
-/

namespace TensorGraph

open Outcome

namespace Shape

variable {target operand shape : Shape} {axis : Nat}

/-! ## 1. When there is a broadcast -/

theorem isSingle_eq_true_iff (s : Shape) : s.isSingle = true ↔ ∀ n ∈ s.lengths, n = 1 := by
  unfold isSingle
  rw [List.all_eq_true]
  exact forall₂_congr fun n _ => beq_iff_eq

theorem isSingle_eq_false_iff (s : Shape) : s.isSingle = false ↔ ∃ n ∈ s.lengths, n ≠ 1 := by
  rw [← Bool.not_eq_true, isSingle_eq_true_iff]
  simp only [not_forall, exists_prop, ne_eq]

theorem broadcast_eq_ok :
    broadcast target operand axis = .ok shape ↔
      (operand.isSingle = true ∧ axis = 0 ∧ shape = ⟨operand.elementType, still target.lengths⟩) ∨
      (operand.isSingle = false ∧ axis + operand.rank < Word.bound ∧
        axis + operand.rank ≤ target.rank ∧
        operand.lengths = (target.lengths.drop axis).take operand.rank ∧
        shape = ⟨operand.elementType, alignedAxes target.lengths operand.axes axis⟩) := by
  unfold broadcast
  cases operand.isSingle with
  | true =>
    rw [if_pos rfl, check_eq_ok, Decidable.not_not, Except.ok.injEq]
    simp [eq_comm]
  | false =>
    rw [if_neg Bool.false_ne_true, bind_eq_ok]
    simp only [word_eq_ok, check_eq_ok, Nat.not_lt, Decidable.not_not, ne_eq, Except.ok.injEq]
    constructor
    · intro h
      obtain ⟨_, ⟨hw, rfl⟩, hr, hl, rfl⟩ := h
      exact Or.inr ⟨trivial, hw, hr, hl, rfl⟩
    · intro h
      rcases h with ⟨h, _⟩ | ⟨_, hw, hr, hl, rfl⟩
      · cases h
      · exact ⟨_, ⟨hw, rfl⟩, hr, hl, rfl⟩

/-- **When an operand can be laid onto a target**: it has a single element and is placed at axis 0, or its
    lengths are those of the run of the target that begins at the axis. -/
theorem exists_broadcast_iff (hr : target.rank < Word.bound) (operand : Shape) (axis : Nat) :
    (∃ shape, broadcast target operand axis = .ok shape) ↔
      (∀ n ∈ operand.lengths, n = 1) ∧ axis = 0 ∨
      (∃ n ∈ operand.lengths, n ≠ 1) ∧ axis + operand.rank ≤ target.rank ∧
        operand.lengths = (target.lengths.drop axis).take operand.rank := by
  simp only [broadcast_eq_ok, exists_or, ← isSingle_eq_true_iff, ← isSingle_eq_false_iff]
  refine or_congr ?_ ?_
  · exact ⟨fun ⟨_, h, ha, _⟩ => ⟨h, ha⟩, fun ⟨h, ha⟩ => ⟨_, h, ha, rfl⟩⟩
  · constructor
    · intro h
      obtain ⟨_, hs, _, hend, hrun, _⟩ := h
      exact ⟨hs, hend, hrun⟩
    · intro h
      obtain ⟨hs, hend, hrun⟩ := h
      -- the end of the run is no more than the rank of the target, so it is a word
      exact ⟨_, hs, Nat.lt_of_le_of_lt hend hr, hend, hrun, rfl⟩

/-! ## 2. What a broadcast shows -/

/-- **A broadcast has the lengths of the target and the element type of the operand.** -/
theorem kept_of_broadcast (h : broadcast target operand axis = .ok shape) :
    shape.lengths = target.lengths ∧ shape.elementType = operand.elementType := by
  rcases broadcast_eq_ok.mp h with ⟨_, _, rfl⟩ | ⟨_, _, _, hrun, rfl⟩
  · exact ⟨lengths_still target.lengths, rfl⟩
  · exact ⟨lengths_alignedAxes hrun, rfl⟩

/-- **A position of a broadcast lies where its coordinates along the run lie in the operand.** -/
theorem run_of_broadcast (h : broadcast target operand axis = .ok shape)
    (hs : operand.isSingle = false) {index : List Nat} (hi : index ∈ positions target.lengths) :
    (index.drop axis).take operand.rank ∈ positions operand.lengths ∧
      offset shape.axes index = offset operand.axes ((index.drop axis).take operand.rank) := by
  rcases broadcast_eq_ok.mp h with ⟨hsingle, _⟩ | ⟨_, _, hend, hrun, rfl⟩
  · cases hsingle.symm.trans hs
  · have hmem := mem_positions_run hi axis operand.rank
    rw [← hrun] at hmem
    refine ⟨hmem, offset_alignedAxes ?_ index⟩
    rw [length_lengths]
    omega

/-- **Every position of a broadcast of a single element lies at offset 0.** -/
theorem offset_of_single (h : broadcast target operand axis = .ok shape)
    (hs : operand.isSingle = true) (index : List Nat) : offset shape.axes index = 0 := by
  rcases broadcast_eq_ok.mp h with ⟨_, _, rfl⟩ | ⟨hmany, _⟩
  · exact offset_still target.lengths index
  · cases hs.symm.trans hmany

/-! ## 3. How far a broadcast reaches -/

theorem lastOffset_append (axes others : List Axis) :
    lastOffset (axes ++ others) = lastOffset axes + lastOffset others := by
  unfold lastOffset
  rw [List.map_append, List.sum_append]

theorem lastOffset_still (lengths : List Nat) : lastOffset (still lengths) = 0 := by
  induction lengths with
  | nil => rfl
  | cons length rest ih =>
    show (length - 1) * 0 + lastOffset (still rest) = 0
    rw [ih, Nat.mul_zero]

theorem lastOffset_alignedAxes (lengths : List Nat) (operand : List Axis) (axis : Nat) :
    lastOffset (alignedAxes lengths operand axis) = lastOffset operand := by
  unfold alignedAxes
  rw [lastOffset_append, lastOffset_append, lastOffset_still, lastOffset_still, Nat.zero_add,
    Nat.add_zero]

/-- A shape that holds a single element reaches that element alone. -/
theorem bufferReach_of_isSingle {s : Shape} (h : s.isSingle = true) : s.bufferReach = 1 := by
  have hcount : s.lengths.prod ≠ 0 := Nat.ne_of_gt (prod_pos_of_mem_positions (zeros_mem_positions h))
  have hlast : lastOffset s.axes = 0 := by
    refine List.sum_eq_zero_iff_forall_eq_nat.mpr fun n hn => ?_
    obtain ⟨a, ha, rfl⟩ := List.mem_map.mp hn
    have hlength : a.length = 1 := (isSingle_eq_true_iff s).mp h _ (List.mem_map_of_mem ha)
    rw [hlength, Nat.sub_self, Nat.zero_mul]
  rw [bufferReach_of_ne_zero hcount, hlast]

/-- **A broadcast reaches as far as the operand**, unless the target has no elements. Where it has a
    position, the run of its coordinates is a position of the operand. -/
theorem bufferReach_of_broadcast (h : broadcast target operand axis = .ok shape) :
    shape.bufferReach = if target.elementCount = 0 then 0 else operand.bufferReach := by
  have hlengths := (kept_of_broadcast h).1
  by_cases h0 : target.elementCount = 0
  -- an empty axis outside the run: the operand may have elements, but none is reached
  · rw [if_pos h0, bufferReach_of_eq_zero (by rwa [hlengths])]
  · have hreach : shape.bufferReach = lastOffset shape.axes + 1 :=
      bufferReach_of_ne_zero (by rwa [hlengths])
    rw [if_neg h0, hreach]
    rcases broadcast_eq_ok.mp h with ⟨hsingle, _, rfl⟩ | ⟨hmany, _, _, _, rfl⟩
    · rw [lastOffset_still, bufferReach_of_isSingle hsingle]
    · have hposition : nthPosition target.lengths 0 ∈ positions target.lengths :=
        List.mem_of_getElem? (getElem?_positions (Nat.pos_of_ne_zero h0))
      have hrun := (run_of_broadcast h hmany hposition).1
      rw [lastOffset_alignedAxes,
        bufferReach_of_ne_zero (Nat.ne_of_gt (prod_pos_of_mem_positions hrun))]

theorem bufferReach_le_of_broadcast (h : broadcast target operand axis = .ok shape) :
    shape.bufferReach ≤ operand.bufferReach := by
  rw [bufferReach_of_broadcast h]
  split
  · exact Nat.zero_le _
  · exact Nat.le_refl _

/-! ## 4. All about broadcasts -/

/-- What backs the operand backs the broadcast, if the elements of the target can be counted. -/
theorem view_of_broadcast (h : broadcast target operand axis = .ok shape)
    (hc : Word.Countable target.lengths) {x y : Tensor} (hx : x.view operand = .ok y) :
    x.view shape = .ok ⟨shape, x.buffer⟩ := by
  obtain ⟨rfl, hb⟩ := Tensor.view_eq_ok.mp hx
  obtain ⟨hlengths, htype⟩ := kept_of_broadcast h
  have hview := hb.view_eq htype (hlengths ▸ hc) (bufferReach_le_of_broadcast h)
  exact hview

/-- **A broadcast means what it says.** There is one exactly when the operand has a single element and is
    placed at axis 0, or has several or none and the lengths of the target's run. It then has the lengths
    of the target and the element type of the operand; each of its positions lies where the coordinates
    along the run lie in the operand, or at offset 0 if the operand has a single element; and it reaches no
    further than the operand, and as far if the target has an element. Where the elements of the target are
    counted in a word, and with them every partial product of its lengths from the left
    (`Word.Countable`), the reach is found to be that, and whatever backs the operand backs the broadcast;
    a target `{2^63, 2, 0}` is outside of this, although it has no element. The rank of the target is a
    word, as the ranks of all shapes are that memory holds. -/
theorem broadcast_exact {target : Shape} (hr : target.rank < Word.bound) (operand : Shape)
    (axis : Nat) :
    ((∃ shape, broadcast target operand axis = .ok shape) ↔
      (∀ n ∈ operand.lengths, n = 1) ∧ axis = 0 ∨
      (∃ n ∈ operand.lengths, n ≠ 1) ∧ axis + operand.rank ≤ target.rank ∧
        operand.lengths = (target.lengths.drop axis).take operand.rank) ∧
    ∀ shape, broadcast target operand axis = .ok shape →
      shape.lengths = target.lengths ∧ shape.elementType = operand.elementType ∧
      (∀ index, InRange shape.axes index →
        ((∀ n ∈ operand.lengths, n = 1) → shape.offset? index = .ok 0) ∧
        ((∃ n ∈ operand.lengths, n ≠ 1) →
          InRange operand.axes ((index.drop axis).take operand.rank) ∧
          shape.offset? index = operand.offset? ((index.drop axis).take operand.rank))) ∧
      shape.bufferReach ≤ operand.bufferReach ∧
      (target.elementCount ≠ 0 → shape.bufferReach = operand.bufferReach) ∧
      ∀ count, target.elementCountWord = .ok count →
        (∀ reach, operand.bufferReachWord = .ok reach →
          shape.bufferReachWord = .ok (if count = 0 then 0 else reach)) ∧
        ∀ x y, Tensor.view x operand = .ok y → x.view shape = .ok ⟨shape, x.buffer⟩ := by
  refine ⟨exists_broadcast_iff hr operand axis, fun shape h => ?_⟩
  obtain ⟨hlengths, htype⟩ := kept_of_broadcast h
  have hreach := bufferReach_of_broadcast h
  refine ⟨hlengths, htype, fun index hi => ⟨fun hs => ?_, fun hs => ?_⟩,
    bufferReach_le_of_broadcast h, fun h0 => by rw [hreach, if_neg h0], fun count hcount => ⟨?_, ?_⟩⟩
  · have hzero := offset_of_single h ((isSingle_eq_true_iff operand).mpr hs) index
    exact (shape.offset?_eq_ok_iff index 0).mpr ⟨hi, hzero, by decide⟩
  · have hmany := (isSingle_eq_false_iff operand).mpr hs
    have hposition : index ∈ positions target.lengths := hlengths ▸ (inRange_iff _ index).mp hi
    obtain ⟨hrun, hoffset⟩ := run_of_broadcast h hmany hposition
    have hrun := (inRange_iff operand.axes _).mpr hrun
    refine ⟨hrun, ?_⟩
    rw [offset?_of_inRange hi, offset?_of_inRange hrun, hoffset]
  · intro reach hoperand
    obtain ⟨hcountable, rfl⟩ := elementCountWord_eq_ok.mp hcount
    obtain ⟨_, hword, rfl⟩ := bufferReachWord_eq_ok.mp hoperand
    refine bufferReachWord_eq_ok.mpr ⟨hlengths ▸ hcountable, ?_, hreach.symm⟩
    exact Nat.lt_of_le_of_lt (bufferReach_le_of_broadcast h) hword
  · intro x y hx
    exact view_of_broadcast h (elementCountWord_eq_ok.mp hcount).1 hx

/-- The columns of a buffer, laid onto the middle of a four-dimensional target, with an axis of length 1
    among them. Position `{1, 2, 0, 3}` lies where `{2, 0}` lies in the operand; one axis further right
    the lengths do not fit. -/
theorem broadcast_of_column :
    let target : Shape := .standard .f32 [2, 3, 1, 4]
    let operand : Shape := ⟨.f64, [⟨3, 5⟩, ⟨1, 7⟩]⟩
    ∃ shape, broadcast target operand 1 = .ok shape ∧ shape.lengths = [2, 3, 1, 4] ∧
      shape.offset? [1, 2, 0, 3] = .ok 10 ∧ shape.bufferReach = operand.bufferReach ∧
      ¬ ∃ shape, broadcast target operand 2 = .ok shape := by
  intro target operand
  have hr : target.rank < Word.bound := by decide
  obtain ⟨haccepts, hshows⟩ := broadcast_exact hr operand 1
  obtain ⟨shape, hshape⟩ := haccepts.mpr (Or.inr (by decide))
  obtain ⟨hlengths, _, hoffset, _, hreach, _⟩ := hshows shape hshape
  have hposition : InRange shape.axes [1, 2, 0, 3] := by
    refine (inRange_iff _ _).mpr ?_
    show _ ∈ positions shape.lengths
    rw [hlengths]
    exact (inRange_iff target.axes _).mp (by decide)
  refine ⟨shape, hshape, hlengths, ?_, hreach (by decide), ?_⟩
  · exact ((hoffset _ hposition).2 (by decide)).2.trans rfl
  · exact fun h => absurd ((broadcast_exact hr operand 2).1.mp h) (by decide)

end Shape

end TensorGraph
