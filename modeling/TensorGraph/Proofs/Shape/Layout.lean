import Mathlib.Data.List.Perm.Subperm
import TensorGraph.Operator.Layout
import TensorGraph.Proofs.Shape.Strides
import TensorGraph.Proofs.Shape.Walk

/-!
# Where the layouts put a position

Three operators give a view of their operand's buffer. For each of them a position of the view and
the position of the operand that it shows lie at the same offset:

* `offset_standard` -- in row-major order the offset of a position is its place, as long as the
  number of positions is a word. So two row-major shapes of as many positions put the same place at
  the same offset, and this is all that a reshape relies on;
* `offset_alignedAxes` -- a broadcast shows the operand along its run and moves nowhere else;
* `offset_permuted` -- a transposed view with dimensions `dims` shows at `index` the position whose
  coordinate `dims[k]` is `index[k]` (`Transpose.source`).

Besides, no position lies beyond the last offset (`offset_le_lastOffset`).
-/

namespace TensorGraph

/-! ## 1. Positions by their coordinates -/

/-- **A list of coordinates is a position** when it has one for each length, each below the
    length. -/
theorem mem_positions_iff {lengths index : List Nat} :
    index ∈ positions lengths ↔ index.length = lengths.length ∧
      ∀ a, a < lengths.length → index.getD a 0 < lengths.getD a 0 := by
  induction lengths generalizing index with
  | nil => simp [positions]
  | cons length rest ih =>
    rw [mem_positions_cons]
    constructor
    · intro h
      obtain ⟨i, is, rfl, hi, his⟩ := h
      obtain ⟨hl, ha⟩ := ih.mp his
      refine ⟨by simp [hl], fun a h => ?_⟩
      cases a with
      | zero => exact hi
      | succ a => exact ha a (Nat.lt_of_succ_lt_succ h)
    · intro h
      obtain ⟨hl, ha⟩ := h
      cases index with
      | nil => cases hl
      | cons i is =>
        refine ⟨i, is, rfl, ha 0 (Nat.succ_pos _), ih.mpr ⟨Nat.succ.inj hl, fun a h => ?_⟩⟩
        exact ha (a + 1) (Nat.succ_lt_succ h)

/-- A run of the coordinates of a position is a position of the run of the lengths. -/
theorem mem_positions_run {lengths index : List Nat} (h : index ∈ positions lengths)
    (axis n : Nat) : (index.drop axis).take n ∈ positions ((lengths.drop axis).take n) := by
  obtain ⟨hl, ha⟩ := mem_positions_iff.mp h
  refine mem_positions_iff.mpr ⟨by simp [hl], fun a hlt => ?_⟩
  simp only [List.length_take, List.length_drop, Nat.lt_min] at hlt
  have hbelow := ha (axis + a) (by omega)
  simpa [List.getD_eq_getElem?_getD, List.getElem?_take, hlt.1] using hbelow

/-! ## 2. Bounds -/

theorem offset_le_lastOffset {axes : List Axis} {index : List Nat}
    (h : index ∈ positions (axes.map Axis.length)) :
    offset axes index ≤ Shape.lastOffset axes := by
  induction axes generalizing index with
  | nil => simp [offset]
  | cons a axes ih =>
    rw [List.map_cons] at h
    obtain ⟨i, is, rfl, hi, his⟩ := mem_positions_cons.mp h
    have hhead : i * a.stride ≤ (a.length - 1) * a.stride :=
      Nat.mul_le_mul_right _ (Nat.le_sub_one_of_lt hi)
    have htail := ih his
    unfold Shape.lastOffset at htail ⊢
    rw [offset, List.map_cons, List.sum_cons]
    omega

/-- Where there is a position there are elements. -/
theorem prod_pos_of_mem_positions {lengths index : List Nat} (h : index ∈ positions lengths) :
    0 < lengths.prod :=
  Nat.lt_of_le_of_lt (Nat.zero_le _) (placeOf_lt h)

/-! ## 3. Row-major order -/

/-- **In row-major order a position lies at its place.** -/
theorem offset_standard (t : ElementType) {lengths index : List Nat}
    (h : index ∈ positions lengths) (hb : lengths.prod < Word.bound) :
    offset (Shape.standard t lengths).axes index = placeOf lengths index := by
  show offset (Shape.axesOf lengths (standardStrides lengths)) index = _
  induction lengths generalizing index with
  | nil => rfl
  | cons length rest ih =>
    have hp := prod_pos_of_mem_positions h
    obtain ⟨i, is, rfl, hi, his⟩ := mem_positions_cons.mp h
    rw [List.prod_cons] at hp hb
    have hrest : rest.prod < Word.bound :=
      Nat.lt_of_le_of_lt (Nat.le_mul_of_pos_left _ (Nat.pos_of_mul_pos_right hp)) hb
    show i * blockSize rest + offset (Shape.axesOf rest (standardStrides rest)) is = _
    rw [blockSize_eq hrest, ih his hrest, placeOf]

/-- The same for the lengths of a shape. -/
theorem offset_toStandard (s : Shape) {index : List Nat} (h : index ∈ positions s.lengths)
    (hb : s.lengths.prod < Word.bound) : offset s.toStandard.axes index = placeOf s.lengths index :=
  offset_standard s.elementType h hb

/-- The same for a shape that is row-major already. -/
theorem offset_of_isStandard {s : Shape} (hs : s.isStandard = true) {index : List Nat}
    (h : index ∈ positions s.lengths) (hb : s.lengths.prod < Word.bound) :
    offset s.axes index = placeOf s.lengths index := by
  rw [← offset_toStandard s h hb, ← (Shape.isStandard_iff s).mp hs]

/-! ## 4. Broadcasting -/

theorem offset_append (axes others : List Axis) (index : List Nat) :
    offset (axes ++ others) index =
      offset axes (index.take axes.length) + offset others (index.drop axes.length) := by
  induction axes generalizing index with
  | nil => simp [offset]
  | cons a axes ih =>
    cases index with
    | nil => cases others <;> simp [offset]
    | cons i is => simp [offset, ih, Nat.add_assoc]

/-- An axis that stands still adds nothing. -/
theorem offset_still (lengths index : List Nat) : offset (Shape.still lengths) index = 0 := by
  induction lengths generalizing index with
  | nil => rfl
  | cons length rest ih =>
    cases index with
    | nil => rfl
    | cons i is =>
      show i * 0 + offset (Shape.still rest) is = 0
      rw [ih]
      rfl

theorem lengths_still (lengths : List Nat) :
    (Shape.still lengths).map Axis.length = lengths := by
  unfold Shape.still
  rw [List.map_map]
  exact List.map_id _

theorem offset_zeros (axes : List Axis) : offset axes (axes.map fun _ => 0) = 0 := by
  induction axes with
  | nil => rfl
  | cons a axes ih =>
    show 0 * a.stride + offset axes (axes.map fun _ => 0) = 0
    rw [ih, Nat.zero_mul]

/-- The only position of a shape that holds a single element. -/
theorem zeros_mem_positions {lengths : List Nat} (h : lengths.all (· == 1) = true) :
    (lengths.map fun _ => 0) ∈ positions lengths := by
  have hprod : 0 < lengths.prod := by
    induction lengths with
    | nil => decide
    | cons length rest ih =>
      rw [List.all_cons, Bool.and_eq_true, beq_iff_eq] at h
      rw [List.prod_cons, h.1, Nat.one_mul]
      exact ih h.2
  rw [← nthPosition_zero]
  exact List.mem_of_getElem? (getElem?_positions hprod)

/-- The coordinates along the run of a broadcast. -/
theorem offset_alignedAxes {lengths : List Nat} {operand : List Axis} {axis : Nat}
    (h : axis ≤ lengths.length) (index : List Nat) :
    offset (Shape.alignedAxes lengths operand axis) index =
      offset operand ((index.drop axis).take operand.length) := by
  have hl : (Shape.still (lengths.take axis)).length = axis := by
    rw [← List.length_map (f := Axis.length), lengths_still, List.length_take, Nat.min_eq_left h]
  unfold Shape.alignedAxes
  rw [List.append_assoc, offset_append, offset_append, offset_still, offset_still, hl,
    Nat.zero_add, Nat.add_zero]

theorem lengths_alignedAxes {lengths : List Nat} {operand : List Axis} {axis : Nat}
    (h : operand.map Axis.length = (lengths.drop axis).take operand.length) :
    (Shape.alignedAxes lengths operand axis).map Axis.length = lengths := by
  unfold Shape.alignedAxes
  rw [List.map_append, List.map_append, lengths_still, lengths_still, h, List.append_assoc,
    ← List.drop_drop, List.take_append_drop, List.take_append_drop]

/-! ## 5. Transposing -/

namespace Transpose

/-- The position that a transposed view shows: its coordinate `dims[k]` is the `k`th one. -/
def source (dims index : List Nat) : List Nat :=
  (List.range dims.length).map fun a => index.getD (dims.idxOf a) 0

theorem isPermutation_iff (dims : List Nat) :
    isPermutation dims = true ↔ (∀ d ∈ dims, d < dims.length) ∧ dims.Nodup := by
  simp [isPermutation]

/-- The dimensions of a permutation are numbers of axes. -/
theorem lt_of_isPermutation {axes : List Axis} {dims : List Nat} (h : isPermutation dims = true)
    (hl : dims.length = axes.length) : ∀ d ∈ dims, d < axes.length := by
  rw [← hl]
  exact ((isPermutation_iff dims).mp h).1

/-- The length of an axis by number. -/
theorem getD_lengths (axes : List Axis) (a : Nat) :
    (axes.map Axis.length).getD a 0 = (axes.getD a ⟨0, 0⟩).length := by
  rw [List.getD_eq_getElem?_getD, List.getElem?_map, List.getD_eq_getElem?_getD]
  cases axes[a]? <;> rfl

/-- A permutation has every number below its length. -/
theorem perm_range {dims : List Nat} (h : isPermutation dims = true) :
    dims.Perm (List.range dims.length) := by
  obtain ⟨hlt, hn⟩ := (isPermutation_iff dims).mp h
  have hsub := List.subperm_of_subset hn fun d hd => List.mem_range.mpr (hlt d hd)
  exact hsub.perm_of_length_le (Nat.le_of_eq List.length_range)

theorem getD_source {dims index : List Nat} {a : Nat} (ha : a < dims.length) :
    (source dims index).getD a 0 = index.getD (dims.idxOf a) 0 := by
  rw [source, List.getD_eq_getElem?_getD, List.getElem?_map, List.getElem?_range ha]
  rfl

/-- **The coordinate `dims[k]` of the position shown is the `k`th coordinate.** -/
theorem getD_source_getElem {dims : List Nat} (h : isPermutation dims = true) (index : List Nat)
    {k : Nat} (hk : k < dims.length) :
    (source dims index).getD dims[k] 0 = index.getD k 0 := by
  obtain ⟨hlt, hn⟩ := (isPermutation_iff dims).mp h
  rw [getD_source (hlt _ (List.getElem_mem hk)), hn.idxOf_getElem]

theorem permuted_eq {axes : List Axis} {dims : List Nat} (h : ∀ d ∈ dims, d < axes.length) :
    permuted axes dims = dims.map fun d => axes.getD d ⟨0, 0⟩ := by
  unfold permuted
  induction dims with
  | nil => rfl
  | cons d rest ih =>
    have hd : d < axes.length := h d List.mem_cons_self
    rw [List.filterMap_cons, List.getElem?_eq_getElem hd, List.map_cons,
      ih fun d' hd' => h d' (List.mem_cons_of_mem d hd')]
    simp [List.getD_eq_getElem?_getD, List.getElem?_eq_getElem hd]

/-- An offset as a sum over the axes by number. -/
theorem offset_eq_sum (axes : List Axis) (index : List Nat) :
    offset axes index = ((List.range axes.length).map fun a =>
      index.getD a 0 * (axes.getD a ⟨0, 0⟩).stride).sum := by
  induction axes generalizing index with
  | nil => cases index <;> rfl
  | cons a axes ih =>
    rw [List.length_cons, List.range_succ_eq_map, List.map_cons, List.sum_cons, List.map_map]
    cases index with
    | nil =>
      have hzero := ih []
      simp only [offset, List.getD_nil, Nat.zero_mul, Function.comp_def] at hzero ⊢
      rw [Nat.zero_add]
      exact hzero
    | cons i is => rw [offset, ih is]; rfl

/-- Axis `k` of a transposed shape is axis `dims[k]`. -/
theorem getD_permuted {axes : List Axis} {dims : List Nat} (h : ∀ d ∈ dims, d < axes.length)
    {k : Nat} (hk : k < dims.length) :
    (permuted axes dims).getD k ⟨0, 0⟩ = axes.getD dims[k] ⟨0, 0⟩ := by
  rw [permuted_eq h, List.getD_eq_getElem?_getD, List.getElem?_map, List.getElem?_eq_getElem hk]
  rfl

/-- **A transposed view shows the position its dimensions say**, at the same offset. -/
theorem offset_permuted {axes : List Axis} {dims : List Nat} (h : isPermutation dims = true)
    (hl : dims.length = axes.length) (index : List Nat) :
    offset (permuted axes dims) index = offset axes (source dims index) := by
  have hlt : ∀ d ∈ dims, d < axes.length := lt_of_isPermutation h hl
  let term := fun d => (source dims index).getD d 0 * (axes.getD d ⟨0, 0⟩).stride
  have hterms : (List.range dims.length).map (fun k => index.getD k 0 *
      ((permuted axes dims).getD k ⟨0, 0⟩).stride) = dims.map term := by
    refine List.ext_getElem (by simp) fun k hk hk' => ?_
    have hkd : k < dims.length := by simpa using hk
    rw [List.getElem_map, List.getElem_map, List.getElem_range, getD_permuted hlt hkd]
    show _ = (source dims index).getD dims[k] 0 * _
    rw [getD_source_getElem h index hkd]
  have hsize : (permuted axes dims).length = dims.length := by
    rw [permuted_eq hlt, List.length_map]
  rw [offset_eq_sum, offset_eq_sum, hsize, hterms, ← hl]
  exact ((perm_range h).map term).sum_nat

/-- The position that a transposed view shows is one of the operand. -/
theorem source_mem_positions {axes : List Axis} {dims index : List Nat}
    (h : isPermutation dims = true) (hl : dims.length = axes.length)
    (hi : index ∈ positions ((permuted axes dims).map Axis.length)) :
    source dims index ∈ positions (axes.map Axis.length) := by
  have hlt : ∀ d ∈ dims, d < axes.length := lt_of_isPermutation h hl
  have hsize : ((permuted axes dims).map Axis.length).length = dims.length := by
    rw [List.length_map, permuted_eq hlt, List.length_map]
  obtain ⟨_, hbelow⟩ := mem_positions_iff.mp hi
  refine mem_positions_iff.mpr ⟨by simp [source, hl], fun a ha => ?_⟩
  rw [List.length_map, ← hl] at ha
  have hmem : a ∈ dims := (perm_range h).mem_iff.mpr (List.mem_range.mpr ha)
  have hk : dims.idxOf a < dims.length := List.idxOf_lt_length_iff.mpr hmem
  have hcoordinate := hbelow (dims.idxOf a) (hsize.symm ▸ hk)
  rw [getD_lengths, getD_permuted hlt hk, List.getElem_idxOf hk] at hcoordinate
  rw [getD_source ha, getD_lengths]
  exact hcoordinate

end Transpose

end TensorGraph
