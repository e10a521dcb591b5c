import Mathlib.Data.List.GetD
import TensorGraph.Proofs.Operands
import TensorGraph.Proofs.Shape.Counting

/-!
# Transposing

A transpose is accepted exactly when its dimensions are the numbers of the axes, each of them once. Accepted
dimensions are a permutation, given as a list, and transposing lets permutations act on shapes:

* `Transpose.isPermutation_iff_count` -- as many numbers as axes, each axis among them, leave no room for
  another number, nor for one that stands twice;
* `Transpose.compose` -- the dimensions of two transposes in one, and `Transpose.permuted_compose` -- they
  give the axes that the two give one after the other;
* `Transpose.compose_inverse`, `Transpose.inverse_compose` -- the inverse undoes dimensions on either side,
  and no other list does (`Transpose.eq_inverse`), so that the inverse of the inverse is what it was of;
* `Transpose.permutations_act` -- all of this about inference, and that a transpose keeps the number of
  elements and the reach.

What a transpose does not always keep is that these numbers can be counted. Lengths are multiplied from the
left, so the place of an empty axis decides whether the product of the others is ever met
(`Transpose.empty_axis_moved_behind`).
-/

namespace TensorGraph

open Outcome

namespace Transpose

/-! ## 1. Permutations as lists -/

theorem isPermutation_iff_perm (dims : List Nat) :
    isPermutation dims = true ↔ dims.Perm (List.range dims.length) := by
  refine ⟨perm_range, fun h => (isPermutation_iff dims).mpr ⟨fun d hd => ?_, ?_⟩⟩
  · exact List.mem_range.mp (h.mem_iff.mp hd)
  · exact h.nodup_iff.mpr List.nodup_range

/-- **A permutation has every number below its length once**, and there is no other number in it. -/
theorem isPermutation_iff_count (dims : List Nat) :
    isPermutation dims = true ↔ ∀ d, d < dims.length → dims.count d = 1 := by
  rw [isPermutation_iff_perm]
  constructor
  · intro h d hd
    rw [h.count_eq, List.count_range, if_pos hd]
  · intro h
    -- the numbers below the length are in the list, and they are as many as the list is long
    have hsub : List.range dims.length ⊆ dims := by
      intro d hd
      have hone := h d (List.mem_range.mp hd)
      exact List.count_pos_iff.mp (by omega)
    have hall := List.subperm_of_subset List.nodup_range hsub
    exact (hall.perm_of_length_le (Nat.le_of_eq List.length_range.symm)).symm

theorem getD_mem {dims : List Nat} {k : Nat} (hk : k < dims.length) : dims.getD k 0 ∈ dims := by
  rw [List.getD_eq_getElem _ _ hk]
  exact List.getElem_mem hk

/-! ## 2. The inverse -/

theorem lastPlace?_of_not_mem {value : Nat} {dims : List Nat} (h : value ∉ dims) (place : Nat) :
    lastPlace? value place dims = none := by
  induction dims generalizing place with
  | nil => rfl
  | cons v rest ih =>
    have hv : v ≠ value := (List.ne_of_not_mem_cons h).symm
    rw [lastPlace?, ih (List.not_mem_of_not_mem_cons h), if_neg hv]
    rfl

/-- In a list without repetitions the last place of a value is the only one. -/
theorem lastPlace?_of_nodup {value : Nat} {dims : List Nat} (hn : dims.Nodup) (hm : value ∈ dims)
    (place : Nat) : lastPlace? value place dims = some (place + dims.idxOf value) := by
  induction dims generalizing place with
  | nil => cases hm
  | cons v rest ih =>
    obtain ⟨hv, hn⟩ := List.nodup_cons.mp hn
    rw [lastPlace?]
    by_cases he : v = value
    · subst he
      rw [lastPlace?_of_not_mem hv, if_pos rfl, List.idxOf_cons_self]
      rfl
    · have hrest : value ∈ rest := (List.mem_cons.mp hm).resolve_left (Ne.symm he)
      rw [ih hn hrest, List.idxOf_cons_ne _ he, Nat.succ_add_eq_add_succ]
      rfl

/-- **The inverse of a permutation has at each place the place of that number.** -/
theorem inverse_eq {dims : List Nat} (h : isPermutation dims = true) :
    inverse dims = (List.range dims.length).map dims.idxOf := by
  refine List.map_congr_left fun d hd => ?_
  have hm : d ∈ dims := (perm_range h).mem_iff.mpr hd
  rw [lastPlace?_of_nodup ((isPermutation_iff dims).mp h).2 hm, Nat.zero_add]
  rfl

theorem length_inverse (dims : List Nat) : (inverse dims).length = dims.length := by
  rw [inverse, List.length_map, List.length_range]

/-- The places of the members of a list without repetitions are all places in their order. -/
theorem map_idxOf {dims : List Nat} (hn : dims.Nodup) :
    dims.map dims.idxOf = List.range dims.length := by
  refine List.ext_getElem (by simp) fun k hk _ => ?_
  rw [List.getElem_map, List.getElem_range, hn.idxOf_getElem]

theorem isPermutation_inverse {dims : List Nat} (h : isPermutation dims = true) :
    isPermutation (inverse dims) = true := by
  have hperm := (perm_range h).symm.map dims.idxOf
  rw [map_idxOf ((isPermutation_iff dims).mp h).2, ← inverse_eq h] at hperm
  rwa [isPermutation_iff_perm, length_inverse]

/-! ## 3. Two permutations in one -/

/-- The dimensions of a transpose that does what `first` does and then `second`: at each place the number
    in `first` at the place that `second` names. -/
def compose (first second : List Nat) : List Nat := second.map fun k => first.getD k 0

section Composition

variable {first second dims : List Nat}

theorem length_compose : (compose first second).length = second.length := List.length_map _

theorem compose_range (dims : List Nat) : compose dims (List.range dims.length) = dims := by
  unfold compose
  refine List.ext_getElem (by simp) fun k _ hk => ?_
  rw [List.getElem_map, List.getElem_range, List.getD_eq_getElem _ _ hk]

/-- **Permutations of one length make a permutation.** -/
theorem isPermutation_compose (hf : isPermutation first = true) (hs : isPermutation second = true)
    (hl : second.length = first.length) : isPermutation (compose first second) = true := by
  -- the second puts the numbers of the first into another order
  have hperm : (compose first second).Perm (compose first (List.range second.length)) :=
    (perm_range hs).map _
  rw [hl, compose_range] at hperm
  rw [isPermutation_iff_perm, length_compose, hl]
  exact hperm.trans (perm_range hf)

/-- **The composed dimensions give the axes that the two give one after the other.** -/
theorem permuted_compose {axes : List Axis} (hf : ∀ d ∈ first, d < axes.length)
    (hs : ∀ k ∈ second, k < first.length) :
    permuted (permuted axes first) second = permuted axes (compose first second) := by
  have hsize : (permuted axes first).length = first.length := by
    rw [permuted_eq hf, List.length_map]
  have hcomposed : ∀ d ∈ compose first second, d < axes.length := by
    intro d hd
    obtain ⟨k, hk, rfl⟩ := List.mem_map.mp hd
    exact hf _ (getD_mem (hs k hk))
  rw [permuted_eq (hsize ▸ hs), permuted_eq hcomposed, compose, List.map_map]
  refine List.map_congr_left fun k hk => ?_
  rw [getD_permuted hf (hs k hk), Function.comp_apply, List.getD_eq_getElem _ _ (hs k hk)]

theorem compose_inverse (h : isPermutation dims = true) :
    compose dims (inverse dims) = List.range dims.length := by
  rw [inverse_eq h, compose, List.map_map]
  refine (List.map_congr_left fun d hd => ?_).trans (List.map_id _)
  have hm : d ∈ dims := (perm_range h).mem_iff.mpr hd
  have hlt : dims.idxOf d < dims.length := List.idxOf_lt_length_iff.mpr hm
  rw [Function.comp_apply, List.getD_eq_getElem _ _ hlt, List.getElem_idxOf]
  rfl

theorem inverse_compose (h : isPermutation dims = true) :
    compose (inverse dims) dims = List.range dims.length := by
  obtain ⟨hlt, hn⟩ := (isPermutation_iff dims).mp h
  rw [← map_idxOf hn]
  refine List.map_congr_left fun d hd => ?_
  have hd' : d < (inverse dims).length := length_inverse dims ▸ hlt d hd
  rw [List.getD_eq_getElem _ _ hd']
  simp only [inverse_eq h, List.getElem_map, List.getElem_range]

/-- **Only the inverse undoes a permutation.** -/
theorem eq_inverse (hf : isPermutation first = true) (hs : ∀ k ∈ second, k < first.length)
    (h : compose first second = List.range first.length) : second = inverse first := by
  have hn := ((isPermutation_iff first).mp hf).2
  have hplaces : (compose first second).map first.idxOf = second := by
    rw [compose, List.map_map]
    refine (List.map_congr_left fun k hk => ?_).trans (List.map_id _)
    rw [Function.comp_apply, List.getD_eq_getElem _ _ (hs k hk), hn.idxOf_getElem]
    rfl
  rw [inverse_eq hf, ← h, hplaces]

/-- **The inverse of the inverse is the permutation itself**, for it undoes the inverse. -/
theorem inverse_inverse (h : isPermutation dims = true) : inverse (inverse dims) = dims := by
  have hlt : ∀ d ∈ dims, d < (inverse dims).length := by
    rw [length_inverse]
    exact ((isPermutation_iff dims).mp h).1
  have hundone : compose (inverse dims) dims = List.range (inverse dims).length := by
    rw [inverse_compose h, length_inverse]
  exact (eq_inverse (isPermutation_inverse h) hlt hundone).symm

end Composition

/-! ## 4. Inference -/

theorem infer_eq_ok {dims : List Nat} {shapes : List Shape} {output : Shape} :
    infer dims shapes = .ok output ↔ ∃ input, shapes = [input] ∧
      dims.length = input.rank ∧ isPermutation dims = true ∧
        output = ⟨input.elementType, permuted input.axes dims⟩ := by
  unfold infer
  rw [bind_eq_ok]
  simp only [Operands.one_eq_ok, failIn_bind, checkIn_eq_ok, pure_eq_ok, ne_eq, Decidable.not_not,
    Bool.not_eq_true', Bool.not_eq_false]

/-- The same for the only operand. -/
theorem infer_one_eq_ok {dims : List Nat} {input output : Shape} :
    infer dims [input] = .ok output ↔ dims.length = input.rank ∧ isPermutation dims = true ∧
      output = ⟨input.elementType, permuted input.axes dims⟩ := by
  rw [infer_eq_ok]
  constructor
  · intro h
    obtain ⟨_, he, h⟩ := h
    cases he
    exact h
  · exact fun h => ⟨input, rfl, h⟩

section Action

variable {dims first second : List Nat} {input output : Shape}

theorem rank_of_infer (h : infer dims [input] = .ok output) : output.rank = input.rank := by
  obtain ⟨hl, hp, rfl⟩ := infer_one_eq_ok.mp h
  show (permuted input.axes dims).length = input.rank
  rw [permuted_eq (lt_of_isPermutation hp hl), List.length_map, hl]

theorem exists_infer_iff :
    (∃ output, infer dims [input] = .ok output) ↔
      dims.length = input.rank ∧ ∀ d, d < input.rank → dims.count d = 1 := by
  simp only [infer_one_eq_ok, exists_and_left, exists_eq, and_true]
  refine and_congr_right fun hl => ?_
  rw [← hl, isPermutation_iff_count]

theorem infer_range (input : Shape) : infer (List.range input.rank) [input] = .ok input := by
  refine infer_one_eq_ok.mpr ⟨List.length_range, ?_, ?_⟩
  · rw [isPermutation_iff_perm, List.length_range]
  · rw [Shape.rank, permuted_range]

/-- **Two transposes one after the other are the transpose of the composed dimensions.** -/
theorem infer_compose (hf : infer first [input] = .ok output)
    (hs : ∃ other, infer second [input] = .ok other) :
    ∃ last, infer second [output] = .ok last ∧ infer (compose first second) [input] = .ok last := by
  have hrank := rank_of_infer hf
  obtain ⟨hl, hp, rfl⟩ := infer_one_eq_ok.mp hf
  obtain ⟨_, hs⟩ := hs
  obtain ⟨hl', hp', _⟩ := infer_one_eq_ok.mp hs
  have hsame : second.length = first.length := hl'.trans hl.symm
  refine ⟨⟨input.elementType, permuted (permuted input.axes first) second⟩,
    infer_one_eq_ok.mpr ⟨hl'.trans hrank.symm, hp', rfl⟩, infer_one_eq_ok.mpr ⟨?_, ?_, ?_⟩⟩
  · rw [length_compose, hl']
  · exact isPermutation_compose hp hp' hsame
  · rw [permuted_compose (lt_of_isPermutation hp hl) (hsame ▸ ((isPermutation_iff second).mp hp').1)]

/-- **The inverse takes a transposed shape back**, strides and all. -/
theorem infer_inverse (h : infer dims [input] = .ok output) :
    infer (inverse dims) [output] = .ok input := by
  obtain ⟨hl, hp, _⟩ := infer_one_eq_ok.mp h
  have haccepted : infer (inverse dims) [input] = .ok ⟨input.elementType,
      permuted input.axes (inverse dims)⟩ :=
    infer_one_eq_ok.mpr ⟨(length_inverse dims).trans hl, isPermutation_inverse hp, rfl⟩
  obtain ⟨last, hlast, hcomposed⟩ := infer_compose h ⟨_, haccepted⟩
  rw [compose_inverse hp, hl, infer_range] at hcomposed
  rw [hlast, ← hcomposed]

/-- **A transposed shape has as many elements, and reaches as far.** -/
theorem extent_of_infer (h : infer dims [input] = .ok output) :
    output.elementCount = input.elementCount ∧ output.bufferReach = input.bufferReach := by
  obtain ⟨hl, hp, rfl⟩ := infer_one_eq_ok.mp h
  exact ⟨((permuted_perm hp hl).map Axis.length).prod_nat, bufferReach_permuted hp hl⟩

/-- The lengths of a transposed shape are the operand's in another order. -/
theorem lengths_perm_of_infer (h : infer dims [input] = .ok output) :
    output.lengths.Perm input.lengths := by
  obtain ⟨hl, hp, rfl⟩ := infer_one_eq_ok.mp h
  exact (permuted_perm hp hl).map Axis.length

/-- **Every order of the lengths is that of a transposed shape.** -/
theorem exists_infer_of_perm {lengths : List Nat} (h : lengths.Perm input.lengths) :
    ∃ dims output, infer dims [input] = .ok output ∧ output.lengths = lengths := by
  have hlt : ∀ d ∈ List.range input.rank, d < input.axes.length := fun _ => List.mem_range.mp
  have hself : (List.range input.rank).map (fun d => input.axes.getD d ⟨0, 0⟩) = input.axes :=
    (permuted_eq hlt).symm.trans (permuted_range input.axes)
  have hall : input.lengths =
      (List.range input.rank).map fun d => (input.axes.getD d ⟨0, 0⟩).length :=
    (congrArg (List.map Axis.length) hself).symm.trans List.map_map
  -- an order of the lengths comes from an order of the axes' numbers
  rw [hall, ← congrFun (congrFun (List.eq_map_comp_perm _) _) _] at h
  obtain ⟨dims, rfl, hdims⟩ := h
  have hl : dims.length = input.rank := by rw [hdims.length_eq, List.length_range]
  have hp : isPermutation dims = true := by rwa [isPermutation_iff_perm, hl]
  refine ⟨dims, _, infer_one_eq_ok.mpr ⟨hl, hp, rfl⟩, ?_⟩
  show (permuted input.axes dims).map Axis.length = _
  rw [permuted_eq (lt_of_isPermutation hp hl), List.map_map]
  rfl

/-- A transposed shape is counted as the operand is, unless an empty axis comes to stand in front of what
    cannot be counted, or behind it. -/
theorem countedAlike_of_infer_iff (h : infer dims [input] = .ok output) :
    output.CountedAlike input ↔
      (0 ∈ input.lengths → ((Word.beforeZero output.lengths).prod < Word.bound ↔
        (Word.beforeZero input.lengths).prod < Word.bound)) := by
  obtain ⟨hcount, hreach⟩ := extent_of_infer h
  rw [Shape.countedAlike_iff hcount hreach, ← Word.countable_iff_beforeZero,
    ← Word.countable_iff_beforeZero]
  refine ⟨fun halike _ => halike, fun halike => ?_⟩
  by_cases h0 : 0 ∈ input.lengths
  · exact halike h0
  · exact Word.countable_iff_of_perm (lengths_perm_of_infer h) h0

/-- **All transposes of a shape are counted alike** exactly if it has no empty axis or the product of its
    other lengths is a word. -/
theorem countedAlike_all_iff (input : Shape) :
    (∀ dims output, infer dims [input] = .ok output → output.CountedAlike input) ↔
      (0 ∈ input.lengths → (Word.nonzero input.lengths).prod < Word.bound) := by
  rw [← Word.countable_perm_iff]
  constructor
  · intro h lengths hperm
    obtain ⟨dims, output, houtput, rfl⟩ := exists_infer_of_perm hperm
    obtain ⟨hcount, hreach⟩ := extent_of_infer houtput
    exact (Shape.countedAlike_iff hcount hreach).mp (h dims output houtput)
  · intro h dims output houtput
    obtain ⟨hcount, hreach⟩ := extent_of_infer houtput
    exact (Shape.countedAlike_iff hcount hreach).mpr (h _ (lengths_perm_of_infer houtput))

end Action

/-- **Permutations act on shapes by transposing.** A transpose of one operand is accepted exactly when
    there are as many dimensions as axes and each number of an axis stands among them once. The numbers in
    their order change nothing, the inverse takes an accepted transpose back to the operand with its element
    type, lengths and strides, and is itself undone by the dimensions; and of two accepted transposes, one
    after the other gives what one gives that has `first[second[k]]` at each place `k`.

    The number of elements and the reach are always kept, so that where they are found for the operand and
    for the transposed shape the answers are the same. Whether they are found is the same for both, unless
    there is an empty axis: then the lengths in front of the first one have to have a word for their product
    in both orders or in neither. It is the same for all transposes of a shape exactly if that has no empty
    axis or the product of its other lengths is a word. -/
theorem permutations_act (input : Shape) :
    (∀ dims, (∃ output, infer dims [input] = .ok output) ↔
      dims.length = input.rank ∧ ∀ d, d < input.rank → dims.count d = 1) ∧
    infer (List.range input.rank) [input] = .ok input ∧
    (∀ dims output, infer dims [input] = .ok output →
      infer (inverse dims) [output] = .ok input ∧
      inverse (inverse dims) = dims ∧
      output.elementCount = input.elementCount ∧
      output.bufferReach = input.bufferReach ∧
      (∀ m n, output.elementCountWord = .ok m → input.elementCountWord = .ok n → m = n) ∧
      (∀ m n, output.bufferReachWord = .ok m → input.bufferReachWord = .ok n → m = n) ∧
      (output.CountedAlike input ↔
        (0 ∈ input.lengths → ((Word.beforeZero output.lengths).prod < Word.bound ↔
          (Word.beforeZero input.lengths).prod < Word.bound)))) ∧
    (∀ first second output, infer first [input] = .ok output →
      (∃ other, infer second [input] = .ok other) →
      ∃ last, infer second [output] = .ok last ∧
        infer (second.map fun k => first.getD k 0) [input] = .ok last) ∧
    ((∀ dims output, infer dims [input] = .ok output → output.CountedAlike input) ↔
      (0 ∈ input.lengths → (Word.nonzero input.lengths).prod < Word.bound)) := by
  refine ⟨fun dims => exists_infer_iff, infer_range input, fun dims output h => ?_,
    fun first second output hf hs => infer_compose hf hs, countedAlike_all_iff input⟩
  obtain ⟨hcount, hreach⟩ := extent_of_infer h
  have hp := (infer_one_eq_ok.mp h).2.1
  refine ⟨infer_inverse h, inverse_inverse hp, hcount, hreach, fun m n hm hn => ?_, fun m n hm hn => ?_,
    countedAlike_of_infer_iff h⟩
  · rw [(Shape.elementCountWord_eq_ok.mp hm).2, (Shape.elementCountWord_eq_ok.mp hn).2, hcount]
  · rw [(Shape.bufferReachWord_eq_ok.mp hm).2.2, (Shape.bufferReachWord_eq_ok.mp hn).2.2, hreach]

/-- A shape that repeats its columns, among three axes of which one is rotated in front: the inverse brings
    the shape back, the rotation and an exchange make one transpose, and a number that stands twice is
    refused. -/
theorem rotated_columns_restored :
    let input : Shape := ⟨.i64, [⟨2, 0⟩, ⟨3, 7⟩, ⟨5, 1⟩]⟩
    let rotated : Shape := ⟨.i64, [⟨5, 1⟩, ⟨2, 0⟩, ⟨3, 7⟩]⟩
    infer [2, 0, 1] [input] = .ok rotated ∧
      infer (inverse [2, 0, 1]) [rotated] = .ok input ∧ inverse (inverse [2, 0, 1]) = [2, 0, 1] ∧
      infer [1, 0, 2] [rotated] = infer [0, 2, 1] [input] ∧
      rotated.bufferReach = input.bufferReach ∧ rotated.CountedAlike input ∧
      ¬ ∃ output, infer [2, 0, 2] [input] = .ok output := by
  intro input rotated
  obtain ⟨haccepts, _, hkept, hcomposed, hcounted⟩ := permutations_act input
  have hrotated : infer [2, 0, 1] [input] = .ok rotated := rfl
  obtain ⟨hback, htwice, _, hreach, _⟩ := hkept _ _ hrotated
  obtain ⟨last, hsecond, hone⟩ := hcomposed _ [1, 0, 2] _ hrotated ((haccepts _).mpr (by decide))
  have hword : 0 ∈ input.lengths → (Word.nonzero input.lengths).prod < Word.bound := by decide
  refine ⟨hrotated, hback, htwice, hsecond.trans hone.symm, hreach, hcounted.mpr hword _ _ hrotated,
    fun h => ?_⟩
  exact absurd ((haccepts _).mp h) (by decide)

/-- **An empty axis that is moved behind the others** leaves a shape that nobody can count: the number of
    elements and the reach are both 0 for the operand, and for the transposed shape they are faults, or an
    error where the count is checked. Moved back in front the axis makes both of them 0 again. -/
theorem empty_axis_moved_behind :
    let input : Shape := ⟨.f32, [⟨0, 0⟩, ⟨2 ^ 63, 2⟩, ⟨2, 1⟩]⟩
    let output : Shape := ⟨.f32, [⟨2 ^ 63, 2⟩, ⟨2, 1⟩, ⟨0, 0⟩]⟩
    infer [1, 2, 0] [input] = .ok output ∧ infer (inverse [1, 2, 0]) [output] = .ok input ∧
      output.elementCount = 0 ∧ output.bufferReach = 0 ∧
      input.elementCountWord = .ok 0 ∧ output.elementCountWord = .error .fault ∧
      input.bufferReachWord = .ok 0 ∧ output.bufferReachWord = .error .fault ∧
      input.elementCount? = .ok 0 ∧
      output.elementCount? = Outcome.fail (.countOverflows [2 ^ 63, 2, 0]) :=
  ⟨rfl, rfl, rfl, rfl, rfl, rfl, rfl, rfl, rfl, rfl⟩

end Transpose

end TensorGraph
