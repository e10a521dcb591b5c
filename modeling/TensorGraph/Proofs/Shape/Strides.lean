import TensorGraph.Proofs.Word
import TensorGraph.Shape.Basic

/-!
# Row-major strides are exact products, held once

Row-major strides are worked out from the innermost axis outwards, and every product on the way is held at the
largest word. A product that was held no longer says how large it was, but nobody asks: whatever it is
multiplied with, the next product is 0 or is held again.

* `blockSize_eq_clamp` -- so a block has the exact product of its lengths, held once, at the end;
* `blockSize_eq` -- and that product itself where it is a word;
* `row_major_strides_saturate` -- the stride of an axis is the product of the lengths behind it, or the largest
  word if that is smaller.

So a stride is 0 exactly in front of an empty axis, also when the lengths behind the empty axis had a product
too large for a word. An axis of a row-major shape with elements never stands still.
-/

namespace TensorGraph

/-! ## 1. Blocks -/

/-- **A block has as many elements as its lengths say, held at the largest word.** Holding the products on the
    way makes no difference. -/
theorem blockSize_eq_clamp (lengths : List Nat) : blockSize lengths = Word.clamp lengths.prod := by
  induction lengths with
  | nil => rfl
  | cons length rest ih => rw [blockSize, ih, Word.clamp_clamp_mul, List.prod_cons, Nat.mul_comm]

/-- A block whose number of elements is a word has as many elements as its lengths say. -/
theorem blockSize_eq {lengths : List Nat} (hb : lengths.prod < Word.bound) :
    blockSize lengths = lengths.prod := by
  rw [blockSize_eq_clamp, Word.clamp_of_lt hb]

/-! ## 2. Strides -/

/-- One step along an axis skips a block of the axes behind it. -/
theorem getElem?_standardStrides (lengths : List Nat) (i : Nat) :
    (standardStrides lengths)[i]? =
      if i < lengths.length then some (Word.clamp (lengths.drop (i + 1)).prod) else none := by
  induction lengths generalizing i with
  | nil => rfl
  | cons length rest ih =>
    rw [standardStrides, blockSize_eq_clamp]
    cases i with
    | zero => rfl
    | succ i =>
      rw [List.getElem?_cons_succ, ih, List.length_cons, List.drop_succ_cons]
      simp only [Nat.succ_lt_succ_iff]

/-- Row-major strides are words. -/
theorem lt_bound_of_mem_standardStrides {lengths : List Nat} {n : Nat}
    (h : n ∈ standardStrides lengths) : n < Word.bound := by
  obtain ⟨i, hi⟩ := List.mem_iff_getElem?.mp h
  rw [getElem?_standardStrides, Option.ite_none_right_eq_some] at hi
  obtain ⟨_, he⟩ := hi
  cases he
  exact Word.clamp_lt_bound _

/-- A stride is 0 in front of an empty axis, and nowhere else. -/
theorem getElem?_standardStrides_eq_zero_iff (lengths : List Nat) (i : Nat) :
    (standardStrides lengths)[i]? = some 0 ↔ 0 ∈ lengths.drop (i + 1) := by
  rw [getElem?_standardStrides, Option.ite_none_right_eq_some, Option.some.injEq, Word.clamp_eq_zero,
    List.prod_eq_zero_iff_exists_zero_nat]
  simp only [exists_eq_right]
  refine and_iff_right_of_imp fun h => ?_
  have hbehind : 0 < (lengths.drop (i + 1)).length := List.length_pos_of_mem h
  rw [List.length_drop] at hbehind
  omega

/-- **Row-major strides saturate exactly.** There is one for each length. The stride of an axis is the product
    of all lengths behind it where that is a word, and the largest word otherwise. It is 0 exactly if one of
    these lengths is 0, no matter how large the product of the others is and where the 0 stands among them. -/
theorem row_major_strides_saturate (lengths : List Nat) :
    (standardStrides lengths).length = lengths.length ∧
    (∀ i, (standardStrides lengths)[i]? =
      if i < lengths.length then some (min (2 ^ 64 - 1) (lengths.drop (i + 1)).prod) else none) ∧
    ∀ i, (standardStrides lengths)[i]? = some 0 ↔ 0 ∈ lengths.drop (i + 1) := by
  refine ⟨Shape.length_standardStrides lengths, fun i => ?_, fun i => ?_⟩
  · exact getElem?_standardStrides lengths i
  · exact getElem?_standardStrides_eq_zero_iff lengths i

/-- The product is held at the largest word already when the empty axis is reached. -/
example : standardStrides [2, 3, 0, 2 ^ 40, 2 ^ 40] = [0, 0, Word.largest, 2 ^ 40, 1] := by decide

end TensorGraph
