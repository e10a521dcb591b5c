import TensorGraph.Proofs.Outcome
import TensorGraph.Proofs.Shape.Layout
import TensorGraph.Proofs.Shape.Position
import TensorGraph.Proofs.Word

/-!
# How far the layouts reach

A buffer backs a shape when it is as long as the shape reaches, so a view of a buffer is safe when it
reaches no further than the shape through which the buffer was made. For each layout:

* `Shape.bufferReach_standard` -- a row-major shape reaches exactly as far as it has elements;
* `Transpose.bufferReach_permuted` -- a transposed view reaches as far as the operand;
* a broadcast reaches no further than the operand, which is in `TensorGraph.Proofs.Tensor.Broadcast`.

Below the reach lie the offsets of all positions (`Shape.offset_lt_bufferReach`). The number of elements and
the reach are computed as words; `Shape.elementCountWord_eq_ok` and `Shape.bufferReachWord_eq_ok` say when
that succeeds.
-/

namespace TensorGraph

namespace Shape

/-! ## 1. Positions -/

theorem bufferReach_of_ne_zero {s : Shape} (h : s.lengths.prod ≠ 0) :
    s.bufferReach = lastOffset s.axes + 1 := if_neg h

theorem bufferReach_of_eq_zero {s : Shape} (h : s.lengths.prod = 0) : s.bufferReach = 0 := if_pos h

/-- **Every position lies below the reach.** -/
theorem offset_lt_bufferReach {s : Shape} {index : List Nat} (h : index ∈ positions s.lengths) :
    offset s.axes index < s.bufferReach := by
  have hpos : s.lengths.prod ≠ 0 := Nat.ne_of_gt (prod_pos_of_mem_positions h)
  rw [bufferReach_of_ne_zero hpos]
  exact Nat.lt_succ_of_le (offset_le_lastOffset h)

/-! ## 2. Row-major shapes -/

theorem lastOffset_standard {lengths : List Nat} (hp : 0 < lengths.prod)
    (hb : lengths.prod < Word.bound) :
    lastOffset (axesOf lengths (standardStrides lengths)) + 1 = lengths.prod := by
  induction lengths with
  | nil => rfl
  | cons length rest ih =>
    rw [List.prod_cons] at hp hb ⊢
    have hlength : 0 < length := Nat.pos_of_mul_pos_right hp
    have hrest : 0 < rest.prod := Nat.pos_of_mul_pos_left hp
    have hword : rest.prod < Word.bound :=
      Nat.lt_of_le_of_lt (Nat.le_mul_of_pos_left _ hlength) hb
    have hinner := ih hrest hword
    show (length - 1) * blockSize rest + lastOffset (axesOf rest (standardStrides rest)) + 1 = _
    rw [blockSize_eq hword, Nat.add_assoc, hinner, ← Nat.succ_mul]
    congr 1
    omega

/-- **A row-major shape reaches as far as it has elements.** -/
theorem bufferReach_standard (t : ElementType) {lengths : List Nat}
    (hb : lengths.prod < Word.bound) : (standard t lengths).bufferReach = lengths.prod := by
  by_cases h : lengths.prod = 0
  · rw [bufferReach_of_eq_zero (by rwa [lengths_standard]), h]
  · rw [bufferReach_of_ne_zero (by rwa [lengths_standard])]
    exact lastOffset_standard (Nat.pos_of_ne_zero h) hb

/-- The same for a shape that is row-major already. -/
theorem bufferReach_of_isStandard {s : Shape} (hs : s.isStandard = true)
    (hb : s.lengths.prod < Word.bound) : s.bufferReach = s.elementCount := by
  have hreach := bufferReach_standard s.elementType hb
  rwa [← toStandard, ← (isStandard_iff s).mp hs] at hreach

/-! ## 3. Numbers that are words -/

theorem elementCountWord_eq_ok {s : Shape} {n : Nat} :
    s.elementCountWord = .ok n ↔ Word.Countable s.lengths ∧ n = s.elementCount := by
  rw [elementCountWord, Outcome.ofOption_eq_ok, Word.product?_eq_some]
  rfl

theorem elementCount?_eq_ok {s : Shape} {n : Nat} :
    s.elementCount? = .ok n ↔ Word.Countable s.lengths ∧ n = s.elementCount := by
  rw [elementCount?_eq_ok_iff, elementCountWord_eq_ok]

theorem elementCountWord_eq_fault {s : Shape} :
    s.elementCountWord = .error .fault ↔ ¬ Word.Countable s.lengths := by
  rw [elementCountWord, Outcome.ofOption_eq_fault, Word.product?_eq_none]

/-- Where the elements can be counted, the reach is asked for as a word. -/
theorem bufferReachWord_of_countable {s : Shape} (h : Word.Countable s.lengths) :
    s.bufferReachWord = Outcome.word s.bufferReach := by
  have hcount := elementCountWord_eq_ok.mpr ⟨h, rfl⟩
  unfold bufferReachWord bufferReach
  rw [hcount]
  by_cases h0 : s.elementCount = 0
  · rw [if_pos h0]
    exact if_pos h0
  · rw [if_neg h0]
    exact if_neg h0

/-- Elsewhere nobody gets as far as the reach. -/
theorem bufferReachWord_of_not_countable {s : Shape} (h : ¬ Word.Countable s.lengths) :
    s.bufferReachWord = .error .fault := by
  unfold bufferReachWord
  rw [elementCountWord_eq_fault.mpr h]
  rfl

theorem bufferReachWord_eq_ok {s : Shape} {n : Nat} :
    s.bufferReachWord = .ok n ↔
      Word.Countable s.lengths ∧ s.bufferReach < Word.bound ∧ n = s.bufferReach := by
  by_cases h : Word.Countable s.lengths
  · rw [bufferReachWord_of_countable h, Outcome.word_eq_ok, and_iff_right h, eq_comm (a := n)]
  · rw [bufferReachWord_of_not_countable h]
    exact ⟨nofun, fun hc => absurd hc.1 h⟩

/-- A walk can be started where the elements can be counted. -/
theorem walk_eq_ok {s : Shape} {w : Walk} :
    s.walk = .ok w ↔ Word.Countable s.lengths ∧ w = Walk.start s := by
  unfold walk
  rw [Outcome.then_eq_ok, Outcome.discard_eq_ok, Outcome.pure_eq_ok]
  simp only [elementCountWord_eq_ok, exists_and_left, exists_eq, and_true]

/-- A position has its offset, where that is a word. -/
theorem offset?_of_mem {s : Shape} {index : List Nat} (hi : index ∈ positions s.lengths)
    (hw : offset s.axes index < Word.bound) : s.offset? index = .ok (offset s.axes index) :=
  (s.offset?_eq_ok_iff index _).mpr ⟨(inRange_iff _ index).mpr hi, rfl, hw⟩

end Shape

/-! ## 4. Transposed views -/

namespace Transpose

theorem permuted_range (axes : List Axis) : permuted axes (List.range axes.length) = axes := by
  induction axes with
  | nil => rfl
  | cons a axes ih =>
    unfold permuted at ih ⊢
    rw [List.length_cons, List.range_succ_eq_map, List.filterMap_cons, List.filterMap_map]
    exact congrArg (a :: ·) ih

/-- Transposing puts the axes into another order, and no more. -/
theorem permuted_perm {axes : List Axis} {dims : List Nat} (h : isPermutation dims = true)
    (hl : dims.length = axes.length) : (permuted axes dims).Perm axes := by
  have hperm := (perm_range h).filterMap (axes[·]?)
  rw [hl] at hperm
  have hall := permuted_range axes
  unfold permuted at hall ⊢
  rwa [hall] at hperm

/-- **A transposed view reaches as far as the operand.** -/
theorem bufferReach_permuted {t : ElementType} {operand : Shape} {dims : List Nat}
    (h : isPermutation dims = true) (hl : dims.length = operand.rank) :
    (Shape.mk t (permuted operand.axes dims)).bufferReach = operand.bufferReach := by
  have hperm := permuted_perm h hl
  have hcount : (Shape.mk t (permuted operand.axes dims)).elementCount = operand.elementCount :=
    (hperm.map Axis.length).prod_nat
  have hlast : Shape.lastOffset (permuted operand.axes dims) = Shape.lastOffset operand.axes :=
    (hperm.map fun a : Axis => (a.length - 1) * a.stride).sum_nat
  unfold Shape.bufferReach
  rw [hcount, hlast]

end Transpose

end TensorGraph
