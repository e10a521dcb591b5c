import Mathlib.Order.Bounds.Basic
import TensorGraph.Proofs.Tensor.Backed

/-!
# Which views fit a buffer

Before a buffer is read through a shape, one number is compared with its size: the reach of the shape, a sum
over the axes that looks at no position. The number is exact. It is the least size of a buffer in which every
position of the shape has its element:

* `exists_offset_eq_lastOffset` -- the position with every coordinate at its last place lies at the last
  offset;
* `Shape.isGreatest_lastOffset`, `Shape.bufferReach_le_iff` -- so that offset is the greatest one, and a size
  is no less than the reach exactly if it is above the offsets of all positions;
* `Storage.Covers` -- the storage has an element of the shape's type at every position;
* `Tensor.acceptance_exact` -- those are the storages that are accepted for the shape, by a new tensor and by
  a view alike.

Strides are arbitrary. An axis of stride 0 adds nothing to the reach, and if one axis is empty nothing is
reached, whatever the strides of the others.
-/

namespace TensorGraph

open Outcome

/-! ## 1. The last position -/

/-- **Some position lies at the last offset**, if there is any. -/
theorem exists_offset_eq_lastOffset {axes : List Axis} (h : 0 < (axes.map Axis.length).prod) :
    ∃ index ∈ positions (axes.map Axis.length), offset axes index = Shape.lastOffset axes := by
  induction axes with
  | nil => exact ⟨[], List.mem_singleton_self [], rfl⟩
  | cons a axes ih =>
    rw [List.map_cons, List.prod_cons] at h
    obtain ⟨is, his, hlast⟩ := ih (Nat.pos_of_mul_pos_left h)
    have hlength : a.length - 1 < a.length := Nat.sub_one_lt_of_lt (Nat.pos_of_mul_pos_right h)
    refine ⟨(a.length - 1) :: is, mem_positions_cons.mpr ⟨_, is, rfl, hlength, his⟩, ?_⟩
    rw [offset, hlast]
    rfl

namespace Shape

variable {s : Shape}

/-- The offsets of all positions. -/
def reached (s : Shape) : Set Nat := {o | ∃ index, InRange s.axes index ∧ offset s.axes index = o}

/-- **The last offset is the greatest one.** -/
theorem isGreatest_lastOffset (h : s.elementCount ≠ 0) : IsGreatest s.reached (lastOffset s.axes) := by
  constructor
  · obtain ⟨index, hi, hlast⟩ := exists_offset_eq_lastOffset (Nat.pos_of_ne_zero h)
    exact ⟨index, (inRange_iff _ index).mpr hi, hlast⟩
  · intro o ho
    obtain ⟨index, hi, rfl⟩ := ho
    exact offset_le_lastOffset ((inRange_iff _ index).mp hi)

/-- Where no element is there is no position. -/
theorem not_inRange_of_empty (h : s.elementCount = 0) (index : List Nat) : ¬ InRange s.axes index := by
  intro hi
  exact Nat.ne_of_gt (prod_pos_of_mem_positions ((inRange_iff _ index).mp hi)) h

/-- **The reach is the least number above the offsets of all positions.** -/
theorem bufferReach_le_iff {n : Nat} : s.bufferReach ≤ n ↔ ∀ o ∈ s.reached, o < n := by
  by_cases h0 : s.elementCount = 0
  · rw [bufferReach_of_eq_zero h0]
    refine iff_of_true (Nat.zero_le n) fun o ho => ?_
    obtain ⟨index, hi, _⟩ := ho
    exact absurd hi (not_inRange_of_empty h0 index)
  · rw [bufferReach_of_ne_zero h0, Nat.succ_le_iff]
    obtain ⟨hmem, hupper⟩ := isGreatest_lastOffset h0
    exact ⟨fun hlast o ho => Nat.lt_of_le_of_lt (hupper ho) hlast, fun hall => hall _ hmem⟩

end Shape

/-! ## 2. Acceptance -/

/-- The storage holds elements of the shape's type, one of them at the offset of each position. -/
def Storage.Covers (storage : Storage) (s : Shape) : Prop :=
  s.elementType = storage.elementType ∧
    ∀ index, InRange s.axes index → ∃ o, s.offset? index = .ok o ∧ o < storage.size

/-- A storage covers the shapes of its type that reach no further than it goes. -/
theorem Storage.covers_iff {storage : Storage} (hsize : storage.size < Word.bound) {s : Shape} :
    storage.Covers s ↔ s.elementType = storage.elementType ∧ s.bufferReach ≤ storage.size := by
  unfold Covers
  rw [Shape.bufferReach_le_iff]
  refine and_congr_right fun _ => ⟨fun h o ho => ?_, fun h index hi => ?_⟩
  · obtain ⟨index, hi, rfl⟩ := ho
    obtain ⟨o, ho, hlt⟩ := h index hi
    obtain ⟨_, rfl, _⟩ := (s.offset?_eq_ok_iff index o).mp ho
    exact hlt
  · have hlt := h _ ⟨index, hi, rfl⟩
    exact ⟨_, (s.offset?_eq_ok_iff index _).mpr ⟨hi, rfl, Nat.lt_trans hlt hsize⟩, hlt⟩

namespace Tensor

theorem checkBacks_iff_covers {s : Shape} (hc : Word.Countable s.lengths) {storage : Storage}
    (hsize : storage.size < Word.bound) : checkBacks s storage = .ok () ↔ storage.Covers s := by
  rw [checkBacks_eq_ok, Storage.covers_iff hsize, and_iff_right hc, eq_comm]
  exact and_congr_right fun _ => and_iff_right_of_imp fun h => Nat.lt_of_le_of_lt h hsize

/-- **Views are accepted exactly where they fit.** Let the elements of a shape be counted in a word, and with
    them every partial product of the lengths from the left (`Word.Countable`). This is more than that their
    number is a word: `{2^63, 2, 0}` has no element and is not among these shapes. A buffer, whose size is a
    word too, is accepted for the shape exactly if it has the shape's element type and every position of the
    shape has an offset below its size; and so is the view of any tensor over the buffer. What is compared
    with the size is 0 if the shape has no position, and otherwise one more than the greatest offset of a
    position, as a word. (Above the last word there is none: a shape that reaches it is covered by nothing,
    and to ask for its reach is a fault.) -/
theorem acceptance_exact {s : Shape} {count : Nat} (hcount : s.elementCountWord = .ok count) :
    (∀ buffer : Buffer, buffer.storage.size < Word.bound →
      ((∃ x, ofBuffer s buffer = .ok x) ↔ buffer.storage.Covers s) ∧
      ∀ x : Tensor, x.buffer = some buffer → ((∃ y, x.view s = .ok y) ↔ buffer.storage.Covers s)) ∧
    ((∀ index, ¬ InRange s.axes index) ∧ s.bufferReachWord = .ok 0 ∨
      ∃ last, IsGreatest s.reached last ∧ s.bufferReachWord = word (last + 1)) := by
  obtain ⟨hc, rfl⟩ := Shape.elementCountWord_eq_ok.mp hcount
  constructor
  · intro buffer hsize
    have hnew : (∃ x, ofBuffer s buffer = .ok x) ↔ buffer.storage.Covers s := by
      rw [← checkBacks_iff_covers hc hsize]
      unfold ofBuffer
      simp only [then_eq_ok, pure_eq_ok, exists_and_left, exists_eq, and_true]
    refine ⟨hnew, fun x hx => ?_⟩
    rw [← hnew]
    unfold view
    rw [hx]
  · rw [Shape.bufferReachWord_of_countable hc]
    by_cases h0 : s.elementCount = 0
    · rw [Shape.bufferReach_of_eq_zero h0]
      exact Or.inl ⟨Shape.not_inRange_of_empty h0, rfl⟩
    · rw [Shape.bufferReach_of_ne_zero h0]
      exact Or.inr ⟨_, Shape.isGreatest_lastOffset h0, rfl⟩

/-- Two rows, twice, four elements apart: the greatest offset is 5, and a buffer of six elements is accepted.
    Five elements apart they do not fit any more. A shape with an empty axis fits, however far apart its other
    positions would lie. -/
theorem rows_with_gap_fit :
    let buffer : Buffer := ⟨1, .ofPatterns .u8 [0, 1, 2, 3, 4, 5]⟩
    let rows : Shape := ⟨.u8, [⟨2, 0⟩, ⟨2, 4⟩, ⟨2, 1⟩]⟩
    let apart : Shape := ⟨.u8, [⟨2, 0⟩, ⟨2, 5⟩, ⟨2, 1⟩]⟩
    let hollow : Shape := ⟨.u8, [⟨3, 1000⟩, ⟨0, 1⟩]⟩
    (∃ x, ofBuffer rows buffer = .ok x) ∧ IsGreatest rows.reached 5 ∧ rows.bufferReachWord = .ok 6 ∧
      ¬ (∃ x, ofBuffer apart buffer = .ok x) ∧
      ∀ x : Tensor, x.buffer = some buffer → ∃ y, x.view hollow = .ok y := by
  intro buffer rows apart hollow
  have hsize : buffer.storage.size < Word.bound := by decide
  obtain ⟨hrows, hreach⟩ := acceptance_exact (rfl : rows.elementCountWord = .ok 8)
  obtain ⟨hapart, _⟩ := acceptance_exact (rfl : apart.elementCountWord = .ok 8)
  obtain ⟨hhollow, _⟩ := acceptance_exact (rfl : hollow.elementCountWord = .ok 0)
  refine ⟨?_, ?_, rfl, ?_, fun x hx => ?_⟩
  · exact (hrows buffer hsize).1.mpr ((Storage.covers_iff hsize).mpr (by decide))
  · rcases hreach with ⟨hnone, _⟩ | ⟨last, hlast, hword⟩
    · have hposition : InRange rows.axes [0, 0, 0] := by decide
      exact absurd hposition (hnone _)
    · have hsix : word (last + 1) = .ok 6 := hword.symm
      obtain rfl : last = 5 := Nat.succ.inj (word_eq_ok.mp hsix).2
      exact hlast
  · intro h
    have hcovers := (Storage.covers_iff hsize).mp ((hapart buffer hsize).1.mp h)
    exact absurd hcovers (by decide)
  · exact ((hhollow buffer hsize).2 x hx).mpr ((Storage.covers_iff hsize).mpr (by decide))

end Tensor

end TensorGraph
