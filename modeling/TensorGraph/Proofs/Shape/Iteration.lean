import TensorGraph.Proofs.Shape.Reach

/-!
# The walk is the row-major order

A walk keeps one position and a number of places that are left, and carries from axis to axis. What it
yields is what one would find by listing the positions in lexicographic order and asking for the offset of
each:

* `positions_pairwise_lt` -- the enumeration of the positions is lexicographic, so it is the only list of
  all positions in that order;
* `Walk.after` -- the walk after a number of steps;
* `Shape.walk_row_major` -- the step after `n` others yields the offset of the `n`th position; behind the
  last position there is nothing, however often one asks; and at each moment the walk knows how many
  positions are left.

Lengths may be 0 and there may be no axes; strides are arbitrary.
-/

namespace TensorGraph

/-! ## 1. Lexicographic order -/

/-- **The positions are enumerated in lexicographic order**, each of them once. -/
theorem positions_pairwise_lt (lengths : List Nat) : (positions lengths).Pairwise (· < ·) := by
  induction lengths with
  | nil => exact List.pairwise_singleton _ _
  | cons length rest ih =>
    rw [positions, List.pairwise_flatMap]
    constructor
    -- positions of one outer coordinate are in the order of what follows it
    · intro i _
      rw [List.pairwise_map]
      exact ih.imp fun h => List.cons_lt_cons_iff.mpr (Or.inr ⟨rfl, h⟩)
    -- and all of them come before those of a larger one
    · refine List.pairwise_lt_range.imp fun h p hp q hq => ?_
      obtain ⟨is, _, rfl⟩ := List.mem_map.mp hp
      obtain ⟨js, _, rfl⟩ := List.mem_map.mp hq
      exact List.cons_lt_cons_iff.mpr (Or.inl h)

/-! ## 2. Any number of steps -/

/-- The walk after `n` steps. -/
def Walk.after (w : Walk) (n : Nat) : Walk := (take n w).2

theorem Walk.after_start (s : Shape) (n : Nat) :
    (start s).after n = standing s (min n s.elementCount) := by
  unfold after
  rw [start_eq, take_standing s n (Nat.zero_le _), Nat.zero_add]

/-- **The walk is the row-major order.** Let the elements of a shape be counted in a word, and with them every
    partial product of the lengths from the left (`Word.Countable`), which leaves out `{2^63, 2, 0}` although
    that has no element; and let the offsets of its positions be words. Its positions, listed in
    lexicographic order and each of them once, are as many as it has elements; and the walk over it yields
    their offsets in this order. So after any number of steps it has as many places left as are missing to
    the number of elements, it yields the offset of the position whose turn it is, and once all have been
    visited it yields nothing any more. -/
theorem Shape.walk_row_major {s : Shape} {count : Nat} (hcount : s.elementCountWord = .ok count)
    (hoffsets : ∀ index, InRange s.axes index → offset s.axes index < Word.bound) :
    (positions s.lengths).length = count ∧ (positions s.lengths).Pairwise (· < ·) ∧
    (∀ index, index ∈ positions s.lengths ↔ InRange s.axes index) ∧
    ∃ w, s.walk = .ok w ∧ w.toList.map Except.ok = (positions s.lengths).map s.offset? ∧
      ∀ n, (w.after n).remaining = count - n ∧
        (∀ index, (positions s.lengths)[n]? = some index →
          ∃ o, s.offset? index = .ok o ∧ (w.after n).next? = some (o, w.after (n + 1))) ∧
        (count ≤ n → (w.after n).next? = none ∧ w.after (n + 1) = w.after n) := by
  obtain ⟨hcountable, rfl⟩ := elementCountWord_eq_ok.mp hcount
  have hfound : ∀ index ∈ positions s.lengths, s.offset? index = .ok (offset s.axes index) :=
    fun index hi => offset?_of_mem hi (hoffsets index ((inRange_iff _ index).mpr hi))
  refine ⟨length_positions _, positions_pairwise_lt _, fun index => (inRange_iff _ index).symm,
    Walk.start s, walk_eq_ok.mpr ⟨hcountable, rfl⟩, ?_, fun n => ⟨?_, ?_, ?_⟩⟩
  · show s.offsets.map Except.ok = _
    rw [offsets_eq, List.map_map]
    exact List.map_congr_left fun index hi => (hfound index hi).symm
  · rw [Walk.after_start]
    show s.elementCount - min n s.elementCount = s.elementCount - n
    omega
  · intro index hn
    have hlt : n < s.elementCount := by
      have hbound := (List.getElem?_eq_some_iff.mp hn).1
      rwa [length_positions] at hbound
    obtain rfl : nthPosition s.lengths n = index :=
      Option.some.inj ((getElem?_positions hlt).symm.trans hn)
    refine ⟨_, hfound _ (List.mem_of_getElem? hn), ?_⟩
    rw [Walk.after_start, Walk.after_start, Nat.min_eq_left (Nat.le_of_lt hlt), Nat.min_eq_left hlt]
    exact Walk.next?_standing hlt
  · intro hover
    rw [Walk.after_start, Walk.after_start, Nat.min_eq_right hover,
      Nat.min_eq_right (Nat.le_succ_of_le hover)]
    exact ⟨Walk.next?_finished (Nat.le_refl _), rfl⟩

/-- A transposed matrix, twice. After five steps the walk yields offset 5 and has seven places left; it
    comes back to the offset 0 and ends after twelve steps. -/
theorem walk_over_repeated_columns :
    let s : Shape := ⟨.u8, [⟨2, 0⟩, ⟨3, 1⟩, ⟨2, 3⟩]⟩
    ∃ w, s.walk = .ok w ∧ (w.after 5).remaining = 7 ∧
      (w.after 5).next? = some (5, w.after 6) ∧ (w.after 6).next? = some (0, w.after 7) ∧
      (w.after 12).next? = none ∧ (w.after 100).next? = none := by
  intro s
  have hoffsets : ∀ index, InRange s.axes index → offset s.axes index < Word.bound := by
    intro index h
    have hlast : offset s.axes index ≤ 5 := offset_le_lastOffset ((inRange_iff _ index).mp h)
    exact Nat.lt_of_le_of_lt hlast (by decide)
  have hcount : s.elementCountWord = .ok 12 := rfl
  obtain ⟨_, _, _, w, hw, _, hsteps⟩ := Shape.walk_row_major hcount hoffsets
  have hnext : ∀ n o index, (positions s.lengths)[n]? = some index → s.offset? index = .ok o →
      (w.after n).next? = some (o, w.after (n + 1)) := by
    intro n o index hi ho
    obtain ⟨_, ho', hn⟩ := (hsteps n).2.1 index hi
    cases ho.symm.trans ho'
    exact hn
  refine ⟨w, hw, (hsteps 5).1, hnext 5 5 [0, 2, 1] rfl rfl, hnext 6 0 [1, 0, 0] rfl rfl, ?_, ?_⟩
  · exact ((hsteps 12).2.2 (Nat.le_refl 12)).1
  · exact ((hsteps 100).2.2 (by decide)).1

end TensorGraph
