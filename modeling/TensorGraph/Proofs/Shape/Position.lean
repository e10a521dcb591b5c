import TensorGraph.Proofs.Outcome
import TensorGraph.Shape.Position

/-!
# The offset of coordinates

The offset is found axis by axis, and the first thing that goes wrong decides how it ends. Here is what
that comes to:

* `Shape.offset?_eq_ok_iff` -- exactly the positions have offsets, as far as the offsets are words;
* `Shape.offset?_eq_fault_iff` -- a fault is a matter of the axes in front: some of them, all with their
  coordinates in bounds, add up to more than a word. What the coordinates behind them are does not
  count.
-/

namespace TensorGraph

/-! ## 1. Axis by axis -/

/-- A position has as many coordinates as there are axes. -/
theorem InRange.length_eq {axes : List Axis} {index : List Nat} (h : InRange axes index) :
    index.length = axes.length := by
  induction axes generalizing index with
  | nil =>
    cases index with
    | nil => rfl
    | cons i is => exact h.elim
  | cons a axes ih =>
    cases index with
    | nil => exact h.elim
    | cons i is => exact congrArg Nat.succ (ih h.2)

namespace Shape

variable {outOfBounds : Cause} {before : Nat} {axes : List Axis} {index : List Nat}

/-- One axis: its coordinate is in bounds, and the sum with its part goes on to the next one. -/
theorem offsetFrom_cons {a : Axis} {i : Nat} (hi : i < a.length) :
    offsetFrom outOfBounds before (a :: axes) (i :: index) =
      Outcome.word (before + i * a.stride) >>= fun flat => offsetFrom outOfBounds flat axes index :=
  if_neg (Nat.not_le_of_gt hi)

theorem offsetFrom_cons_outside {a : Axis} {i : Nat} (hi : a.length ≤ i) :
    offsetFrom outOfBounds before (a :: axes) (i :: index) = Outcome.fail outOfBounds := if_pos hi

/-- For a position, a sum on the way leaves the word only if the whole one does. -/
theorem offsetFrom_of_inRange (h : InRange axes index) (hb : before < Word.bound) :
    offsetFrom outOfBounds before axes index = Outcome.word (before + offset axes index) := by
  induction axes generalizing index before with
  | nil => exact (if_pos hb).symm
  | cons a axes ih =>
    cases index with
    | nil => exact h.elim
    | cons i is =>
      rw [offsetFrom_cons h.1, offset, ← Nat.add_assoc]
      rcases Nat.lt_or_ge (before + i * a.stride) Word.bound with hw | hw
      · rw [Outcome.word_eq_ok.mpr ⟨hw, rfl⟩]
        exact ih h.2 hw
      · have hmore := Nat.le_trans hw (Nat.le_add_right _ (offset axes is))
        rw [Outcome.word_eq_fault.mpr hmore, Outcome.word_bind_eq_fault]
        exact Or.inl hw

/-- What has an offset is a position, if it has a coordinate for each axis. -/
theorem inRange_of_offsetFrom {n : Nat} (hl : index.length = axes.length)
    (h : offsetFrom outOfBounds before axes index = .ok n) : InRange axes index := by
  induction axes generalizing index before with
  | nil =>
    cases index with
    | nil => exact trivial
    | cons i is => cases hl
  | cons a axes ih =>
    cases index with
    | nil => cases hl
    | cons i is =>
      rcases Nat.lt_or_ge i a.length with hi | hi
      · rw [offsetFrom_cons hi, Outcome.bind_eq_ok] at h
        obtain ⟨_, _, h⟩ := h
        exact ⟨hi, ih (Nat.succ.inj hl) h⟩
      · rw [offsetFrom_cons_outside hi] at h
        cases h

/-- Where the sum starts as a word, the axes over which it leaves the word begin with the first one, and go
    on with some of those behind it, or none. -/
theorem overrun_cons_iff {a : Axis} {i : Nat} (hb : before < Word.bound) :
    (∃ k, InRange ((a :: axes).take k) ((i :: index).take k) ∧
        Word.bound ≤ before + offset ((a :: axes).take k) ((i :: index).take k)) ↔
      i < a.length ∧ ∃ k, InRange (axes.take k) (index.take k) ∧
        Word.bound ≤ before + i * a.stride + offset (axes.take k) (index.take k) := by
  constructor
  · intro h
    obtain ⟨k, hrange, hk⟩ := h
    cases k with
    | zero => exact absurd hb (Nat.not_lt_of_le hk)
    | succ k =>
      refine ⟨hrange.1, k, hrange.2, ?_⟩
      rw [Nat.add_assoc]
      exact hk
  · intro h
    obtain ⟨hi, k, hrange, hk⟩ := h
    rw [Nat.add_assoc] at hk
    exact ⟨k + 1, ⟨hi, hrange⟩, hk⟩

/-- **Where the sum leaves the word**: after some first axes whose coordinates are in bounds. -/
theorem offsetFrom_eq_fault (hb : before < Word.bound) :
    offsetFrom outOfBounds before axes index = .error .fault ↔
      ∃ k, InRange (axes.take k) (index.take k) ∧
        Word.bound ≤ before + offset (axes.take k) (index.take k) := by
  induction axes generalizing index before with
  | nil =>
    refine ⟨nofun, fun h => ?_⟩
    obtain ⟨k, _, hk⟩ := h
    rw [List.take_nil] at hk
    exact absurd hb (Nat.not_lt_of_le hk)
  | cons a axes ih =>
    cases index with
    | nil =>
      refine ⟨nofun, fun h => ?_⟩
      obtain ⟨k, hk, hsum⟩ := h
      cases k with
      | zero => exact absurd hb (Nat.not_lt_of_le hsum)
      | succ k => exact hk.elim
    | cons i is =>
      rw [overrun_cons_iff hb]
      rcases Nat.lt_or_ge i a.length with hi | hi
      · rw [offsetFrom_cons hi, Outcome.word_bind_eq_fault, and_iff_right hi]
        rcases Nat.lt_or_ge (before + i * a.stride) Word.bound with hw | hw
        · rw [ih hw, or_iff_right (Nat.not_le_of_gt hw)]
        · exact iff_of_true (Or.inl hw) ⟨0, trivial, hw⟩
      · rw [offsetFrom_cons_outside hi]
        exact ⟨nofun, fun h => absurd h.1 (Nat.not_lt_of_le hi)⟩

/-! ## 2. The offset in a shape -/

/-- The offset of a position is asked for as a word. -/
theorem offset?_of_inRange {s : Shape} (hi : InRange s.axes index) :
    s.offset? index = Outcome.word (offset s.axes index) := by
  have hl : index.length = s.rank := hi.length_eq
  unfold offset?
  rw [if_neg (not_not_intro hl), offsetFrom_of_inRange hi (by decide), Nat.zero_add]

/-- **Exactly the positions have offsets**, as far as the offsets are words. -/
theorem offset?_eq_ok_iff (s : Shape) (index : List Nat) (n : Nat) :
    s.offset? index = .ok n ↔
      InRange s.axes index ∧ offset s.axes index = n ∧ n < Word.bound := by
  have hposition : s.offset? index = .ok n → InRange s.axes index := by
    intro h
    unfold offset? at h
    by_cases hl : index.length = s.rank
    · rw [if_neg (not_not_intro hl)] at h
      exact inRange_of_offsetFrom hl h
    · rw [if_pos hl] at h
      cases h
  constructor
  · intro h
    have hi := hposition h
    rw [offset?_of_inRange hi] at h
    obtain ⟨hw, rfl⟩ := Outcome.word_eq_ok.mp h
    exact ⟨hi, rfl, hw⟩
  · intro h
    obtain ⟨hi, rfl, hw⟩ := h
    rw [offset?_of_inRange hi, Outcome.word_eq_ok]
    exact ⟨hw, rfl⟩

/-- **An offset is a fault** exactly if it is asked for with as many coordinates as there are axes, and
    the sum over some first axes, with their coordinates in bounds, is no word. A later coordinate out
    of bounds does not turn it into an error. -/
theorem offset?_eq_fault_iff (s : Shape) (index : List Nat) :
    s.offset? index = .error .fault ↔ index.length = s.rank ∧
      ∃ k, InRange (s.axes.take k) (index.take k) ∧
        Word.bound ≤ offset (s.axes.take k) (index.take k) := by
  unfold offset?
  by_cases hl : index.length = s.rank
  · rw [if_neg (not_not_intro hl), offsetFrom_eq_fault (by decide)]
    simp only [Nat.zero_add, hl, true_and]
  · rw [if_pos hl]
    exact ⟨nofun, fun h => absurd h.1 hl⟩

example : (Shape.mk .u8 [⟨3, 2 ^ 64 - 1⟩, ⟨0, 1⟩]).offset? [2, 0] = .error .fault := rfl

end Shape

end TensorGraph
