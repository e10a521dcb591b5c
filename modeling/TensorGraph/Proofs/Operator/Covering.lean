import Mathlib.Data.List.Forall2
import TensorGraph.Proofs.Operator.Windows

/-!
# Windows that cover an axis

`ceilDiv` is the least number of steps that reach a length (`isLeast_ceilDiv`), and two operators count their
windows with it. A pooling asks for windows until one of them ends at the end of the padded input or behind it;
on each of its two axes four numbers decide (`Slide`). A convolution in the same mode asks for a window for each
stride in the input.

* `Pooling.infer_eq_ok` splits the inference of a pooling into its two axes.
* `Pooling.fewest_windows_exact_iff` -- the windows of a pooling are the fewest that reach the end. It accepts
  what has such windows, with a single exception: on the longest axis there can be, windows without a length
  that begin at every position are one more than a word can count (`windows_without_length_uncounted`).
* `Pooling.last_window_overlaps_iff` -- all windows but the last lie inside the padded input. The last one, which
  is there to reach the end, may begin behind it: rounding up looks at the remainder of the stride, and not at
  where a window starts (`empty_window_counted`).
* `Convolution.same_mode_balanced` -- a padding that makes up for the extent of the kernel leaves room for one
  window for each stride in the input, and this is what the same mode counts.
-/

namespace TensorGraph

open Outcome

/-! ## 1. Steps that reach a length -/

theorem ceilDiv_le_iff {step : Nat} (hs : step ≠ 0) {length n : Nat} :
    ceilDiv length step ≤ n ↔ length ≤ n * step := by
  cases length with
  | zero => simp [ceilDiv]
  | succ m =>
    rw [ceilDiv_succ, Nat.succ_le_iff, Nat.div_lt_iff_lt_mul (Nat.pos_of_ne_zero hs),
      Nat.lt_iff_add_one_le]

/-- **The number of steps is the least** that reaches the length. -/
theorem isLeast_ceilDiv {step : Nat} (hs : step ≠ 0) (length : Nat) :
    IsLeast {n | length ≤ n * step} (ceilDiv length step) :=
  ⟨(ceilDiv_le_iff hs).mp (Nat.le_refl _), fun _ hn => (ceilDiv_le_iff hs).mpr hn⟩

/-- The steps end at the length, or behind it by what the last one has too much. -/
theorem ceilDiv_mul (length step : Nat) : ceilDiv length step * step =
    if length % step = 0 then length else length - length % step + step := by
  have hsplit := Nat.div_add_mod' length step
  unfold ceilDiv
  split
  · rw [Nat.add_zero]
    omega
  · rw [Nat.succ_mul]
    omega

/-! ## 2. The axes of a pooling -/

/-- The numbers that decide how many windows a pooling has on one of its axes. -/
structure Slide where
  padding : Nat
  stride : Nat
  window : Nat
  input : Nat

/-- An image batch with the shape that comes of the given numbers of windows; `input` are the spatial lengths
    of the images. -/
inductive Pooled (input windows : Planar) : List Shape → Shape → Prop where
  | intro {image : Shape} {batch channels : Nat} :
      image.lengths = [batch, channels, input.rows, input.columns] →
      Pooled input windows [image]
        (.standard image.elementType [batch, channels, windows.rows, windows.columns])

namespace Slide

variable {a : Slide} {n : Nat}

/-- The length of the input with the padding on its two sides. -/
def padded (a : Slide) : Nat := a.input + 2 * a.padding

/-- The last of `n` windows ends at the end of the padded input or behind it. -/
def Covers (a : Slide) (n : Nat) : Prop := a.padded ≤ (n - 1) * a.stride + a.window

/-- The stride is positive, and a window is shorter than the padded input. -/
def Admits (a : Slide) : Prop := 0 < a.stride ∧ a.window < a.padded

instance : Decidable a.Admits := inferInstanceAs (Decidable (_ ∧ _))

/-- A window of no length begins at every position of the longest axis. -/
def Uncountable (a : Slide) : Prop := a.window = 0 ∧ a.stride = 1 ∧ a.padded = Word.largest

instance : Decidable a.Uncountable := inferInstanceAs (Decidable (_ ∧ _ ∧ _))

/-- The number of windows: one for each stride behind the first window, and the first. -/
def count (a : Slide) : Nat := ceilDiv (a.padded - a.window) a.stride + 1

/-- `n` windows are computed on the axis. -/
def Counts (a : Slide) (n : Nat) : Prop :=
  a.padded < Word.bound ∧ a.Admits ∧ n < Word.bound ∧ n = a.count

instance : Decidable (a.Counts n) := inferInstanceAs (Decidable (_ ∧ _ ∧ _ ∧ _))

/-- **The windows counted are the fewest** that reach the end of the padded input. -/
theorem isLeast_count (hs : a.stride ≠ 0) : IsLeast {n | 1 ≤ n ∧ a.Covers n} a.count := by
  have hcovers (n : Nat) : a.Covers n ↔ ceilDiv (a.padded - a.window) a.stride ≤ n - 1 := by
    rw [ceilDiv_le_iff hs]
    unfold Covers
    omega
  unfold count
  refine ⟨⟨Nat.le_add_left 1 _, (hcovers _).mpr (Nat.le_refl _)⟩, fun n hn => ?_⟩
  have hsteps := (hcovers n).mp hn.2
  have hpos : 1 ≤ n := hn.1
  omega

/-- The count is no word in the one case only in which every position has a window. -/
theorem count_lt_bound (h : a.Admits) (hp : a.padded < Word.bound) :
    a.count < Word.bound ↔ ¬ a.Uncountable := by
  have hs : a.stride ≠ 0 := Nat.ne_of_gt h.1
  rw [← Nat.not_le, count, ceilDiv_overflow hs (by omega)]
  have hwindow := h.2
  unfold Uncountable Word.largest Word.bound at *
  omega

/-- Whether a window count was computed is a matter of the four numbers. -/
theorem exists_counts_iff (hp : a.padded < Word.bound) :
    (∃ n, a.Counts n) ↔ a.Admits ∧ ¬ a.Uncountable := by
  unfold Counts
  constructor
  · intro h
    obtain ⟨n, _, hadmits, hn, rfl⟩ := h
    exact ⟨hadmits, (count_lt_bound hadmits hp).mp hn⟩
  · intro h
    exact ⟨a.count, hp, h.1, (count_lt_bound h.1 hp).mpr h.2, rfl⟩

end Slide

namespace Pooling

variable {p : Pooling} {shapes : List Shape} {output : Shape}

/-- The axes of a pooling over images with the given lengths, rows first. -/
def slides (p : Pooling) (input : Planar) : List Slide :=
  [⟨p.padding.rows, p.stride.rows, p.window.rows, input.rows⟩,
    ⟨p.padding.columns, p.stride.columns, p.window.columns, input.columns⟩]

theorem windowCount_eq_ok_iff {axis : Nat} {a : Slide} (hs : a.stride ≠ 0) {n : Nat} :
    windowCount axis a.padding a.stride a.window a.input = .ok n ↔ a.Counts n := by
  rw [windowCount_eq]
  unfold Slide.Counts Slide.Admits Slide.count Slide.padded
  by_cases hb : Word.bound ≤ a.input + 2 * a.padding
  · rw [if_pos hb]
    refine iff_of_false nofun fun h => ?_
    exact absurd h.1 (Nat.not_lt_of_le hb)
  · rw [if_neg hb, checkIn_eq_ok, word_eq_ok]
    constructor
    · intro h
      obtain ⟨hw, hn, rfl⟩ := h
      exact ⟨Nat.lt_of_not_le hb, ⟨Nat.pos_of_ne_zero hs, Nat.lt_of_not_le hw⟩, hn, rfl⟩
    · intro h
      obtain ⟨_, ⟨_, hw⟩, hn, rfl⟩ := h
      exact ⟨Nat.not_le_of_lt hw, hn, rfl⟩

/-- **A pooling is inferred axis by axis**, from an image batch of rank 4. -/
theorem infer_eq_ok : p.infer shapes = .ok output ↔
    ∃ input windows, Pooled input windows shapes output ∧
      List.Forall₂ Slide.Counts (p.slides input) windows.toList := by
  have haxes {input windows : Planar} :
      List.Forall₂ Slide.Counts (p.slides input) windows.toList ↔
        p.stride.hasZero = false ∧
          windowCount 2 p.padding.rows p.stride.rows p.window.rows input.rows = .ok windows.rows ∧
          windowCount 3 p.padding.columns p.stride.columns p.window.columns input.columns =
            .ok windows.columns := by
    unfold slides Planar.toList
    rw [List.forall₂_cons, List.forall₂_cons, Planar.hasZero_eq_false]
    constructor
    · intro h
      obtain ⟨hrows, hcolumns, _⟩ := h
      have hs : p.stride.rows ≠ 0 := Nat.ne_of_gt hrows.2.1.1
      have hs' : p.stride.columns ≠ 0 := Nat.ne_of_gt hcolumns.2.1.1
      exact ⟨⟨hs, hs'⟩, (windowCount_eq_ok_iff (a := ⟨_, _, _, _⟩) hs).mpr hrows,
        (windowCount_eq_ok_iff (a := ⟨_, _, _, _⟩) hs').mpr hcolumns⟩
    · intro h
      obtain ⟨⟨hs, hs'⟩, hrows, hcolumns⟩ := h
      exact ⟨(windowCount_eq_ok_iff (a := ⟨_, _, _, _⟩) hs).mp hrows,
        (windowCount_eq_ok_iff (a := ⟨_, _, _, _⟩) hs').mp hcolumns, .nil⟩
  constructor
  · intro h
    unfold infer at h
    obtain ⟨image, hs, h⟩ := bind_eq_ok.mp h
    obtain rfl := (Operands.one_eq_ok _ _).mp hs
    obtain ⟨_, h⟩ := then_eq_ok.mp h
    simp only [failIn_bind, checkIn_eq_ok, Bool.not_eq_true] at h
    obtain ⟨hstride, h⟩ := h
    split at h
    · rename_i batch channels rows columns hl
      obtain ⟨height, hheight, h⟩ := bind_eq_ok.mp h
      obtain ⟨width, hwidth, h⟩ := bind_eq_ok.mp h
      cases h
      exact ⟨⟨rows, columns⟩, ⟨height, width⟩, .intro hl, haxes.mpr ⟨hstride, hheight, hwidth⟩⟩
    · cases h
  · intro h
    obtain ⟨input, windows, hpooled, hcounts⟩ := h
    obtain ⟨hstride, hheight, hwidth⟩ := haxes.mp hcounts
    cases hpooled with
    | @intro image _ _ hl =>
      have hrank : [image].all (fun s => s.rank == 4) = true := by
        simp [Shape.rank_of_lengths hl]
      unfold infer
      refine bind_eq_ok.mpr ⟨image, (Operands.one_eq_ok _ _).mpr rfl, ?_⟩
      refine then_eq_ok.mpr ⟨(Operands.require_eq_ok _ _ _).mpr hrank, ?_⟩
      simp only [failIn_bind, checkIn_eq_ok, hstride, hl, Bool.false_eq_true, not_false_eq_true,
        true_and]
      exact bind_eq_ok.mpr ⟨_, hheight, bind_eq_ok.mpr ⟨_, hwidth, rfl⟩⟩

/-- What a pooling of one image is made of shows in the lengths. -/
theorem pooled_iff {image : Shape} {batch channels : Nat} {input input' windows : Planar}
    (hl : image.lengths = [batch, channels, input.rows, input.columns]) :
    Pooled input' windows [image] output ↔ input' = input ∧
      output = .standard image.elementType [batch, channels, windows.rows, windows.columns] := by
  constructor
  · intro h
    generalize hs : [image] = shapes at h
    cases h with
    | intro hl' =>
      cases hs
      rw [hl] at hl'
      cases input
      cases input'
      cases hl'
      exact ⟨rfl, rfl⟩
  · intro h
    obtain ⟨rfl, rfl⟩ := h
    exact .intro hl

/-- The case of one image of rank 4. -/
theorem infer_one_eq_ok {image : Shape} {batch channels : Nat} {input : Planar}
    (hl : image.lengths = [batch, channels, input.rows, input.columns]) :
    p.infer [image] = .ok output ↔ ∃ windows : Planar,
      output = .standard image.elementType [batch, channels, windows.rows, windows.columns] ∧
        List.Forall₂ Slide.Counts (p.slides input) windows.toList := by
  rw [infer_eq_ok]
  simp only [pooled_iff hl, and_assoc, exists_and_left, exists_eq_left]

/-! ## 3. The fewest windows -/

/-- Whether there is a shape is a matter of the axes, as long as the padded lengths are words. -/
theorem exists_infer_iff {image : Shape} {batch channels : Nat} {input : Planar}
    (hl : image.lengths = [batch, channels, input.rows, input.columns])
    (hp : ∀ a ∈ p.slides input, a.padded < Word.bound) :
    (∃ output, p.infer [image] = .ok output) ↔
      (∀ a ∈ p.slides input, a.Admits) ∧ ∀ a ∈ p.slides input, ¬ a.Uncountable := by
  have hcounts : (∃ output, p.infer [image] = .ok output) ↔
      ∀ a ∈ p.slides input, ∃ n, a.Counts n := by
    simp only [infer_one_eq_ok hl, slides, Planar.toList, List.forall₂_cons, List.forall₂_nil_left_iff,
      List.forall_mem_cons, List.not_mem_nil]
    constructor
    · intro h
      obtain ⟨_, windows, rfl, hrows, hcolumns, _⟩ := h
      exact ⟨⟨_, hrows⟩, ⟨_, hcolumns⟩, nofun⟩
    · intro h
      obtain ⟨⟨rows, hrows⟩, ⟨columns, hcolumns⟩, _⟩ := h
      exact ⟨_, ⟨rows, columns⟩, rfl, hrows, hcolumns, trivial⟩
  rw [hcounts, ← forall₂_and]
  exact forall₂_congr fun a ha => Slide.exists_counts_iff (hp a ha)

/-- **Where a pooling accepts what its windows can cover.** For images whose padded lengths are words: what it
    gives is the row-major shape of batch and channels and, on each axis, of the least number of windows of which
    the last one ends at the end of the padded input or behind it. It gives a shape for all strides that are
    positive and windows that are shorter than the padded input, and for no others, exactly if these are not
    windows without a length at every position of the longest axis. -/
theorem fewest_windows_exact_iff {image : Shape} {batch channels : Nat} {input : Planar}
    (hl : image.lengths = [batch, channels, input.rows, input.columns])
    (hp : ∀ a ∈ p.slides input, a.padded < Word.bound) :
    (∀ output, p.infer [image] = .ok output → ∃ windows : Planar,
      output = .standard image.elementType [batch, channels, windows.rows, windows.columns] ∧
        List.Forall₂ (fun a n => IsLeast {n | 1 ≤ n ∧ a.Covers n} n) (p.slides input) windows.toList) ∧
      (((∃ output, p.infer [image] = .ok output) ↔ ∀ a ∈ p.slides input, a.Admits) ↔
        ((∀ a ∈ p.slides input, a.Admits) → ∀ a ∈ p.slides input, ¬ a.Uncountable)) := by
  refine ⟨fun output h => ?_, ?_⟩
  · obtain ⟨windows, hout, hcounts⟩ := (infer_one_eq_ok hl).mp h
    refine ⟨windows, hout, hcounts.imp fun a n hn => ?_⟩
    obtain ⟨_, hadmits, _, rfl⟩ := hn
    exact Slide.isLeast_count (Nat.ne_of_gt hadmits.1)
  · rw [exists_infer_iff hl hp]
    exact and_iff_left_iff_imp

/-- A padded axis on which the last window ends behind the input, and one on which it ends with it. -/
theorem padded_rows_covered :
    let p : Pooling := ⟨.largest, ⟨1, 0⟩, ⟨2, 3⟩, ⟨2, 2⟩⟩
    let input : Planar := ⟨7, 32⟩
    let image : Shape := .standard .f32 [1, 8, 7, 32]
    ∃ output, p.infer [image] = .ok output ∧ output.lengths = [1, 8, 5, 11] ∧
      ∃ windows : Planar, output = .standard .f32 [1, 8, windows.rows, windows.columns] ∧
        List.Forall₂ (fun a n => IsLeast {n | 1 ≤ n ∧ a.Covers n} n) (p.slides input) windows.toList := by
  intro p input image
  have hl : image.lengths = [1, 8, input.rows, input.columns] := rfl
  have hwords : ∀ a ∈ p.slides input, a.padded < Word.bound := by decide
  have hadmits : ∀ a ∈ p.slides input, a.Admits := by decide
  have hcountable : ∀ a ∈ p.slides input, ¬ a.Uncountable := by decide
  obtain ⟨hleast, haccepts⟩ := fewest_windows_exact_iff hl hwords
  obtain ⟨output, houtput⟩ := (haccepts.mpr fun _ => hcountable).mpr hadmits
  have hinfer : p.infer [image] = .ok (.standard .f32 [1, 8, 5, 11]) :=
    (infer_one_eq_ok hl).mpr ⟨⟨5, 11⟩, rfl, .cons (by decide) (.cons (by decide) .nil)⟩
  have hlengths : output.lengths = [1, 8, 5, 11] := by
    rw [hinfer] at houtput
    cases houtput
    exact Shape.lengths_standard _ _
  exact ⟨output, houtput, hlengths, hleast output houtput⟩

/-- Windows without a length fit between the positions of an axis, before the first and behind the last: they are
    one more than the positions, and on the longest axis too many for a word. -/
theorem windows_without_length_uncounted :
    let p : Pooling := ⟨.average, ⟨0, 0⟩, ⟨1, 1⟩, ⟨0, 1⟩⟩
    let input : Planar := ⟨2 ^ 64 - 1, 2⟩
    let image : Shape := .standard .f32 [1, 1, 2 ^ 64 - 1, 2]
    Operator.ofValue "pooling" (.record [("lengths", .ofNats [0, 1])]) = .ok (.pooling p) ∧
      image.lengths = [1, 1, input.rows, input.columns] ∧
      (∀ a ∈ p.slides input, a.padded < Word.bound) ∧
      (∀ a ∈ p.slides input, a.Admits) ∧
      ¬ ∃ output, p.infer [image] = .ok output := by
  intro p input image
  have hl : image.lengths = [1, 1, input.rows, input.columns] := rfl
  have hwords : ∀ a ∈ p.slides input, a.padded < Word.bound := by decide
  refine ⟨rfl, hl, hwords, by decide, fun h => ?_⟩
  have hcountable := ((exists_infer_iff hl hwords).mp h).2
  exact hcountable _ List.mem_cons_self (by decide)

/-! ## 4. The last window -/

end Pooling

namespace Slide

variable {a : Slide} {n : Nat}

/-- What is left of the last stride at the end of the padded input. -/
def remainder (a : Slide) : Nat := (a.padded - a.window) % a.stride

/-- The strides end with the padded input, or the last one leaves a part of its window inside. -/
def Overlaps (a : Slide) : Prop := a.remainder = 0 ∨ a.stride < a.window + a.remainder

instance : Decidable a.Overlaps := inferInstanceAs (Decidable (_ ∨ _))

/-- Before the last of the windows that are counted, all end inside the padded input. -/
theorem Counts.inside (h : a.Counts n) {i : Nat} (hi : i + 1 < n) :
    i * a.stride + a.window < a.padded := by
  obtain ⟨_, hadmits, _, rfl⟩ := h
  have hsteps : ¬ ceilDiv (a.padded - a.window) a.stride ≤ i := by
    unfold count at hi
    omega
  rw [ceilDiv_le_iff (Nat.ne_of_gt hadmits.1)] at hsteps
  omega

/-- The last of the windows that are counted begins inside the padded input exactly if it overlaps it. -/
theorem Counts.last_lt_iff (h : a.Counts n) (hw : 1 ≤ a.window) :
    (n - 1) * a.stride < a.padded ↔ a.Overlaps := by
  obtain ⟨_, hadmits, _, rfl⟩ := h
  have hwindow : a.window < a.padded := hadmits.2
  have hrest : a.remainder < a.stride := Nat.mod_lt _ hadmits.1
  have hle : a.remainder ≤ a.padded - a.window := Nat.mod_le _ _
  rw [count, Nat.add_sub_cancel, ceilDiv_mul]
  unfold Overlaps
  change (if a.remainder = 0 then _ else a.padded - a.window - a.remainder + a.stride) < a.padded ↔ _
  split <;> omega

end Slide

namespace Pooling

variable {p : Pooling} {shapes : List Shape} {output : Shape}

/-- **Where no window of a pooling is empty.** On each axis of whatever is accepted, with windows of at least one
    position: all windows but the last end inside the padded input. The last one begins inside it exactly if the
    strides end with the padded input, or the window is longer than what the last stride has too much; a stride
    that is no longer than the window is never too long. -/
theorem last_window_overlaps_iff (h : p.infer shapes = .ok output) :
    ∃ input windows, Pooled input windows shapes output ∧
      List.Forall₂ (fun a n => 1 ≤ a.window →
        (∀ i, i + 1 < n → i * a.stride + a.window < a.padded) ∧
          ((n - 1) * a.stride < a.padded ↔ a.Overlaps) ∧
          (a.stride ≤ a.window → (n - 1) * a.stride < a.padded)) (p.slides input) windows.toList := by
  obtain ⟨input, windows, hpooled, hcounts⟩ := infer_eq_ok.mp h
  refine ⟨input, windows, hpooled, hcounts.imp fun a n hn hw => ?_⟩
  have hlast : (n - 1) * a.stride < a.padded ↔ a.Overlaps := hn.last_lt_iff hw
  refine ⟨fun i hi => hn.inside hi, hlast, fun hstride => hlast.mpr ?_⟩
  unfold Slide.Overlaps
  omega

/-- The rows have a stride that is longer than the window, with a part of the last window inside; on the columns
    the strides end with the input. -/
theorem long_strides_overlap :
    let p : Pooling := ⟨.average, ⟨0, 0⟩, ⟨3, 4⟩, ⟨2, 1⟩⟩
    let image : Shape := .standard .f32 [1, 8, 7, 9]
    let output : Shape := .standard .f32 [1, 8, 3, 3]
    p.infer [image] = .ok output ∧ ∃ input windows, Pooled input windows [image] output ∧
      List.Forall₂ (fun a n => (n - 1) * a.stride < a.padded) (p.slides input) windows.toList := by
  intro p image output
  have hl : image.lengths = [1, 8, (⟨7, 9⟩ : Planar).rows, (⟨7, 9⟩ : Planar).columns] := rfl
  have hinfer : p.infer [image] = .ok output :=
    (infer_one_eq_ok hl).mpr ⟨⟨3, 3⟩, rfl, .cons (by decide) (.cons (by decide) .nil)⟩
  obtain ⟨input, windows, hpooled, haxes⟩ := last_window_overlaps_iff hinfer
  obtain ⟨rfl, _⟩ := (pooled_iff hl).mp hpooled
  unfold slides Planar.toList at haxes
  rw [List.forall₂_cons, List.forall₂_cons] at haxes
  obtain ⟨hrows, hcolumns, _⟩ := haxes
  refine ⟨hinfer, _, windows, hpooled, .cons ?_ (.cons ?_ .nil)⟩
  · exact (hrows (by decide)).2.1.mpr (by decide)
  · exact (hcolumns (by decide)).2.1.mpr (by decide)

/-- Single positions with a stride of two: on four rows there is a third window, which begins where the input
    ends. -/
theorem empty_window_counted :
    let p : Pooling := ⟨.average, ⟨0, 0⟩, ⟨2, 1⟩, ⟨1, 1⟩⟩
    let image : Shape := .standard .f32 [1, 1, 4, 2]
    let windows : Planar := ⟨3, 2⟩
    Operator.ofValue "pooling" (.record [("stride", .ofNats [2, 1])]) = .ok (.pooling p) ∧
      p.infer [image] = .ok (.standard .f32 [1, 1, 3, 2]) ∧
      Pooled ⟨4, 2⟩ windows [image] (.standard .f32 [1, 1, 3, 2]) ∧
      (∀ a ∈ p.slides ⟨4, 2⟩, 1 ≤ a.window) ∧
      ¬ List.Forall₂ (fun a n => (n - 1) * a.stride < a.padded) (p.slides ⟨4, 2⟩) windows.toList := by
  intro p image windows
  have hl : image.lengths = [1, 1, (⟨4, 2⟩ : Planar).rows, (⟨4, 2⟩ : Planar).columns] := rfl
  refine ⟨rfl, ?_, .intro hl, by decide, ?_⟩
  · exact (infer_one_eq_ok hl).mpr ⟨windows, rfl, .cons (by decide) (.cons (by decide) .nil)⟩
  · intro h
    unfold slides Planar.toList at h
    rw [List.forall₂_cons] at h
    exact absurd h.1 (by decide)

end Pooling

/-! ## 5. Balanced padding -/

/-- The padding of an axis makes up for the extent of the kernel: what the two sides add is what the kernel covers
    behind its first position. All numbers are positive, padding apart, and are read as they are. -/
structure Sweep.Balanced (a : Sweep) : Prop where
  balanced : 2 * a.padding = a.dilation * (a.kernel - 1)
  positive : ∀ n ∈ [a.input, a.kernel, a.stride, a.dilation], 1 ≤ n
  small : ∀ n ∈ a.numbers, n < 2 ^ 63
  padded : a.input + 2 * a.padding < 2 ^ 63

namespace Sweep

variable {a : Sweep}

/-- What a kernel covers behind its first position is what the padding adds. -/
theorem Balanced.spread_eq (h : a.Balanced) : (a.dilation : Int) * (a.kernel - 1) = 2 * a.padding := by
  have hkernel : 1 ≤ a.kernel := h.positive _ (by simp)
  have hgaps : (a.kernel : Int) - 1 = ((a.kernel - 1 : Nat) : Int) := by omega
  rw [hgaps, ← Int.natCast_mul, ← h.balanced]
  rfl

/-- What is left of the padded input behind the kernel is the input behind its first position. -/
theorem Balanced.room_eq (h : a.Balanced) :
    (a.input : Int) - (1 + a.dilation * (a.kernel - 1)) + 2 * a.padding = ((a.input - 1 : Nat) : Int) := by
  have hinput : 1 ≤ a.input := h.positive _ (by simp)
  rw [h.spread_eq]
  omega

/-- **Balanced padding has one window for each stride in the input.** -/
theorem Balanced.exactCount_eq (h : a.Balanced) : a.exactCount = ceilDiv a.input a.stride := by
  have hinput : 1 ≤ a.input := h.positive _ (by simp)
  have hcount : ceilDiv a.input a.stride = (a.input - 1) / a.stride + 1 := by
    rw [← ceilDiv_succ, Nat.sub_add_cancel hinput]
  unfold exactCount explicitCount
  rw [h.room_eq, ← Int.ofNat_tdiv, hcount]
  generalize (a.input - 1) / a.stride = quotient
  omega

end Sweep

namespace Convolution

variable {c : Convolution} {shapes : List Shape} {output : Shape}

/-- The explicit length under balanced padding: none of the steps to it leaves its word. -/
theorem explicitLength_balanced {a : Sweep} (h : a.Balanced) :
    explicitLength a.padding a.stride a.dilation a.input a.kernel =
      .ok (sameLength a.stride a.input) := by
  refine explicitLength_eq_ok.mpr ⟨?_, ?_⟩
  · have hself : ∀ n ∈ a.numbers, Word.signed n = n := fun n hn =>
      (Word.signed_eq_self n).mpr (h.small n hn)
    have hsmall := h.small
    unfold Sweep.numbers at hself hsmall
    simp only [List.forall_mem_cons] at hself hsmall
    obtain ⟨hp, hs, hd, hi, hk, _⟩ := hself
    have hquotient := Int.natAbs_tdiv_le_natAbs ((a.input - 1 : Nat) : Int) a.stride
    have hpadded := h.padded
    unfold explicitSteps
    dsimp only
    rw [hp, hs, hd, hi, hk, h.room_eq, h.spread_eq]
    generalize Int.tdiv _ _ = quotient at hquotient ⊢
    simp only [List.forall_mem_cons, Word.isSigned_iff]
    refine ⟨?_, ?_, ?_, ?_, ?_, ?_, ?_, ?_, nofun⟩ <;> omega
  · show _ = a.signedCount
    rw [Sweep.signedCount_eq h.small, h.exactCount_eq]
    rfl

/-- The convolution in the same mode, in which its padding plays no part. -/
def inSameMode (c : Convolution) (padding : Planar) : Convolution := { c with padding, mode := .same }

/-- The numbers of windows in the same mode: one for each stride in the input. -/
def sameWindows (c : Convolution) (input : Planar) : Planar :=
  ⟨sameLength c.stride.rows input.rows, sameLength c.stride.columns input.columns⟩

/-- The same mode has a shape for all images and weights, if the steps are positive. -/
theorem exists_infer_inSameMode (padding : Planar) {input kernel windows : Planar}
    (h : Convolved input kernel windows shapes output)
    (hsteps : ∀ a ∈ c.sweeps input kernel windows, a.stride ≠ 0 ∧ a.dilation ≠ 0) :
    ∃ same, (c.inSameMode padding).infer shapes = .ok same ∧
      Convolved input kernel (c.sameWindows input) shapes same := by
  obtain ⟨same, hconvolved, _⟩ := exists_convolved h (c.sameWindows input)
  obtain ⟨hrows, hcolumns⟩ := forall_mem_sweeps.mp hsteps
  refine ⟨same, infer_eq_ok.mpr ⟨input, kernel, _, hconvolved, forall_mem_sweeps.mpr ?_⟩, hconvolved⟩
  exact ⟨⟨hrows.1, hrows.2, rfl⟩, hcolumns.1, hcolumns.2, rfl⟩

/-- On a balanced axis explicit padding has the windows of the same mode. -/
theorem windows_of_balanced {a : Sweep} (h : a.Balanced)
    (hlength : explicitLength a.padding a.stride a.dilation a.input a.kernel = .ok a.windows) :
    sameLength a.stride a.input = a.windows ∧ IsLeast {n | a.input ≤ n * a.stride} a.windows ∧
      (a.stride = 1 → a.windows = a.input) := by
  rw [explicitLength_balanced h] at hlength
  have hwindows : sameLength a.stride a.input = a.windows := Except.ok.inj hlength
  have hstride : 1 ≤ a.stride := h.positive _ (by simp)
  have hleast : IsLeast {n | a.input ≤ n * a.stride} a.windows := by
    rw [← hwindows]
    exact isLeast_ceilDiv (Nat.ne_of_gt hstride) a.input
  refine ⟨hwindows, hleast, fun hone => ?_⟩
  rw [← hwindows, hone]
  simp [sameLength, ceilDiv, Nat.mod_one]

/-- **The same mode is explicit padding that is balanced.** Whatever a convolution with explicit padding accepts,
    the same mode accepts, and on each axis on which the padding makes up for the extent of the kernel both have
    the same number of windows: the least for which the strides reach the end of the input, and with single
    strides the length of the input. With balanced padding on both axes they accept all images and weights
    of one type, with the same result. -/
theorem same_mode_balanced (hm : c.mode = .explicit) (padding : Planar) :
    (∀ shapes output, c.infer shapes = .ok output →
      ∃ same input kernel windows windows', (c.inSameMode padding).infer shapes = .ok same ∧
        Convolved input kernel windows shapes output ∧ Convolved input kernel windows' shapes same ∧
        List.Forall₂ (fun a n => a.Balanced → n = a.windows ∧
          IsLeast {m | a.input ≤ m * a.stride} a.windows ∧ (a.stride = 1 → a.windows = a.input))
          (c.sweeps input kernel windows) windows'.toList) ∧
      ∀ shapes output input kernel windows, Convolved input kernel windows shapes output →
        (∀ a ∈ c.sweeps input kernel windows, a.Balanced) →
        ∃ same, c.infer shapes = .ok same ∧ (c.inSameMode padding).infer shapes = .ok same := by
  refine ⟨fun shapes output h => ?_, fun shapes output input kernel windows h hbalanced => ?_⟩
  · obtain ⟨input, kernel, windows, hconvolved, haxes⟩ := infer_eq_ok.mp h
    obtain ⟨same, hsame, hconvolved'⟩ := exists_infer_inSameMode padding hconvolved fun a ha =>
      ⟨(haxes a ha).1, (haxes a ha).2.1⟩
    rw [hm] at haxes
    obtain ⟨⟨_, _, hrows⟩, _, _, hcolumns⟩ := forall_mem_sweeps.mp haxes
    refine ⟨same, input, kernel, windows, _, hsame, hconvolved, hconvolved', ?_⟩
    exact .cons (fun hb => windows_of_balanced hb hrows)
      (.cons (fun hb => windows_of_balanced hb hcolumns) .nil)
  · have hsteps : ∀ a ∈ c.sweeps input kernel windows, a.stride ≠ 0 ∧ a.dilation ≠ 0 := fun a ha =>
      have hpositive := (hbalanced a ha).positive
      ⟨Nat.ne_of_gt (hpositive _ (by simp)), Nat.ne_of_gt (hpositive _ (by simp))⟩
    obtain ⟨same, hsame, hconvolved⟩ := exists_infer_inSameMode padding h hsteps
    refine ⟨same, infer_eq_ok.mpr ⟨input, kernel, _, hconvolved, forall_mem_sweeps.mpr ?_⟩, hsame⟩
    rw [hm]
    obtain ⟨hrows, hcolumns⟩ := forall_mem_sweeps.mp hsteps
    obtain ⟨hbrows, hbcolumns⟩ := forall_mem_sweeps.mp hbalanced
    have hheight := explicitLength_balanced hbrows
    have hwidth := explicitLength_balanced hbcolumns
    exact ⟨⟨hrows.1, hrows.2, hheight⟩, hcolumns.1, hcolumns.2, hwidth⟩

/-- Rows with a gap in the kernel and a remainder of the stride, and columns that keep their length. -/
theorem gapped_rows_balanced :
    let c : Convolution := ⟨⟨2, 1⟩, ⟨3, 1⟩, ⟨2, 1⟩, .explicit⟩
    let shapes : List Shape := [.standard .f32 [1, 3, 8, 5], .standard .f32 [4, 3, 3, 3]]
    let output : Shape := .standard .f32 [1, 4, 3, 5]
    c.mode = .explicit ∧ c.infer shapes = .ok output ∧ (c.inSameMode ⟨0, 0⟩).infer shapes = .ok output := by
  intro c shapes output
  have hmode : c.mode = .explicit := rfl
  have hconvolved : Convolved ⟨8, 5⟩ ⟨3, 3⟩ ⟨3, 5⟩ shapes output := .intro rfl rfl rfl
  have hbalanced : ∀ a ∈ c.sweeps ⟨8, 5⟩ ⟨3, 3⟩ ⟨3, 5⟩, a.Balanced :=
    forall_mem_sweeps.mpr ⟨⟨rfl, by decide, by decide, by decide⟩, rfl, by decide, by decide, by decide⟩
  have hexact : (c.inSameMode ⟨0, 0⟩).infer shapes = .ok output := by
    refine infer_eq_ok.mpr ⟨⟨8, 5⟩, ⟨3, 3⟩, ⟨3, 5⟩, hconvolved, forall_mem_sweeps.mpr ⟨?_, ?_⟩⟩
    · have hrows : outputLength .same 0 3 2 8 3 = .ok 3 := by rfl
      exact ⟨by decide, by decide, hrows⟩
    · have hcolumns : outputLength .same 0 1 1 5 3 = .ok 5 := by rfl
      exact ⟨by decide, by decide, hcolumns⟩
  obtain ⟨same, hinfer, hsame⟩ := (same_mode_balanced hmode ⟨0, 0⟩).2 _ _ _ _ _ hconvolved hbalanced
  rw [hexact] at hsame
  cases hsame
  exact ⟨hmode, hinfer, hexact⟩

end Convolution

end TensorGraph
