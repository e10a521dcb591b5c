import Mathlib.Order.Bounds.Basic
import TensorGraph.Proofs.Operator.Totality

/-!
# The windows of a convolution

A convolution counts windows on two spatial axes, and on each of them five numbers decide: padding,
stride, dilation, and the lengths of input and kernel (`Sweep`). `Convolution.infer_eq_ok` splits
inference into the two axes; after that an axis is looked at alone.

* Explicit padding -- the count is a formula over signed words. `Convolution.explicit_count_exact_iff`:
  it is the formula over the numbers themselves, and no number is taken for a negative one, exactly when
  all five lie below `2 ^ 63`.
* Valid windows -- the windows counted are those that start where a kernel without gaps fits.
  `Convolution.valid_count_exact_iff`: they are as many as fit with the gaps of the dilation exactly when
  the gaps take no more room than is left behind the last window.

What fits is decided by the last position of the last window (`Sweep.isGreatest_succ_iff`). The largest
count comes from the room behind a kernel with its gaps (`Sweep.isGreatest_roomCount`), and this is what
explicit padding of 0 computes (`Convolution.explicitLength_unpadded`).
-/

namespace TensorGraph

open Outcome

/-! ## 1. Spatial axes -/

/-- One spatial axis of a convolution: the numbers that decide how many windows there are, and how many
    there are. -/
structure Sweep where
  padding : Nat
  stride : Nat
  dilation : Nat
  input : Nat
  kernel : Nat
  windows : Nat

/-- A batch of images and the weights for them, with the shape that comes of the given numbers of windows;
    `input` and `kernel` are the spatial lengths of the one and the other. -/
inductive Convolved (input kernel windows : Planar) : List Shape → Shape → Prop where
  | intro {image weights : Shape} {batch depth channels depth' : Nat} :
      image.elementType = weights.elementType →
      image.lengths = [batch, depth, input.rows, input.columns] →
      weights.lengths = [channels, depth', kernel.rows, kernel.columns] →
      Convolved input kernel windows [image, weights]
        (.standard image.elementType [batch, channels, windows.rows, windows.columns])

namespace Convolution

/-- What a convolution was made of shows in the lengths. -/
theorem lengths_of_convolved {input kernel windows : Planar} {image weights output : Shape}
    (h : Convolved input kernel windows [image, weights] output) :
    ∃ batch depth channels depth', image.lengths = [batch, depth, input.rows, input.columns] ∧
      weights.lengths = [channels, depth', kernel.rows, kernel.columns] ∧
      output.lengths = [batch, channels, windows.rows, windows.columns] := by
  generalize hs : [image, weights] = shapes at h
  cases h with
  | intro _ hi hk =>
    cases hs
    exact ⟨_, _, _, _, hi, hk, Shape.lengths_standard _ _⟩

/-- Other numbers of windows over the same images and weights give another shape. -/
theorem exists_convolved {input kernel windows : Planar} {shapes : List Shape} {output : Shape}
    (h : Convolved input kernel windows shapes output) (windows' : Planar) :
    ∃ other, Convolved input kernel windows' shapes other ∧ (output = other ↔ windows = windows') := by
  cases h with
  | intro ht hi hk =>
    refine ⟨_, .intro ht hi hk, fun heq => ?_, fun heq => by rw [heq]⟩
    have hlengths := (Shape.standard_inj.mp heq).2
    cases windows
    cases windows'
    cases hlengths
    rfl

/-- The axis of the rows. -/
def rowSweep (c : Convolution) (input kernel windows : Planar) : Sweep :=
  ⟨c.padding.rows, c.stride.rows, c.dilation.rows, input.rows, kernel.rows, windows.rows⟩

/-- The axis of the columns. -/
def columnSweep (c : Convolution) (input kernel windows : Planar) : Sweep :=
  ⟨c.padding.columns, c.stride.columns, c.dilation.columns, input.columns, kernel.columns,
    windows.columns⟩

/-- The spatial axes of a convolution. -/
def sweeps (c : Convolution) (input kernel windows : Planar) : List Sweep :=
  [c.rowSweep input kernel windows, c.columnSweep input kernel windows]

/-- What holds on both axes. -/
theorem forall_mem_sweeps {c : Convolution} {input kernel windows : Planar} {p : Sweep → Prop} :
    (∀ a ∈ c.sweeps input kernel windows, p a) ↔
      p (c.rowSweep input kernel windows) ∧ p (c.columnSweep input kernel windows) := by
  unfold sweeps
  rw [List.forall_mem_cons, List.forall_mem_singleton]

/-- **A convolution is inferred axis by axis**: from an image batch and weights of one type and of rank 4,
    with steps that are positive. -/
theorem infer_eq_ok {c : Convolution} {shapes : List Shape} {output : Shape} :
    c.infer shapes = .ok output ↔
      ∃ input kernel windows, Convolved input kernel windows shapes output ∧
        ∀ a ∈ c.sweeps input kernel windows, a.stride ≠ 0 ∧ a.dilation ≠ 0 ∧
          outputLength c.mode a.padding a.stride a.dilation a.input a.kernel = .ok a.windows := by
  constructor
  · intro h
    unfold infer at h
    obtain ⟨⟨image, weights⟩, hs, h⟩ := bind_eq_ok.mp h
    obtain rfl := (Operands.two_eq_ok _ _).mp hs
    obtain ⟨ht, h⟩ := then_eq_ok.mp h
    obtain ⟨_, h⟩ := then_eq_ok.mp h
    obtain ⟨_, h⟩ := then_eq_ok.mp h
    rw [Operands.sameType, Operands.require_eq_ok, Operands.agree_pair] at ht
    simp only [failIn_bind, checkIn_eq_ok, Bool.or_eq_true, not_or, Bool.not_eq_true] at h
    obtain ⟨⟨hstride, hdilation⟩, h⟩ := h
    split at h
    · rename_i batch depth rows columns channels depth' kernelRows kernelColumns hi hk
      obtain ⟨height, hheight, h⟩ := bind_eq_ok.mp h
      obtain ⟨width, hwidth, h⟩ := bind_eq_ok.mp h
      cases h
      have hs := Planar.hasZero_eq_false.mp hstride
      have hd := Planar.hasZero_eq_false.mp hdilation
      refine ⟨⟨rows, columns⟩, ⟨kernelRows, kernelColumns⟩, ⟨height, width⟩, .intro ht hi hk, ?_⟩
      exact forall_mem_sweeps.mpr ⟨⟨hs.1, hd.1, hheight⟩, hs.2, hd.2, hwidth⟩
    · cases h
  · intro h
    obtain ⟨input, kernel, windows, hconvolved, haxes⟩ := h
    obtain ⟨⟨hs, hd, hheight⟩, hs', hd', hwidth⟩ := forall_mem_sweeps.mp haxes
    cases hconvolved with
    | @intro image weights _ _ _ _ ht hi hk =>
      have hstride : c.stride.hasZero = false := Planar.hasZero_eq_false.mpr ⟨hs, hs'⟩
      have hdilation : c.dilation.hasZero = false := Planar.hasZero_eq_false.mpr ⟨hd, hd'⟩
      have hranks : image.rank = 4 ∧ weights.rank = 4 :=
        ⟨Shape.rank_of_lengths hi, Shape.rank_of_lengths hk⟩
      have hsame : image.rank = weights.rank := hranks.1.trans hranks.2.symm
      have hall : [image, weights].all (fun s => s.rank == 4) = true := by simp [hranks]
      unfold infer
      refine bind_eq_ok.mpr ⟨(image, weights), (Operands.two_eq_ok _ _).mpr rfl, ?_⟩
      refine then_eq_ok.mpr ⟨(Operands.require_eq_ok _ _ _).mpr ((Operands.agree_pair _ _ _ _).mpr ht), ?_⟩
      refine then_eq_ok.mpr
        ⟨(Operands.require_eq_ok _ _ _).mpr ((Operands.agree_pair _ _ _ _).mpr hsame), ?_⟩
      refine then_eq_ok.mpr ⟨(Operands.require_eq_ok _ _ _).mpr hall, ?_⟩
      simp only [failIn_bind, checkIn_eq_ok, hstride, hdilation, hi, hk, Bool.or_false,
        Bool.false_eq_true, not_false_eq_true, true_and]
      exact bind_eq_ok.mpr ⟨_, hheight, bind_eq_ok.mpr ⟨_, hwidth, rfl⟩⟩

end Convolution

/-! ## 2. Explicit padding -/

/-- The number of windows under explicit padding, over integers of any size. -/
def explicitCount (padding stride dilation input kernel : Int) : Int :=
  max 1 ((input - (1 + dilation * (kernel - 1)) + 2 * padding).tdiv stride + 1)

namespace Sweep

/-- The numbers that decide how many windows there are. -/
def numbers (a : Sweep) : List Nat := [a.padding, a.stride, a.dilation, a.input, a.kernel]

/-- The positions from the first to the last that a kernel covers. -/
def extent (a : Sweep) : Int := 1 + a.dilation * (a.kernel - 1)

/-- The number of windows by the numbers of the axis. -/
def exactCount (a : Sweep) : Int :=
  explicitCount a.padding a.stride a.dilation a.input a.kernel

/-- The number of windows by the numbers of the axis as they read as signed words. -/
def signedCount (a : Sweep) : Int :=
  explicitCount (Word.signed a.padding) (Word.signed a.stride) (Word.signed a.dilation)
    (Word.signed a.input) (Word.signed a.kernel)

/-- A kernel that covers more than the padded input has one window. -/
theorem exactCount_of_oversize {a : Sweep} (h : a.input + 2 * a.padding < a.extent) :
    a.exactCount = 1 := by
  unfold exactCount explicitCount
  unfold extent at h
  have hroom : (a.input : Int) - (1 + a.dilation * (a.kernel - 1)) + 2 * a.padding ≤ 0 := by omega
  -- a quotient that drops its fraction has the sign of what is divided
  have hquotient := Int.tdiv_nonneg (Int.neg_nonneg_of_nonpos hroom) (Int.natCast_nonneg a.stride)
  rw [Int.neg_tdiv] at hquotient
  omega

theorem signedCount_eq {a : Sweep} (h : ∀ n ∈ a.numbers, n < 2 ^ 63) :
    a.signedCount = a.exactCount := by
  have hself : ∀ n ∈ a.numbers, Word.signed n = n := fun n hn => (Word.signed_eq_self n).mpr (h n hn)
  unfold numbers at hself
  simp only [List.forall_mem_cons] at hself
  obtain ⟨hp, hs, hd, hi, hk, _⟩ := hself
  unfold signedCount exactCount
  rw [hp, hs, hd, hi, hk]

end Sweep

namespace Convolution

/-- **The explicit length is the formula over signed words**, as long as every step is one. -/
theorem explicitLength_eq_ok {padding stride dilation input kernel n : Nat} :
    explicitLength padding stride dilation input kernel = .ok n ↔
      (∀ i ∈ explicitSteps padding stride dilation input kernel, Word.isSigned i = true) ∧
        (n : Int) = explicitCount (Word.signed padding) (Word.signed stride) (Word.signed dilation)
          (Word.signed input) (Word.signed kernel) := by
  have hcount (i : Int) : n = (max 1 i).toNat ↔ (n : Int) = max 1 i := by omega
  unfold explicitLength explicitSteps explicitCount
  simp only [signedWord_bind_eq_ok, pure_eq_ok, List.forall_mem_cons, List.not_mem_nil,
    false_implies, implies_true, and_true, and_assoc, hcount]

/-- **Where explicit padding counts exactly.** On each axis the number of windows is what the formula gives
    for the numbers as they read as signed words. It is what the formula gives for the numbers themselves,
    a single window for a kernel that covers more than the padded input, with no number taken for a
    negative one, exactly where all numbers of the axis lie below `2 ^ 63`. -/
theorem explicit_count_exact_iff {c : Convolution} (hm : c.mode = .explicit) {shapes : List Shape}
    {output : Shape} (h : c.infer shapes = .ok output) :
    ∃ input kernel windows, Convolved input kernel windows shapes output ∧
      ∀ a ∈ c.sweeps input kernel windows,
        (a.windows : Int) = a.signedCount ∧
        (((a.windows : Int) = a.exactCount ∧
            (a.input + 2 * a.padding < a.extent → a.windows = 1) ∧
            ∀ n ∈ a.numbers, Word.signed n = n) ↔
          ∀ n ∈ a.numbers, n < 2 ^ 63) := by
  obtain ⟨input, kernel, windows, hconvolved, haxes⟩ := infer_eq_ok.mp h
  refine ⟨input, kernel, windows, hconvolved, fun a ha => ?_⟩
  obtain ⟨_, _, hlength⟩ := haxes a ha
  rw [hm] at hlength
  have hcount : (a.windows : Int) = a.signedCount := (explicitLength_eq_ok.mp hlength).2
  refine ⟨hcount, fun hexact n hn => (Word.signed_eq_self n).mp (hexact.2.2 n hn), fun hsmall => ?_⟩
  have hexact : (a.windows : Int) = a.exactCount := hcount.trans (Sweep.signedCount_eq hsmall)
  refine ⟨hexact, fun hover => ?_, fun n hn => (Word.signed_eq_self n).mpr (hsmall n hn)⟩
  have hone := Sweep.exactCount_of_oversize hover
  omega

/-- A padded axis and one on which the dilated kernel covers more than the input: four windows and one. -/
theorem padded_and_oversized_counted :
    let c : Convolution := ⟨⟨1, 0⟩, ⟨2, 1⟩, ⟨1, 2⟩, .explicit⟩
    let shapes : List Shape := [.standard .f32 [1, 3, 7, 4], .standard .f32 [8, 3, 3, 3]]
    ∃ output, c.infer shapes = .ok output ∧ output.lengths = [1, 8, 4, 1] ∧
      ∃ input kernel windows, Convolved input kernel windows shapes output ∧
        ∀ a ∈ c.sweeps input kernel windows, (a.windows : Int) = a.exactCount := by
  intro c shapes
  have hmode : c.mode = .explicit := rfl
  have hinfer : c.infer shapes = .ok (.standard .f32 [1, 8, 4, 1]) := by
    refine infer_eq_ok.mpr ⟨⟨7, 4⟩, ⟨3, 3⟩, ⟨4, 1⟩, .intro rfl rfl rfl, forall_mem_sweeps.mpr ⟨?_, ?_⟩⟩
    · have hrows : explicitLength 1 2 1 7 3 = .ok 4 := by rfl
      exact ⟨by decide, by decide, hrows⟩
    · have hcolumns : explicitLength 0 1 2 4 3 = .ok 1 := by rfl
      exact ⟨by decide, by decide, hcolumns⟩
  obtain ⟨input, kernel, windows, hconvolved, haxes⟩ := explicit_count_exact_iff hmode hinfer
  refine ⟨_, hinfer, rfl, input, kernel, windows, hconvolved, fun a ha => ?_⟩
  have hsmall : ∀ a ∈ c.sweeps input kernel windows, ∀ n ∈ a.numbers, n < 2 ^ 63 := by
    obtain ⟨_, _, _, _, hi, hk, _⟩ := lengths_of_convolved hconvolved
    cases input
    cases kernel
    cases hi
    cases hk
    refine forall_mem_sweeps.mpr ⟨?_, ?_⟩
    · show ∀ n ∈ [1, 2, 1, 7, 3], n < 2 ^ 63
      decide
    · show ∀ n ∈ [0, 1, 2, 4, 3], n < 2 ^ 63
      decide
  exact ((haxes a ha).2.mpr (hsmall a ha)).1

/-- A stride of the largest word reads as -1. It is accepted as an attribute, and a kernel that is longer
    than the input, for which there is a single window, is given three. -/
theorem largest_stride_miscounts :
    let c : Convolution := ⟨⟨0, 0⟩, ⟨2 ^ 64 - 1, 1⟩, ⟨1, 1⟩, .explicit⟩
    let axis : Sweep := ⟨0, 2 ^ 64 - 1, 1, 10, 12, 3⟩
    Operator.ofValue "convolution" (.record [("stride", .ofNats [2 ^ 64 - 1, 1])]) =
        .ok (.convolution c) ∧
      c.infer [.standard .f32 [1, 1, 10, 10], .standard .f32 [1, 1, 12, 10]] =
        .ok (.standard .f32 [1, 1, 3, 1]) ∧
      axis ∈ c.sweeps ⟨10, 10⟩ ⟨12, 10⟩ ⟨3, 1⟩ ∧ axis.input + 2 * axis.padding < axis.extent ∧
      axis.exactCount = 1 ∧ (axis.windows : Int) ≠ axis.exactCount ∧
      Word.signed axis.stride = -1 := by
  refine ⟨rfl, rfl, List.mem_cons_self, ?_, ?_, ?_, ?_⟩
  · decide
  · decide
  · decide
  · decide

end Convolution

/-! ## 3. Windows inside the input -/

namespace Sweep

variable {a : Sweep}

/-- The first `count` windows read positions of the input only. -/
def Inside (a : Sweep) (count : Nat) : Prop :=
  ∀ i < count, ∀ t < a.kernel, i * a.stride + t * a.dilation < a.input

/-- The kernel with its gaps is no longer than the input. -/
def Fits (a : Sweep) : Prop := a.extent ≤ a.input

instance : Decidable a.Fits := inferInstanceAs (Decidable (a.extent ≤ a.input))

/-- The gaps in a kernel take no more room than a kernel without gaps leaves behind its last window. -/
def GapsFit (a : Sweep) : Prop :=
  (a.kernel - 1) * (a.dilation - 1) ≤ (a.input - a.kernel) % a.stride

instance : Decidable a.GapsFit := inferInstanceAs (Decidable (_ ≤ (a.input - a.kernel) % a.stride))

/-- The positions behind its first that a kernel covers. -/
def spread (a : Sweep) : Nat := (a.kernel - 1) * a.dilation

/-- The positions behind a kernel at the start of the input. -/
def room (a : Sweep) : Nat := a.input - 1 - a.spread

/-- The number of windows inside the input, for a kernel that fits: one for each stride there is room for,
    and the first. -/
def roomCount (a : Sweep) : Nat := a.room / a.stride + 1

theorem fits_iff (hk : 1 ≤ a.kernel) : a.Fits ↔ a.spread < a.input := by
  have hgaps : (a.kernel : Int) - 1 = ((a.kernel - 1 : Nat) : Int) := by omega
  unfold Fits extent spread
  rw [hgaps, ← Int.natCast_mul, Nat.mul_comm]
  omega

/-- It is enough to look at the last position of the last window. -/
theorem inside_succ_iff (hk : 1 ≤ a.kernel) (n : Nat) :
    a.Inside (n + 1) ↔ n * a.stride + a.spread < a.input := by
  constructor
  · intro h
    exact h n (Nat.lt_succ_self n) (a.kernel - 1) (Nat.sub_one_lt_of_lt hk)
  · intro h i hi t ht
    have hstart : i * a.stride ≤ n * a.stride := Nat.mul_le_mul_right _ (Nat.le_of_lt_succ hi)
    have hlast : t * a.dilation ≤ a.spread := Nat.mul_le_mul_right _ (Nat.le_sub_one_of_lt ht)
    omega

/-- **A number of windows is the largest** that the input has room for exactly when they fit and one more
    does not. -/
theorem isGreatest_succ_iff (hk : 1 ≤ a.kernel) (n : Nat) :
    IsGreatest {count | a.Inside count} (n + 1) ↔
      n * a.stride + a.spread < a.input ∧ a.input ≤ (n + 1) * a.stride + a.spread := by
  rw [← inside_succ_iff hk, ← Nat.not_lt, ← inside_succ_iff hk]
  refine and_congr_right fun _ => ⟨fun h hmore => ?_, fun h count hcount => ?_⟩
  · have hle : n + 2 ≤ n + 1 := h hmore
    omega
  · by_contra hmore
    exact h fun i hi => hcount i (by omega)

/-- **The windows that fit** are as many as there are strides in the room behind a kernel, and one. -/
theorem isGreatest_roomCount (hk : 1 ≤ a.kernel) (hs : a.stride ≠ 0) (hfits : a.Fits) :
    IsGreatest {count | a.Inside count} a.roomCount := by
  rw [fits_iff hk] at hfits
  unfold roomCount
  rw [isGreatest_succ_iff hk, Nat.succ_mul]
  have hroom : a.room = a.input - 1 - a.spread := rfl
  have hlow := Nat.div_mul_le_self a.room a.stride
  have hhigh := Nat.lt_div_mul_add (a := a.room) (Nat.pos_of_ne_zero hs)
  omega

/-- **As many windows fit as without gaps** exactly when the gaps fit. -/
theorem isGreatest_iff_gapsFit (hk : 1 ≤ a.kernel) (hs : a.stride ≠ 0) (hd : a.dilation ≠ 0)
    (hin : a.kernel ≤ a.input) :
    IsGreatest {count | a.Inside count} ((a.input - a.kernel) / a.stride + 1) ↔ a.GapsFit := by
  rw [isGreatest_succ_iff hk, Nat.succ_mul]
  unfold GapsFit
  -- the room without gaps, split into whole strides and the rest
  have hsplit := Nat.div_add_mod' (a.input - a.kernel) a.stride
  have hrest := Nat.mod_lt (a.input - a.kernel) (Nat.pos_of_ne_zero hs)
  have hgaps : a.spread = (a.kernel - 1) * (a.dilation - 1) + (a.kernel - 1) := by
    unfold spread
    rw [← Nat.mul_succ, Nat.succ_eq_add_one, Nat.sub_add_cancel (Nat.pos_of_ne_zero hd)]
  omega

/-- The positions that a kernel covers are computed as they are if they are as few as signed words: a dilation
    that is none leaves no room for a second position. -/
theorem signed_spread (hk : 1 ≤ a.kernel) (hd : a.dilation ≠ 0) (h : a.spread < 2 ^ 63 - 1) :
    Word.signed a.kernel - 1 = ((a.kernel - 1 : Nat) : Int) ∧
      Word.signed a.dilation * (Word.signed a.kernel - 1) = a.spread := by
  have hgaps : a.kernel - 1 ≤ a.spread := Nat.le_mul_of_pos_right _ (Nat.pos_of_ne_zero hd)
  have hkernel : Word.signed a.kernel - 1 = ((a.kernel - 1 : Nat) : Int) := by
    rw [(Word.signed_eq_self a.kernel).mpr (by omega)]
    omega
  refine ⟨hkernel, ?_⟩
  unfold spread at h ⊢
  rw [hkernel, Int.natCast_mul, Int.mul_comm]
  rcases Nat.eq_zero_or_pos (a.kernel - 1) with h0 | hpos
  · rw [h0]
    simp
  · have hle := Nat.le_mul_of_pos_left a.dilation hpos
    rw [(Word.signed_eq_self a.dilation).mpr (by omega)]

end Sweep

/-- A quotient of words whose divisor reads as a signed word: where a large divisor is taken for a negative
    number, the quotient is 0 or below, and 0 is what it should be. -/
theorem max_tdiv_signed {room stride : Nat} (hs : stride < Word.bound) (hr : room < 2 ^ 63) :
    max 1 ((room : Int).tdiv (Word.signed stride) + 1) = ((room / stride + 1 : Nat) : Int) := by
  rcases Nat.lt_or_ge stride (2 ^ 63) with hsmall | hlarge
  · rw [(Word.signed_eq_self stride).mpr hsmall, ← Int.ofNat_tdiv]
    generalize room / stride = quotient
    omega
  · have hquotient : (room : Int).tdiv (Word.signed stride) ≤ 0 := by
      rw [Word.signed_of_large hs hlarge]
      refine Int.tdiv_nonpos_of_nonneg_of_nonpos (Int.natCast_nonneg room) ?_
      omega
    rw [Nat.div_eq_of_lt (Nat.lt_of_lt_of_le hr hlarge)]
    omega

namespace Convolution

/-- **The valid length counts strides in the room that a kernel without gaps leaves**, and one. -/
theorem validLength_eq_ok {stride input kernel n : Nat} :
    validLength stride input kernel = .ok n ↔ kernel ≤ input ∧ input - kernel + 1 < Word.bound ∧
      n = (input - kernel) / stride + 1 := by
  unfold validLength
  rw [checkIn_eq_ok, Nat.not_lt, bind_eq_ok]
  simp only [word_eq_ok, pure_eq_ok, and_assoc, exists_and_left, exists_eq_left', ceilDiv_succ]

/-- Without padding the explicit length counts the windows inside the input, for a kernel that fits. -/
theorem explicitLength_unpadded {a : Sweep} (hk : 1 ≤ a.kernel) (hd : a.dilation ≠ 0)
    (hs : a.stride < Word.bound) (hi : a.input < 2 ^ 63) (hfits : a.Fits) :
    explicitLength 0 a.stride a.dilation a.input a.kernel = .ok a.roomCount := by
  rw [Sweep.fits_iff hk] at hfits
  obtain ⟨hkernel, hspread⟩ := Sweep.signed_spread hk hd (by omega)
  have hgaps : a.kernel - 1 ≤ a.spread := Nat.le_mul_of_pos_right _ (Nat.pos_of_ne_zero hd)
  have hinput : Word.signed a.input = a.input := (Word.signed_eq_self a.input).mpr hi
  have hroom : Word.signed a.input - (1 + Word.signed a.dilation * (Word.signed a.kernel - 1)) +
      2 * Word.signed 0 = a.room := by
    rw [hinput, hspread, (Word.signed_eq_self 0).mpr (by decide), Sweep.room]
    omega
  have hsmall : a.room + 1 < 2 ^ 63 := by
    rw [Sweep.room]
    omega
  have hquotient := Int.natAbs_tdiv_le_natAbs (a.room : Int) (Word.signed a.stride)
  refine explicitLength_eq_ok.mpr ⟨?_, ?_⟩
  · unfold explicitSteps
    dsimp only
    rw [hroom, hspread, hkernel, hinput, (Word.signed_eq_self 0).mpr (by decide)]
    generalize Int.tdiv _ _ = quotient at hquotient ⊢
    simp only [List.forall_mem_cons, Word.isSigned_iff]
    refine ⟨?_, ?_, ?_, ?_, ?_, ?_, ?_, ?_, nofun⟩ <;> omega
  · unfold explicitCount
    rw [hroom, max_tdiv_signed hs (Nat.lt_of_succ_lt hsmall)]
    rfl

/-- A convolution with an explicit padding of 0 has the windows that there is room for. -/
theorem exists_unpadded {c : Convolution} {input kernel windows : Planar} {shapes : List Shape}
    {output : Shape} (h : Convolved input kernel windows shapes output)
    (haxes : ∀ a ∈ c.sweeps input kernel windows, a.stride ≠ 0 ∧ a.dilation ≠ 0 ∧
      explicitLength 0 a.stride a.dilation a.input a.kernel = .ok a.roomCount) :
    ∃ unpadded,
      Convolution.infer { c with padding := ⟨0, 0⟩, mode := .explicit } shapes = .ok unpadded ∧
      (output = unpadded ↔ ∀ a ∈ c.sweeps input kernel windows, a.windows = a.roomCount) := by
  obtain ⟨unpadded, hconvolved, heq⟩ := exists_convolved h
    ⟨(c.rowSweep input kernel windows).roomCount, (c.columnSweep input kernel windows).roomCount⟩
  refine ⟨unpadded, ?_, heq.trans ?_⟩
  · exact infer_eq_ok.mpr
      ⟨input, kernel, _, hconvolved, forall_mem_sweeps.mpr (forall_mem_sweeps.mp haxes)⟩
  · rw [forall_mem_sweeps]
    cases windows
    exact Iff.of_eq (Planar.mk.injEq ..)

/-- **Where valid windows are those inside the input.** On each axis with a kernel of at least one position,
    the number of windows is the largest for which all windows read positions of the input only, exactly
    where the gaps of the dilated kernel take no more room than is left behind the last window. For
    kernels that fit with their gaps, and inputs that are read as they are, the lengths are those that
    explicit padding of 0 gives under the same condition. -/
theorem valid_count_exact_iff {c : Convolution} (hm : c.mode = .valid) {shapes : List Shape}
    {output : Shape} (h : c.infer shapes = .ok output) :
    ∃ input kernel windows, Convolved input kernel windows shapes output ∧
      (∀ a ∈ c.sweeps input kernel windows, 1 ≤ a.kernel →
        (IsGreatest {count | a.Inside count} a.windows ↔ a.GapsFit)) ∧
      ((∀ a ∈ c.sweeps input kernel windows,
          1 ≤ a.kernel ∧ a.Fits ∧ a.stride < Word.bound ∧ a.input < 2 ^ 63) →
        ∃ unpadded,
          Convolution.infer { c with padding := ⟨0, 0⟩, mode := .explicit } shapes = .ok unpadded ∧
          (output = unpadded ↔ ∀ a ∈ c.sweeps input kernel windows, a.GapsFit)) := by
  obtain ⟨input, kernel, windows, hconvolved, haxes⟩ := infer_eq_ok.mp h
  have hgreatest : ∀ a ∈ c.sweeps input kernel windows, 1 ≤ a.kernel →
      (IsGreatest {count | a.Inside count} a.windows ↔ a.GapsFit) := by
    intro a ha hk
    obtain ⟨hs, hd, hlength⟩ := haxes a ha
    rw [hm] at hlength
    obtain ⟨hin, _, hcount⟩ := validLength_eq_ok.mp hlength
    rw [hcount]
    exact Sweep.isGreatest_iff_gapsFit hk hs hd hin
  refine ⟨input, kernel, windows, hconvolved, hgreatest, fun hfit => ?_⟩
  obtain ⟨unpadded, hunpadded, heq⟩ := exists_unpadded hconvolved fun a ha => by
    obtain ⟨hk, hfits, hword, hsmall⟩ := hfit a ha
    exact ⟨(haxes a ha).1, (haxes a ha).2.1,
      explicitLength_unpadded hk (haxes a ha).2.1 hword hsmall hfits⟩
  refine ⟨unpadded, hunpadded, heq.trans (forall₂_congr fun a ha => ?_)⟩
  -- an axis has the windows of explicit padding of 0 if it has as many as fit
  obtain ⟨hk, hfits, _⟩ := hfit a ha
  have hroom := Sweep.isGreatest_roomCount hk (haxes a ha).1 hfits
  rw [← hgreatest a ha hk]
  exact ⟨fun heq => heq ▸ hroom, fun hwindows => hwindows.unique hroom⟩

/-- A kernel with one gap, for which the stride leaves just the room, and one without gaps. -/
theorem gap_fits_in_stride :
    let c : Convolution := ⟨⟨0, 0⟩, ⟨2, 1⟩, ⟨2, 1⟩, .valid⟩
    let shapes : List Shape := [.standard .f32 [1, 3, 7, 4], .standard .f32 [8, 3, 2, 3]]
    ∃ output, c.infer shapes = .ok output ∧ output.lengths = [1, 8, 3, 2] ∧
      Convolution.infer { c with padding := ⟨0, 0⟩, mode := .explicit } shapes = .ok output ∧
      ∃ input kernel windows, Convolved input kernel windows shapes output ∧
        ∀ a ∈ c.sweeps input kernel windows, IsGreatest {count | a.Inside count} a.windows := by
  intro c shapes
  have hmode : c.mode = .valid := rfl
  have hinfer : c.infer shapes = .ok (.standard .f32 [1, 8, 3, 2]) := by
    refine infer_eq_ok.mpr ⟨⟨7, 4⟩, ⟨2, 3⟩, ⟨3, 2⟩, .intro rfl rfl rfl, forall_mem_sweeps.mpr ⟨?_, ?_⟩⟩
    · have hrows : validLength 2 7 2 = .ok 3 := by rfl
      exact ⟨by decide, by decide, hrows⟩
    · have hcolumns : validLength 1 4 3 = .ok 2 := by rfl
      exact ⟨by decide, by decide, hcolumns⟩
  obtain ⟨input, kernel, windows, hconvolved, hgreatest, hsame⟩ := valid_count_exact_iff hmode hinfer
  have haxes : ∀ a ∈ c.sweeps input kernel windows, (1 ≤ a.kernel ∧ a.Fits ∧ a.stride < Word.bound ∧
      a.input < 2 ^ 63) ∧ a.GapsFit := by
    obtain ⟨_, _, _, _, hi, hk, hw⟩ := lengths_of_convolved hconvolved
    cases input
    cases kernel
    cases windows
    cases hi
    cases hk
    cases hw
    exact forall_mem_sweeps.mpr ⟨by decide, by decide⟩
  obtain ⟨unpadded, hunpadded, heq⟩ := hsame fun a ha => (haxes a ha).1
  obtain rfl := heq.mpr fun a ha => (haxes a ha).2
  exact ⟨_, hinfer, rfl, hunpadded, input, kernel, windows, hconvolved,
    fun a ha => (hgreatest a ha (haxes a ha).1.1).mpr (haxes a ha).2⟩

/-- A kernel of three positions with a gap between each two covers an input of five. Three windows are
    counted, of which the last reads the position 6; there is room for the first only, which is what
    explicit padding of 0 gives. -/
theorem dilated_windows_outside :
    let c : Convolution := ⟨⟨0, 0⟩, ⟨1, 1⟩, ⟨2, 2⟩, .valid⟩
    let shapes : List Shape := [.standard .f32 [1, 1, 5, 5], .standard .f32 [1, 1, 3, 3]]
    let axis : Sweep := ⟨0, 1, 2, 5, 3, 3⟩
    Operator.ofValue "convolution"
        (.record [("dilation", .ofNats [2, 2]), ("padding_mode", .text "valid")]) =
        .ok (.convolution c) ∧
      c.infer shapes = .ok (.standard .f32 [1, 1, 3, 3]) ∧
      axis ∈ c.sweeps ⟨5, 5⟩ ⟨3, 3⟩ ⟨3, 3⟩ ∧ axis.Fits ∧ ¬ axis.Inside axis.windows ∧
      Convolution.infer { c with mode := .explicit } shapes = .ok (.standard .f32 [1, 1, 1, 1]) := by
  refine ⟨rfl, rfl, List.mem_cons_self, ?_, ?_, rfl⟩
  · decide
  · intro hinside
    have hread : 2 * 1 + 2 * 2 < 5 := hinside 2 (by decide) 2 (by decide)
    contradiction

end Convolution

end TensorGraph
