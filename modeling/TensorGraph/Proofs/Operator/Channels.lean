import TensorGraph.Proofs.Operator.Windows

/-!
# The channels of a convolution

A convolution reads a batch of images `[N, C_in, H, W]` with weights `[C_out, C_in, kH, kW]`. The layout names
the channels of an image twice: they are an axis of the images, and an axis of the weights. Inference makes
sure of everything in the layout but this:

* `Convolution.LaidOut` -- two operands of one element type and of rank 4, steps that are positive, kernels
  that are no longer than the input where windows have to be valid, and the row-major result
  `[N, C_out, h, w]`, with the two numbers of channels left apart;
* `Convolution.infer_of_laidOut` -- what is inferred does not depend on the channels of the weights;
* `Convolution.channels_agree_iff` -- so operands that are accepted have the whole layout exactly if their
  channels agree, and they are accepted all the same if they do not (`five_channels_for_three_accepted`).
-/

namespace TensorGraph

namespace Convolution

/-- Operands and result have the layout of the convolution: images with `depth` channels, and weights for
    images with `depth'` channels. -/
inductive LaidOut (c : Convolution) (depth depth' : Nat) : List Shape → Shape → Prop where
  | intro {image weights : Shape} {batch channels : Nat} {input kernel windows : Planar} :
      image.elementType = weights.elementType →
      image.lengths = [batch, depth, input.rows, input.columns] →
      weights.lengths = [channels, depth', kernel.rows, kernel.columns] →
      (∀ n ∈ c.stride.toList, 0 < n) →
      (∀ n ∈ c.dilation.toList, 0 < n) →
      (c.mode = .valid → kernel.rows ≤ input.rows ∧ kernel.columns ≤ input.columns) →
      LaidOut c depth depth' [image, weights]
        (.standard image.elementType [batch, channels, windows.rows, windows.columns])

variable {c : Convolution} {shapes : List Shape} {output : Shape}

/-- The numbers of channels are the second lengths of the operands. -/
theorem LaidOut.channels {depth depth' : Nat} (h : c.LaidOut depth depth' shapes output) :
    shapes.map (·.lengths[1]?) = [some depth, some depth'] := by
  cases h with
  | intro _ hi hk =>
    rw [List.map_cons, List.map_singleton, hi, hk]
    rfl

/-- There is one number of channels exactly if the two numbers agree. -/
theorem LaidOut.exists_matched_iff {depth depth' : Nat} (h : c.LaidOut depth depth' shapes output) :
    (∃ d, c.LaidOut d d shapes output) ↔ depth = depth' := by
  constructor
  · intro hmatched
    obtain ⟨d, hd⟩ := hmatched
    have hlist : [some d, some d] = [some depth, some depth'] := hd.channels.symm.trans h.channels
    cases hlist
    rfl
  · intro hsame
    subst hsame
    exact ⟨depth, h⟩

/-- Weights for another number of channels are laid out as well. -/
theorem LaidOut.of_other_channels {depth depth' n : Nat} {image weights other : Shape}
    (h : c.LaidOut depth depth' [image, weights] output) (ht : other.elementType = weights.elementType)
    (hl : other.lengths = weights.lengths.set 1 n) : c.LaidOut depth n [image, other] output := by
  cases h with
  | intro ht' hi hk hs hd hin =>
    rw [hk] at hl
    exact .intro (ht'.trans ht.symm) hi hl hs hd hin

theorem forall_mem_toList {p : Planar} : (∀ n ∈ p.toList, 0 < n) ↔ p.rows ≠ 0 ∧ p.columns ≠ 0 := by
  unfold Planar.toList
  rw [List.forall_mem_cons, List.forall_mem_singleton, Nat.pos_iff_ne_zero, Nat.pos_iff_ne_zero]

/-- **Everything that is accepted is laid out, channels apart.** -/
theorem exists_laidOut (h : c.infer shapes = .ok output) :
    ∃ depth depth', c.LaidOut depth depth' shapes output := by
  obtain ⟨input, kernel, windows, hconvolved, haxes⟩ := infer_eq_ok.mp h
  obtain ⟨⟨hs, hd, hrows⟩, hs', hd', hcolumns⟩ := forall_mem_sweeps.mp haxes
  cases hconvolved with
  | intro ht hi hk =>
    refine ⟨_, _, .intro ht hi hk (forall_mem_toList.mpr ⟨hs, hs'⟩) (forall_mem_toList.mpr ⟨hd, hd'⟩)
      fun hm => ?_⟩
    rw [hm] at hrows hcolumns
    exact ⟨(validLength_eq_ok.mp hrows).1, (validLength_eq_ok.mp hcolumns).1⟩

/-- **What is inferred does not depend on the channels of the weights.** -/
theorem infer_of_other_channels {image weights other : Shape} {n : Nat}
    (h : c.infer [image, weights] = .ok output) (ht : other.elementType = weights.elementType)
    (hl : other.lengths = weights.lengths.set 1 n) : c.infer [image, other] = .ok output := by
  obtain ⟨input, kernel, windows, hconvolved, haxes⟩ := infer_eq_ok.mp h
  refine infer_eq_ok.mpr ⟨input, kernel, windows, ?_, haxes⟩
  cases hconvolved with
  | intro ht' hi hk =>
    rw [hk] at hl
    exact .intro (ht'.trans ht.symm) hi hl

/-- **Where a convolution accepts matching operands only.** Whatever it accepts are two operands of one element
    type and of rank 4, with positive steps and, for valid windows, kernels no longer than the input; and it
    gives the row-major shape of the batch, the channels of the weights and two numbers of windows. The
    operands match, with one number of channels, exactly if the channels of the images are those that the
    weights are for. Nothing makes sure of that: weights for any other number of channels are accepted as
    well, with the same result. -/
theorem channels_agree_iff (h : c.infer shapes = .ok output) :
    ∃ depth depth', c.LaidOut depth depth' shapes output ∧
      ((∃ d, c.LaidOut d d shapes output) ↔ depth = depth') ∧
      ∀ image weights other n, shapes = [image, weights] → other.elementType = weights.elementType →
        other.lengths = weights.lengths.set 1 n →
        c.infer [image, other] = .ok output ∧ c.LaidOut depth n [image, other] output := by
  obtain ⟨depth, depth', hlaid⟩ := exists_laidOut h
  refine ⟨depth, depth', hlaid, hlaid.exists_matched_iff, fun image weights other n hs ht hl => ?_⟩
  subst hs
  exact ⟨infer_of_other_channels h ht hl, hlaid.of_other_channels ht hl⟩

/-- Images and weights with three channels match. The same images are accepted with weights for four, whose
    rows are laid out differently, and give the same shape. -/
theorem three_channels_match :
    let c : Convolution := ⟨⟨1, 0⟩, ⟨2, 1⟩, ⟨1, 1⟩, .valid⟩
    let image : Shape := .standard .f32 [1, 3, 7, 4]
    let weights : Shape := .standard .f32 [8, 3, 3, 2]
    let other : Shape := ⟨.f32, [⟨8, 0⟩, ⟨4, 1⟩, ⟨3, 4⟩, ⟨2, 12⟩]⟩
    let output : Shape := .standard .f32 [1, 8, 3, 3]
    c.infer [image, weights] = .ok output ∧ (∃ d, c.LaidOut d d [image, weights] output) ∧
      c.infer [image, other] = .ok output := by
  intro c image weights other output
  have hinfer : c.infer [image, weights] = .ok output := by
    refine infer_eq_ok.mpr ⟨⟨7, 4⟩, ⟨3, 2⟩, ⟨3, 3⟩, .intro rfl rfl rfl, forall_mem_sweeps.mpr ⟨?_, ?_⟩⟩
    · have hrows : validLength 2 7 3 = .ok 3 := by rfl
      exact ⟨by decide, by decide, hrows⟩
    · have hcolumns : validLength 1 4 2 = .ok 3 := by rfl
      exact ⟨by decide, by decide, hcolumns⟩
  obtain ⟨depth, depth', hlaid, hmatched, hother⟩ := channels_agree_iff hinfer
  have hthree : [some 3, some 3] = [some depth, some depth'] := hlaid.channels
  refine ⟨hinfer, hmatched.mpr ?_, (hother image weights other 4 rfl rfl rfl).1⟩
  cases hthree
  rfl

/-- Weights for five channels are accepted for images with three. -/
theorem five_channels_for_three_accepted :
    let image : Shape := .standard .f32 [1, 3, 4, 4]
    let weights : Shape := .standard .f32 [2, 5, 3, 3]
    let output : Shape := .standard .f32 [1, 2, 2, 2]
    Operator.ofValue "convolution" .null = .ok (.convolution default) ∧
      Operator.infer (.convolution default) [image, weights] = .ok output ∧
      image.lengths[1]? ≠ weights.lengths[1]? ∧
      ¬ ∃ d, LaidOut default d d [image, weights] output := by
  intro image weights output
  refine ⟨rfl, rfl, by decide, fun h => ?_⟩
  obtain ⟨d, hd⟩ := h
  have hchannels : [some 3, some 5] = [some d, some d] := hd.channels
  cases hchannels

end Convolution

end TensorGraph
