import TensorGraph.Proofs.Operands
import TensorGraph.Proofs.Operator.Blame
import TensorGraph.Proofs.Shape.Reach

/-!
# Where inference leaves its word

Shape inference computes with lengths and attributes in words of 64 bits. Some of its steps ask
beforehand whether there is room -- the dimensions of a reshape, an outline -- and report it when
there is none. Others do not ask: the end of a broadcast run, the padded length under a window, the
steps of a convolution, and the operand's own element count in a reshape.

* `Operator.Overflows` -- the operators and operands for which such a step leaves its word, in terms
  of the attributes and the lengths alone;
* `Operator.infer_eq_fault` -- these are exactly the ones for which inference faults;
* `Operator.SignedReads` -- the numbers that a convolution reads as signed words, which turns those
  of the upper half negative without a word about it;
* `Operator.infer_reported_iff` -- the two together.

Everywhere else inference gives a shape or an error about its operands or attributes.
-/

namespace TensorGraph

open Outcome

/-! ## 1. Broadcasting -/

/-- The end of the run is no word: the operand has axes to align, and the axis is that large. -/
def Shape.RunOverflows (operand : Shape) (axis : Nat) : Prop :=
  operand.isSingle = false ∧ Word.bound ≤ axis + operand.rank

theorem Shape.broadcast_eq_fault (target operand : Shape) (axis : Nat) :
    Shape.broadcast target operand axis = .error .fault ↔ operand.RunOverflows axis := by
  unfold broadcast RunOverflows
  cases operand.isSingle with
  | true => simp only [if_true, check_eq_fault, reduceCtorEq, and_false, false_and]
  | false =>
    rw [if_neg Bool.false_ne_true, word_bind_eq_fault]
    simp only [check_eq_fault, reduceCtorEq, and_false, or_false, true_and]

theorem Alignment.infer_eq_fault (axis : Nat) (shapes : List Shape) :
    Alignment.infer axis shapes = .error .fault ↔
      ∃ target operand, shapes = [target, operand] ∧ operand.RunOverflows axis := by
  unfold infer
  rw [bind_eq_fault]
  simp only [Operands.two_ne_fault, Operands.two_eq_ok, withOperator_eq_fault,
    Shape.broadcast_eq_fault, false_or, Prod.exists]

theorem Binary.infer_eq_fault (b : Binary) (shapes : List Shape) :
    b.infer shapes = .error .fault ↔
      ∃ left right axis, shapes = [left, right] ∧ left.elementType = right.elementType ∧
        b.axis = some axis ∧ right.RunOverflows axis := by
  unfold infer
  rw [bind_eq_fault]
  simp only [Operands.two_ne_fault, Operands.two_eq_ok, false_or, Prod.exists]
  refine exists_congr fun left => exists_congr fun right => ?_
  rw [exists_and_left]
  refine and_congr_right ?_
  intro h
  cases h
  rw [then_eq_fault, Operands.sameType, Operands.require_eq_ok, Operands.agree_pair]
  simp only [Operands.require_ne_fault, false_or]
  rw [exists_and_left]
  refine and_congr_right fun _ => ?_
  cases b.axis with
  | none =>
    rw [then_eq_fault]
    simp only [Operands.sameLengths, Operands.require_ne_fault, pure_ne_fault, and_false, false_and,
      or_false, reduceCtorEq, exists_false]
  | some axis =>
    rw [then_eq_fault, discard_eq_fault, withOperator_eq_fault, Shape.broadcast_eq_fault]
    simp only [pure_ne_fault, and_false, or_false, Option.some.injEq, exists_eq_left']

/-! ## 2. Images -/

/-- A shape of rank 4 has four lengths. -/
theorem Shape.lengths_of_rank_four {s : Shape} (h : s.rank = 4) :
    ∃ batch channels rows columns, s.lengths = [batch, channels, rows, columns] := by
  rw [← length_lengths] at h
  match hl : s.lengths, h with
  | [batch, channels, rows, columns], _ => exact ⟨batch, channels, rows, columns, rfl⟩

theorem Shape.rank_of_lengths {s : Shape} {lengths : List Nat} (h : s.lengths = lengths) :
    s.rank = lengths.length := by
  rw [← h, length_lengths]

/-- Two numbers that are computed one after the other: the second is reached if there is a
    first. -/
theorem two_axes_eq_fault {x y : Outcome Nat} {result : Nat → Nat → Shape} :
    (do let height ← x; let width ← y; return result height width : Outcome Shape) =
        .error .fault ↔
      x = .error .fault ∨ (∃ n, x = .ok n) ∧ y = .error .fault := by
  simp only [bind_eq_fault (x := x), bind_eq_fault (x := y), pure_ne_fault, and_false, exists_false,
    or_false, exists_and_right]

theorem Planar.hasZero_eq_false {p : Planar} :
    p.hasZero = false ↔ p.rows ≠ 0 ∧ p.columns ≠ 0 := by
  simp [hasZero]

/-- A length that is not 0 is covered by a step in front and one for each that ends before. -/
theorem ceilDiv_succ {step : Nat} (n : Nat) : ceilDiv (n + 1) step = n / step + 1 := by
  unfold ceilDiv
  rw [Nat.succ_div]
  by_cases h : (n + 1) % step = 0
  · rw [if_pos (Nat.dvd_of_mod_eq_zero h), if_pos h]
  · rw [if_neg (mt Nat.mod_eq_zero_of_dvd h), if_neg h]

/-- Covering a length takes as many steps as a word can count only where the steps are single and
    the length is the largest word. -/
theorem ceilDiv_overflow {length step : Nat} (hs : step ≠ 0) (hl : length < Word.bound) :
    Word.bound ≤ ceilDiv length step + 1 ↔ step = 1 ∧ length = Word.largest := by
  unfold ceilDiv Word.largest Word.bound at *
  by_cases h : step = 1
  · subst h
    simp only [Nat.div_one, Nat.mod_one, if_true, Nat.add_zero, true_and]
    omega
  · have hdiv : length / step ≤ length / 2 := Nat.div_le_div_left (by omega) (by decide)
    split <;> omega

namespace Pooling

/-- The padded length is no word, or it is the largest one and every position is a window. -/
def AxisOverflows (padding stride window input : Nat) : Prop :=
  Word.bound ≤ input + 2 * padding ∨
    window = 0 ∧ stride = 1 ∧ input + 2 * padding = Word.largest

theorem windowCount_eq (axis padding stride window input : Nat) :
    windowCount axis padding stride window input =
      if Word.bound ≤ input + 2 * padding then fault
      else if input + 2 * padding ≤ window then
        failIn name (.kernelCoversInput window (input + 2 * padding) axis)
      else word (ceilDiv (input + 2 * padding - window) stride + 1) := by
  unfold windowCount
  by_cases hb : Word.bound ≤ input + 2 * padding
  · rw [if_pos hb]
    by_cases ha : 2 * padding < Word.bound
    · rw [word_eq_ok.mpr ⟨ha, rfl⟩]
      show (word (input + 2 * padding) >>= _) = fault
      rw [word_eq_fault.mpr hb]
      rfl
    · rw [word_eq_fault.mpr (Nat.le_of_not_lt ha)]
      rfl
  · rw [if_neg hb, word_eq_ok.mpr ⟨by omega, rfl⟩]
    show (word (input + 2 * padding) >>= _) = _
    rw [word_eq_ok.mpr ⟨by omega, rfl⟩]
    rfl

theorem windowCount_eq_fault {stride : Nat} (hs : stride ≠ 0) (axis padding window input : Nat) :
    windowCount axis padding stride window input = .error .fault ↔
      AxisOverflows padding stride window input := by
  rw [windowCount_eq]
  unfold AxisOverflows
  by_cases hb : Word.bound ≤ input + 2 * padding
  · simp only [hb, if_true, true_or, iff_true]
    rfl
  · simp only [hb, if_false, checkIn_eq_fault, word_eq_fault, false_or]
    rw [ceilDiv_overflow hs (by omega)]
    unfold Word.largest Word.bound at *
    omega

theorem windowCount_eq_ok {stride : Nat} (hs : stride ≠ 0) (axis padding window input : Nat) :
    (∃ n, windowCount axis padding stride window input = .ok n) ↔
      ¬ AxisOverflows padding stride window input ∧ window < input + 2 * padding := by
  rw [← windowCount_eq_fault hs axis, windowCount_eq]
  by_cases hb : Word.bound ≤ input + 2 * padding
  · simp [hb, fault]
  · simp only [hb, if_false, checkIn_eq_ok, checkIn_eq_fault, word_eq_ok, word_eq_fault]
    constructor
    · intro h
      obtain ⟨n, hw, hn, rfl⟩ := h
      omega
    · intro h
      obtain ⟨hn, hw⟩ := h
      exact ⟨_, by omega, by omega, rfl⟩

/-- The attributes and the lengths of an image for which the number of windows leaves its word on an
    axis; the columns are looked at once the rows have windows. -/
def Overflows (p : Pooling) : List Nat → Prop
  | [_, _, rows, columns] => p.stride.hasZero = false ∧
      (AxisOverflows p.padding.rows p.stride.rows p.window.rows rows ∨
        p.window.rows < rows + 2 * p.padding.rows ∧
          AxisOverflows p.padding.columns p.stride.columns p.window.columns columns)
  | _ => False

theorem infer_eq_fault (p : Pooling) (shapes : List Shape) :
    p.infer shapes = .error .fault ↔ ∃ input, shapes = [input] ∧ p.Overflows input.lengths := by
  unfold infer
  rw [bind_eq_fault]
  simp only [Operands.one_ne_fault, Operands.one_eq_ok, false_or]
  refine exists_congr fun input => and_congr_right ?_
  intro h
  cases h
  rw [then_eq_fault, Operands.rank, Operands.require_eq_ok]
  simp only [Operands.require_ne_fault, false_or, failIn_bind, checkIn_eq_fault]
  by_cases hr : input.rank = 4
  · obtain ⟨batch, channels, rows, columns, hl⟩ := Shape.lengths_of_rank_four hr
    simp only [hl, Overflows, List.all_cons, List.all_nil, hr, beq_self_eq_true, Bool.and_true,
      true_and, Bool.not_eq_true]
    refine and_congr_right fun hs => ?_
    obtain ⟨hrows, hcolumns⟩ := Planar.hasZero_eq_false.mp hs
    rw [two_axes_eq_fault, windowCount_eq_fault hrows, windowCount_eq_fault hcolumns,
      windowCount_eq_ok hrows]
    by_cases ho : AxisOverflows p.padding.rows p.stride.rows p.window.rows rows
    · simp only [ho, true_or]
    · simp only [ho, not_false_eq_true, true_and]
  · constructor
    · intro h
      obtain ⟨hall, _⟩ := h
      have hrank : input.rank = 4 := by simpa using hall
      exact absurd hrank hr
    · intro h
      unfold Overflows at h
      split at h
      · rename_i hl
        exact absurd (Shape.rank_of_lengths hl) hr
      · exact h.elim

end Pooling

namespace Convolution

/-- The numbers that the explicit length is computed by, as the integers that they should be. -/
def explicitSteps (padding stride dilation input kernel : Nat) : List Int :=
  let p := Word.signed padding
  let s := Word.signed stride
  let d := Word.signed dilation
  let i := Word.signed input
  let k := Word.signed kernel
  let padded := i - (1 + d * (k - 1)) + 2 * p
  [k - 1, d * (k - 1), 1 + d * (k - 1), i - (1 + d * (k - 1)), 2 * p, padded, padded.tdiv s,
    padded.tdiv s + 1]

/-- The numbers that the explicit length reads as signed words, on both axes. -/
def signedReads (c : Convolution) : List Nat → List Nat → List Nat
  | [_, _, rows, columns], [_, _, kernelRows, kernelColumns] =>
    if c.mode = .explicit ∧ c.stride.hasZero = false ∧ c.dilation.hasZero = false then
      [rows, columns, kernelRows, kernelColumns] ++ c.padding.toList ++ c.stride.toList ++
        c.dilation.toList
    else []
  | _, _ => []

/-- A number of the way to the output length of an axis leaves its word. -/
def AxisOverflows (mode : PaddingMode) (padding stride dilation input kernel : Nat) : Prop :=
  match mode with
  | .explicit => ∃ i ∈ explicitSteps padding stride dilation input kernel, Word.isSigned i = false
  | .same => False
  | .valid => kernel ≤ input ∧ Word.bound ≤ input - kernel + 1

theorem outputLength_eq_fault (mode : PaddingMode) (padding stride dilation input kernel : Nat) :
    outputLength mode padding stride dilation input kernel = .error .fault ↔
      AxisOverflows mode padding stride dilation input kernel := by
  cases mode with
  | explicit =>
    show explicitLength padding stride dilation input kernel = _ ↔ _
    unfold explicitLength AxisOverflows explicitSteps
    simp only [signedWord_bind_eq_fault, pure_ne_fault, List.mem_cons, exists_eq_or_imp,
      or_false, List.not_mem_nil, exists_eq_left]
  | same =>
    refine ⟨fun h => ?_, False.elim⟩
    cases h
  | valid =>
    show validLength stride input kernel = _ ↔ _
    unfold validLength AxisOverflows
    rw [checkIn_eq_fault, word_bind_eq_fault, Nat.not_lt]
    simp only [pure_ne_fault, or_false]

/-- Without a fault there is a length, except that a kernel may be too long. -/
theorem outputLength_eq_ok (mode : PaddingMode) (padding stride dilation input kernel : Nat) :
    (∃ n, outputLength mode padding stride dilation input kernel = .ok n) ↔
      ¬ AxisOverflows mode padding stride dilation input kernel ∧
        ¬ (mode = .valid ∧ input < kernel) := by
  rw [exists_ok_iff, ne_eq, outputLength_eq_fault]
  refine and_congr_right fun _ => ?_
  cases mode with
  | explicit =>
    simp only [reduceCtorEq, false_and, not_false_eq_true, iff_true]
    intro e
    show explicitLength padding stride dilation input kernel ≠ _
    unfold explicitLength
    simp only [ne_eq, bind_eq_error, signedWord_ne_error, false_or, pure_ne_error, and_false,
      exists_false, not_false_eq_true]
  | same =>
    constructor
    · intro _ h
      cases h.1
    · intro _ e h
      cases h
  | valid =>
    show (∀ e, validLength stride input kernel ≠ _) ↔ _
    unfold validLength
    by_cases h : input < kernel
    · simp only [h, if_true, and_self, not_true, iff_false]
      exact fun hn => hn _ rfl
    · simp only [h, if_false, and_false, not_false_eq_true, ne_eq, bind_eq_error,
        word_ne_error, false_or, pure_ne_error, exists_false, implies_true]

/-- The attributes and the lengths of image and weights for which a spatial length leaves its word
    on the way; the columns are looked at once the rows have a length. -/
def Overflows (c : Convolution) : List Nat → List Nat → Prop
  | [_, _, rows, columns], [_, _, kernelRows, kernelColumns] =>
    c.stride.hasZero = false ∧ c.dilation.hasZero = false ∧
      (AxisOverflows c.mode c.padding.rows c.stride.rows c.dilation.rows rows kernelRows ∨
        ¬ (c.mode = .valid ∧ rows < kernelRows) ∧
          AxisOverflows c.mode c.padding.columns c.stride.columns c.dilation.columns columns
            kernelColumns)
  | _, _ => False

theorem infer_eq_fault (c : Convolution) (shapes : List Shape) :
    c.infer shapes = .error .fault ↔
      ∃ image weights, shapes = [image, weights] ∧ image.elementType = weights.elementType ∧
        c.Overflows image.lengths weights.lengths := by
  unfold infer
  rw [bind_eq_fault]
  simp only [Operands.two_ne_fault, Operands.two_eq_ok, false_or, Prod.exists]
  refine exists_congr fun image => exists_congr fun weights => and_congr_right ?_
  intro h
  cases h
  rw [then_eq_fault, Operands.sameType, Operands.require_eq_ok, Operands.agree_pair, then_eq_fault,
    Operands.sameRank, Operands.require_eq_ok, Operands.agree_pair, then_eq_fault, Operands.rank,
    Operands.require_eq_ok]
  simp only [Operands.require_ne_fault, false_or, failIn_bind, checkIn_eq_fault]
  refine and_congr_right fun _ => ?_
  by_cases hr : image.rank = 4 ∧ weights.rank = 4
  · obtain ⟨batch, _, rows, columns, hl⟩ := Shape.lengths_of_rank_four hr.1
    obtain ⟨channels, _, kernelRows, kernelColumns, hl'⟩ := Shape.lengths_of_rank_four hr.2
    simp only [hl, hl', Overflows, List.all_cons, List.all_nil, hr.1, hr.2, beq_self_eq_true,
      Bool.and_true, true_and, Bool.or_eq_true, not_or, Bool.not_eq_true, and_assoc]
    refine and_congr_right fun _ => and_congr_right fun _ => ?_
    rw [two_axes_eq_fault, outputLength_eq_fault, outputLength_eq_fault, outputLength_eq_ok]
    by_cases ho : AxisOverflows c.mode c.padding.rows c.stride.rows c.dilation.rows rows kernelRows
    · simp only [ho, true_or]
    · simp only [ho, not_false_eq_true, true_and]
  · constructor
    · intro h
      obtain ⟨_, hall, _⟩ := h
      have hranks : image.rank = 4 ∧ weights.rank = 4 := by simpa using hall
      exact absurd hranks hr
    · intro h
      unfold Overflows at h
      split at h
      · rename_i hl hl'
        exact absurd ⟨Shape.rank_of_lengths hl, Shape.rank_of_lengths hl'⟩ hr
      · exact h.elim

end Convolution

/-! ## 3. Reshaping -/

namespace Reshape

/-- Every dimension from the position on stands for a length: it is positive, or it keeps a length
    that is there, or it is to be inferred and comes last. -/
def Understood (rank position : Nat) (dims : List Int) : Prop :=
  ∀ k d, dims[k]? = some d → 0 < d ∨ d = 0 ∧ position + k < rank ∨ d = -1 ∧ k + 1 = dims.length

/-- The length that a dimension at a position stands for, none when it is to be inferred. -/
def length? (input : List Nat) (d : Int) (position : Nat) : Option Nat :=
  if d = 0 then input[position]? else if 0 < d then some d.toNat else none

/-- The lengths that dimensions stand for from the position on, without the inferred one. -/
def known (input : List Nat) (position : Nat) (dims : List Int) : List Nat :=
  (dims.zipIdx position).filterMap fun p => length? input p.1 p.2

theorem understood_cons (rank position : Nat) (d : Int) (rest : List Int) :
    Understood rank position (d :: rest) ↔
      (0 < d ∨ d = 0 ∧ position < rank ∨ d = -1 ∧ rest = []) ∧
        Understood rank (position + 1) rest := by
  unfold Understood
  constructor
  · intro h
    constructor
    · have hfirst := h 0 d rfl
      simpa [eq_comm] using hfirst
    · intro k d' hk
      have hlater := h (k + 1) d' hk
      rw [List.length_cons] at hlater
      omega
  · intro h k d' hk
    obtain ⟨hd, hrest⟩ := h
    cases k with
    | zero =>
      cases hk
      rcases hd with hd | hd | ⟨hd, rfl⟩
      · exact Or.inl hd
      · exact Or.inr (Or.inl hd)
      · exact Or.inr (Or.inr ⟨hd, rfl⟩)
    | succ k =>
      have hlater := hrest k d' hk
      rw [List.length_cons]
      omega

theorem known_cons (input : List Nat) (position : Nat) (d : Int) (rest : List Int) :
    known input position (d :: rest) =
      (length? input d position).toList ++ known input (position + 1) rest := by
  unfold known
  rw [List.zipIdx_cons, List.filterMap_cons]
  cases length? input d position <;> rfl

/-- A dimension in front that is not to be inferred leaves it open whether the last one is. -/
theorem last_cons {d : Int} (hd : d ≠ -1) (rest : List Int) :
    ((d :: rest).getLast? == some (-1)) = (rest.getLast? == some (-1)) := by
  cases rest with
  | nil => simpa using hd
  | cons d' rest' => rfl

/-- **The lengths that dimensions stand for**, when every one of them stands for one. -/
theorem lengthsFrom_of_understood (input : List Nat) {position : Nat} {dims : List Int}
    (h : Understood input.length position dims) :
    lengthsFrom input position dims =
      .ok (known input position dims, dims.getLast? == some (-1)) := by
  induction dims generalizing position with
  | nil => rfl
  | cons d rest ih =>
    obtain ⟨hd, hrest⟩ := (understood_cons _ _ _ _).mp h
    rw [known_cons, lengthsFrom, ih hrest]
    rcases hd with hd | ⟨rfl, hp⟩ | ⟨rfl, rfl⟩
    · have h0 : d ≠ 0 := by omega
      have h1 : d ≠ -1 := by omega
      rw [if_neg h0, if_neg (fun h => h1 h.1), if_pos hd, last_cons h1]
      simp only [length?, h0, if_false, hd, if_true]
      rfl
    · rw [if_pos rfl, last_cons (by decide)]
      simp only [length?, if_true, List.getElem?_eq_getElem hp]
      rfl
    · rfl

theorem understood_of_lengthsFrom (input : List Nat) {position : Nat} {dims : List Int}
    {p : List Nat × Bool} (h : lengthsFrom input position dims = .ok p) :
    Understood input.length position dims := by
  have hnil (position : Nat) : Understood input.length position [] := by
    intro _ _ hk
    cases hk
  induction dims generalizing position p with
  | nil => exact hnil position
  | cons d rest ih =>
    have hnext {next : List Nat × Bool → Outcome (List Nat × Bool)}
        (h : (lengthsFrom input (position + 1) rest >>= next) = .ok p) :
        Understood input.length (position + 1) rest := by
      obtain ⟨q, hq, _⟩ := bind_eq_ok.mp h
      exact ih hq
    rw [understood_cons]
    unfold lengthsFrom at h
    by_cases h0 : d = 0
    · rw [if_pos h0] at h
      split at h
      · rename_i kept hkept
        have hp := (List.getElem?_eq_some_iff.mp hkept).1
        exact ⟨Or.inr (Or.inl ⟨h0, hp⟩), hnext h⟩
      · cases h
    · rw [if_neg h0] at h
      by_cases h1 : d = -1 ∧ rest = []
      · refine ⟨Or.inr (Or.inr h1), ?_⟩
        rw [h1.2]
        exact hnil (position + 1)
      · rw [if_neg h1] at h
        by_cases hd : 0 < d
        · rw [if_pos hd] at h
          exact ⟨Or.inl hd, hnext h⟩
        · rw [if_neg hd] at h
          cases h

theorem lengthsFrom_ne_fault (input : List Nat) (position : Nat) (dims : List Int) :
    lengthsFrom input position dims ≠ .error .fault := by
  induction dims generalizing position with
  | nil =>
    intro h
    cases h
  | cons d rest ih =>
    have hnext {next : List Nat × Bool → Outcome (List Nat × Bool)}
        (hn : ∀ q, next q ≠ .error .fault) :
        (lengthsFrom input (position + 1) rest >>= next) ≠ .error .fault := by
      intro h
      rcases bind_eq_fault.mp h with hq | ⟨q, _, hq⟩
      · exact ih _ hq
      · exact hn q hq
    unfold lengthsFrom
    split
    · split
      · exact hnext fun _ => pure_ne_fault
      · exact failIn_ne_fault
    · split
      · intro h
        cases h
      · split
        · exact hnext fun _ => pure_ne_fault
        · exact failIn_ne_fault

theorem complete_ne_fault (elements : Nat) (lengths : List Nat) (inferred : Bool) (known : Nat) :
    complete elements lengths inferred known ≠ .error .fault := by
  unfold complete
  cases inferred <;>
  · simp only [Bool.false_eq_true, if_true, if_false, ne_eq, checkIn_eq_fault, reduceCtorEq,
      and_false, not_false_eq_true]

/-- The operand's elements are counted without a check, once the dimensions are understood and their
    own count is a word. -/
def Overflows (dims : List Int) (input : List Nat) : Prop :=
  Understood input.length 0 dims ∧ Word.Countable (known input 0 dims) ∧ ¬ Word.Countable input

theorem infer_eq_fault (dims : List Int) (shapes : List Shape) :
    infer dims shapes = .error .fault ↔
      ∃ input, shapes = [input] ∧ Overflows dims input.lengths := by
  unfold infer
  rw [bind_eq_fault]
  simp only [Operands.one_ne_fault, Operands.one_eq_ok, false_or]
  refine exists_congr fun input => and_congr_right fun _ => ?_
  unfold Overflows
  rw [bind_eq_fault]
  simp only [lengthsFrom_ne_fault, false_or]
  constructor
  · intro h
    obtain ⟨p, hp, h⟩ := h
    have hu := understood_of_lengthsFrom _ hp
    rw [lengthsFrom_of_understood _ hu] at hp
    cases hp
    refine ⟨hu, ?_⟩
    dsimp only at h
    split at h
    · cases h
    · rename_i n hn
      refine ⟨((Word.product?_eq_some _ _).mp hn).1, ?_⟩
      rcases bind_eq_fault.mp h with he | ⟨elements, _, he⟩
      · exact Shape.elementCountWord_eq_fault.mp he
      · rcases bind_eq_fault.mp he with hc | ⟨_, _, hc⟩
        · exact absurd hc (complete_ne_fault _ _ _ _)
        · cases hc
  · intro h
    obtain ⟨hu, hk, hc⟩ := h
    refine ⟨_, lengthsFrom_of_understood _ hu, ?_⟩
    dsimp only
    rw [(Word.product?_eq_some _ _).mpr ⟨hk, rfl⟩]
    exact bind_eq_fault.mpr (Or.inl (Shape.elementCountWord_eq_fault.mpr hc))

end Reshape

/-! ## 4. Operators without such a step -/

theorem Gemm.infer_ne_fault (shapes : List Shape) : Gemm.infer shapes ≠ .error .fault := by
  unfold infer
  simp only [ne_eq, bind_eq_fault, Operands.two_ne_fault, Operands.sameType, Operands.rank,
    Operands.require_ne_fault, false_or, not_exists, not_and]
  intro p _ _ _ _ _
  split <;> simp only [checkIn_eq_fault, reduceCtorEq, and_false, failIn_ne_fault, not_false_eq_true]

theorem Transpose.infer_ne_fault (dims : List Nat) (shapes : List Shape) :
    Transpose.infer dims shapes ≠ .error .fault := by
  unfold infer
  simp only [ne_eq, bind_eq_fault, Operands.one_ne_fault, failIn_bind, checkIn_eq_fault,
    pure_ne_fault, and_false, false_or, exists_false, not_false_eq_true]

theorem Contiguous.infer_ne_fault (shapes : List Shape) :
    Contiguous.infer shapes ≠ .error .fault := by
  unfold infer
  simp only [ne_eq, bind_eq_fault, Operands.one_ne_fault, Operands.leastRank,
    Operands.require_ne_fault, pure_ne_fault, and_false, false_or, exists_false, not_false_eq_true]

theorem Outline.infer_ne_fault (shape : Shape) (shapes : List Shape) :
    Outline.infer shape shapes ≠ .error .fault := by
  have hcount : shape.elementCount? ≠ .error .fault := by
    unfold Shape.elementCount?
    split <;> nofun
  unfold infer
  simp only [ne_eq, bind_eq_fault, Operands.none, Operands.count, Operands.require_ne_fault,
    discard_eq_fault, withOperator_eq_fault, hcount, pure_ne_fault, and_false, false_or,
    exists_false, not_false_eq_true]

/-! ## 5. The catalog -/

namespace Operator

/-- The operators and operands for which a number of shape inference leaves its word. -/
def Overflows : Operator → List Shape → Prop
  | convolution c, shapes => ∃ image weights, shapes = [image, weights] ∧
      image.elementType = weights.elementType ∧ c.Overflows image.lengths weights.lengths
  | pooling p, shapes => ∃ input, shapes = [input] ∧ p.Overflows input.lengths
  | binary b, shapes => ∃ left right axis, shapes = [left, right] ∧
      left.elementType = right.elementType ∧ b.axis = some axis ∧ right.RunOverflows axis
  | reshape dims, shapes => ∃ input, shapes = [input] ∧ Reshape.Overflows dims input.lengths
  | broadcast axis, shapes => ∃ target operand, shapes = [target, operand] ∧
      operand.RunOverflows axis
  | _, _ => False

/-- **Inference faults exactly where one of its numbers leaves its word.** -/
theorem infer_eq_fault (o : Operator) (shapes : List Shape) :
    o.infer shapes = .error .fault ↔ o.Overflows shapes := by
  cases o with
  | convolution c => exact c.infer_eq_fault shapes
  | pooling p => exact p.infer_eq_fault shapes
  | binary b => exact b.infer_eq_fault shapes
  | reshape dims => exact Reshape.infer_eq_fault dims shapes
  | broadcast axis => exact Alignment.infer_eq_fault axis shapes
  | gemm => exact iff_of_false (Gemm.infer_ne_fault shapes) id
  | activation mode => exact iff_of_false (Operands.one_ne_fault _) id
  | unary f => exact iff_of_false (Operands.one_ne_fault _) id
  | transpose dims => exact iff_of_false (Transpose.infer_ne_fault dims shapes) id
  | contiguous => exact iff_of_false (Contiguous.infer_ne_fault shapes) id
  | outline shape => exact iff_of_false (Outline.infer_ne_fault shape shapes) id

/-- The numbers that inference reads as signed words. -/
def SignedReads : Operator → List Shape → Nat → Prop
  | convolution c, shapes, n => ∃ image weights, shapes = [image, weights] ∧
      image.elementType = weights.elementType ∧ n ∈ c.signedReads image.lengths weights.lengths
  | _, _, _ => False

/-- **Where shape inference is total.** It gives a shape or reports what is wrong, and misreads no
    number on the way, exactly where no number leaves its word and every number that is read as a
    signed word is one. -/
theorem infer_reported_iff (o : Operator) (shapes : List Shape) :
    (o.infer shapes).Reported ∧ (∀ n, o.SignedReads shapes n → Word.signed n = n) ↔
      ¬ o.Overflows shapes ∧ ∀ n, o.SignedReads shapes n → n < 2 ^ 63 := by
  have hreported : (o.infer shapes).Reported ↔ ¬ o.Overflows shapes := by
    rw [reported_iff, ne_eq, infer_eq_fault]
    exact and_iff_right (o.infer_blames shapes)
  simp only [hreported, Word.signed_eq_self]

/-- The end of a run that starts at the largest word is none, and nobody asked: a broadcast that is
    made of attributes faults instead of refusing the axis. -/
theorem broadcast_largest_axis_unreported :
    ofValue "broadcast" (.record [("axis", .integer (2 ^ 64 - 1))]) =
        .ok (.broadcast (2 ^ 64 - 1)) ∧
      ¬ ((Operator.broadcast (2 ^ 64 - 1)).infer
          [.standard .f32 [2, 3], .standard .f32 [2]]).Reported := by
  constructor
  · rfl
  · rw [reported_iff, ne_eq, infer_eq_fault]
    intro h
    refine h.2 ⟨_, _, rfl, ?_, ?_⟩
    · rfl
    · decide

end Operator

end TensorGraph
