import TensorGraph.Operator.Catalog
import TensorGraph.Proofs.Operands
import TensorGraph.Proofs.Shape.Reach

/-!
# Counting the elements of a shape

The elements of a shape are counted from the left, one axis after the other, and the count is given up as
soon as it is no word. An axis of length 0 makes any count a word again, but only if the count gets that far.
So what decides is the product of the lengths in front of the first 0, and with it the order of the axes:

* `Word.countable_iff_beforeZero` -- factors can be counted exactly if those in front of the first zero
  (`Word.beforeZero`) have a word for their product;
* `Word.countable_perm_iff` -- all orders of the factors are alike exactly if there is no zero among them or
  the others (`Word.nonzero`) have a word for their product;
* `Outline.infer_eq_ok` -- a shape can be declared exactly if its elements can be counted;
* `Shape.element_count_exact_iff` -- where counting tells whether the number of elements is a word, and where
  its answer is the same for every order of the axes.

Without an empty axis counting is exact, in every order. With one, lengths of a large product may stand in
front of it, and then a shape that has no element is refused for having too many (`Shape.late_zero_refused`).
-/

namespace TensorGraph

namespace Word

variable {values : List Nat}

/-! ## 1. Factors in front of a zero -/

/-- The values in front of the first zero, all of them if there is none. -/
def beforeZero (values : List Nat) : List Nat := values.takeWhile (· != 0)

/-- The values that are not zero, in their order. -/
def nonzero (values : List Nat) : List Nat := values.filter (· != 0)

@[simp] theorem beforeZero_nil : beforeZero [] = [] := rfl

@[simp] theorem beforeZero_zero_cons (rest : List Nat) : beforeZero (0 :: rest) = [] := rfl

theorem beforeZero_cons {n : Nat} (hn : n ≠ 0) (rest : List Nat) :
    beforeZero (n :: rest) = n :: beforeZero rest :=
  List.takeWhile_cons_of_pos (bne_iff_ne.mpr hn)

theorem ne_zero_of_mem_nonzero {n : Nat} (h : n ∈ nonzero values) : n ≠ 0 :=
  bne_iff_ne.mp (List.mem_filter.mp h).2

theorem prod_nonzero_pos (values : List Nat) : 0 < (nonzero values).prod :=
  List.prod_pos_iff_forall_pos_nat.mpr fun _ hn => Nat.pos_of_ne_zero (ne_zero_of_mem_nonzero hn)

theorem prod_beforeZero_pos (values : List Nat) : 0 < (beforeZero values).prod := by
  refine List.prod_pos_iff_forall_pos_nat.mpr fun n hn => Nat.pos_of_ne_zero ?_
  exact bne_iff_ne.mp (List.all_eq_true.mp List.all_takeWhile n hn)

/-- What stands in front of the first zero is a part of what is not zero. -/
theorem prod_beforeZero_le (values : List Nat) : (beforeZero values).prod ≤ (nonzero values).prod := by
  induction values with
  | nil => exact Nat.le_refl _
  | cons n rest ih =>
    rcases Nat.eq_zero_or_pos n with rfl | hn
    · exact prod_nonzero_pos (0 :: rest)
    · have hne : n ≠ 0 := Nat.ne_of_gt hn
      have hkept : nonzero (n :: rest) = n :: nonzero rest := List.filter_cons_of_pos (bne_iff_ne.mpr hne)
      rw [beforeZero_cons hne, hkept, List.prod_cons, List.prod_cons]
      exact Nat.mul_le_mul_left n ih

/-- Without a zero all values stand in front of one. -/
theorem beforeZero_of_not_mem (h : 0 ∉ values) : beforeZero values = values := by
  induction values with
  | nil => rfl
  | cons n rest ih =>
    rw [List.mem_cons, not_or] at h
    rw [beforeZero_cons (Ne.symm h.1), ih h.2]

/-! ## 2. Products -/

/-- No partial product is larger than that of the factors in front of the first zero. -/
theorem prod_take_le (values : List Nat) (k : Nat) :
    (values.take k).prod ≤ (beforeZero values).prod := by
  induction values generalizing k with
  | nil =>
    rw [List.take_nil]
    exact Nat.le_refl _
  | cons n rest ih =>
    cases k with
    | zero => exact prod_beforeZero_pos (n :: rest)
    | succ k =>
      rw [List.take_succ_cons, List.prod_cons]
      rcases Nat.eq_zero_or_pos n with rfl | hn
      · rw [Nat.zero_mul]
        exact Nat.zero_le _
      · rw [beforeZero_cons (Nat.ne_of_gt hn), List.prod_cons]
        exact Nat.mul_le_mul_left n (ih k)

/-- **Factors can be counted exactly if those in front of the first zero have a word for their product.** -/
theorem countable_iff_beforeZero (values : List Nat) :
    Countable values ↔ (beforeZero values).prod < bound := by
  constructor
  · intro h
    have hfront : beforeZero values = values.take (beforeZero values).length :=
      List.prefix_iff_eq_take.mp (List.takeWhile_prefix _)
    rw [hfront]
    exact h _
  · intro h k
    exact Nat.lt_of_le_of_lt (prod_take_le values k) h

/-- **Counting tells whether the product is a word** exactly if no zero comes too late. -/
theorem countable_iff_prod_lt_iff (values : List Nat) :
    (Countable values ↔ values.prod < bound) ↔ (0 ∈ values → (beforeZero values).prod < bound) := by
  rw [countable_iff_beforeZero]
  by_cases h : 0 ∈ values
  · have hword : values.prod < bound := by
      rw [List.prod_eq_zero_iff_exists_zero_nat.mpr ⟨0, h, rfl⟩]
      decide
    rw [iff_true_right hword, imp_iff_right h]
  · rw [beforeZero_of_not_mem h]
    exact iff_of_true Iff.rfl fun hmem => absurd hmem h

/-- Without a zero the order does not matter. -/
theorem countable_iff_of_perm {other : List Nat} (h : other.Perm values) (h0 : 0 ∉ values) :
    Countable other ↔ Countable values := by
  have hother : 0 ∉ other := fun hmem => h0 (h.mem_iff.mp hmem)
  rw [countable_iff_beforeZero, countable_iff_beforeZero, beforeZero_of_not_mem h0,
    beforeZero_of_not_mem hother, h.prod_nat]

/-- **All orders of the factors are counted alike** exactly if there is no zero among them or the others
    have a word for their product. Otherwise the others may stand behind a zero or in front of it. -/
theorem countable_perm_iff (values : List Nat) :
    (∀ other, other.Perm values → (Countable other ↔ Countable values)) ↔
      (0 ∈ values → (nonzero values).prod < bound) := by
  constructor
  · intro halike h0
    have hfirst : Countable (0 :: values.erase 0) := by
      rw [countable_iff_beforeZero, beforeZero_zero_cons]
      decide
    have hvalues := (halike _ (List.perm_cons_erase h0).symm).mp hfirst
    have hlast := (halike _ (List.filter_append_perm (· != 0) values)).mpr hvalues
    have hpart := hlast (nonzero values).length
    rwa [← nonzero, List.take_left] at hpart
  · intro hword other hperm
    by_cases h0 : 0 ∈ values
    · rw [countable_iff_beforeZero, countable_iff_beforeZero]
      have hvalues := Nat.lt_of_le_of_lt (prod_beforeZero_le values) (hword h0)
      have hother : (nonzero other).prod = (nonzero values).prod := (hperm.filter _).prod_nat
      refine iff_of_true (Nat.lt_of_le_of_lt (prod_beforeZero_le other) ?_) hvalues
      rw [hother]
      exact hword h0
    · exact countable_iff_of_perm hperm h0

end Word

/-! ## 3. Shapes -/

namespace Shape

variable {s : Shape}

/-- **The elements are counted exactly if the lengths in front of the first 0 have a word for their product.**
    The error shows the lengths. -/
theorem elementCount?_eq (s : Shape) :
    s.elementCount? = if (Word.beforeZero s.lengths).prod < Word.bound then .ok s.elementCount
      else Outcome.fail (.countOverflows s.lengths) := by
  by_cases h : Word.Countable s.lengths
  · rw [if_pos ((Word.countable_iff_beforeZero _).mp h)]
    exact elementCount?_eq_ok.mpr ⟨h, rfl⟩
  · rw [if_neg (mt (Word.countable_iff_beforeZero _).mpr h), elementCount?,
      (Word.product?_eq_none s.lengths).mpr h]

/-- Counting comes to the same for two shapes: the number of elements and the reach that are taken for
    granted, faults included, and the number of elements that is checked. -/
structure CountedAlike (s t : Shape) : Prop where
  count : s.elementCountWord = t.elementCountWord
  reach : s.bufferReachWord = t.bufferReachWord
  checked : ∀ n, s.elementCount? = .ok n ↔ t.elementCount? = .ok n

/-- **Shapes of as many elements that reach as far are counted alike** exactly if both can be counted or
    neither can. -/
theorem countedAlike_iff {t : Shape} (hcount : s.elementCount = t.elementCount)
    (hreach : s.bufferReach = t.bufferReach) :
    s.CountedAlike t ↔ (Word.Countable s.lengths ↔ Word.Countable t.lengths) := by
  constructor
  · intro h
    have hchecked := h.checked s.elementCount
    rwa [elementCount?_eq_ok, elementCount?_eq_ok, and_iff_left rfl, and_iff_left hcount] at hchecked
  · intro h
    have hchecked (n : Nat) : s.elementCount? = .ok n ↔ t.elementCount? = .ok n := by
      rw [elementCount?_eq_ok, elementCount?_eq_ok, h, hcount]
    by_cases hs : Word.Countable s.lengths
    · have ht := h.mp hs
      refine ⟨?_, ?_, hchecked⟩
      · rw [elementCountWord_eq_ok.mpr ⟨hs, rfl⟩, elementCountWord_eq_ok.mpr ⟨ht, hcount⟩]
      · rw [bufferReachWord_of_countable hs, bufferReachWord_of_countable ht, hreach]
    · have ht := mt h.mpr hs
      refine ⟨?_, ?_, hchecked⟩
      · rw [elementCountWord_eq_fault.mpr hs, elementCountWord_eq_fault.mpr ht]
      · rw [bufferReachWord_of_not_countable hs, bufferReachWord_of_not_countable ht]

end Shape

/-- **A shape can be declared exactly if its elements can be counted**, and then as it is. -/
theorem Outline.infer_eq_ok {shape output : Shape} {shapes : List Shape} :
    infer shape shapes = .ok output ↔
      shapes = [] ∧ Word.Countable shape.lengths ∧ output = shape := by
  unfold infer Operands.none Operands.count
  rw [Outcome.then_eq_ok, Operands.require_eq_ok, beq_iff_eq, List.length_eq_zero_iff, Outcome.then_eq_ok,
    Outcome.discard_eq_ok, Outcome.pure_eq_ok]
  simp only [Outcome.withOperator_eq_ok, Shape.elementCount?_eq_ok, exists_and_left, exists_eq, and_true]

namespace Shape

/-- **Where counting is exact.** The elements of a shape are counted, and the shape can be declared, exactly if
    the lengths in front of the first 0 have a word for their product; otherwise there is an error that shows
    the lengths. This is the same as that the number of elements is a word, unless a 0 comes too late. And it
    is the same for all orders of the axes, unless there is a 0 and the other lengths have no word for their
    product. -/
theorem element_count_exact_iff (s : Shape) :
    (s.elementCount? = if (Word.beforeZero s.lengths).prod < Word.bound then .ok s.elementCount
      else Outcome.fail (.countOverflows s.lengths)) ∧
    (∀ output, Operator.infer (.outline s) [] = .ok output ↔
      (Word.beforeZero s.lengths).prod < Word.bound ∧ output = s) ∧
    ((∀ n, s.elementCount? = .ok n ↔ s.elementCount < Word.bound ∧ n = s.elementCount) ↔
      (0 ∈ s.lengths → (Word.beforeZero s.lengths).prod < Word.bound)) ∧
    ((∀ t : Shape, t.lengths.Perm s.lengths →
        (∀ n, t.elementCount? = .ok n ↔ s.elementCount? = .ok n) ∧
        ((∃ output, Operator.infer (.outline t) [] = .ok output) ↔
          ∃ output, Operator.infer (.outline s) [] = .ok output)) ↔
      (0 ∈ s.lengths → (Word.nonzero s.lengths).prod < Word.bound)) := by
  have hdeclared (t output : Shape) : Operator.infer (.outline t) [] = .ok output ↔
      Word.Countable t.lengths ∧ output = t := by
    show Outline.infer t [] = .ok output ↔ _
    rw [Outline.infer_eq_ok, and_iff_right rfl]
  refine ⟨s.elementCount?_eq, fun output => ?_, ?_, ?_⟩
  · rw [hdeclared, Word.countable_iff_beforeZero]
  · rw [← Word.countable_iff_prod_lt_iff]
    simp only [elementCount?_eq_ok]
    constructor
    · intro h
      have hcount := h s.elementCount
      rwa [and_iff_left rfl, and_iff_left rfl] at hcount
    · intro h n
      exact and_congr_left' h
  · rw [← Word.countable_perm_iff]
    simp only [elementCount?_eq_ok, hdeclared, exists_and_left, exists_eq, and_true]
    constructor
    · intro h lengths hperm
      have hlengths := (h (.standard s.elementType lengths) (by rwa [lengths_standard])).2
      rwa [lengths_standard] at hlengths
    · intro h t hperm
      have hcount : t.elementCount = s.elementCount := hperm.prod_nat
      refine ⟨fun n => ?_, h t.lengths hperm⟩
      rw [hcount]
      exact and_congr_left' (h t.lengths hperm)

/-- A shape without elements, whose empty axis comes last. It is refused, as a shape and as an operator that
    declares it, for the product of the lengths in front; with the empty axis first it is accepted. -/
theorem late_zero_refused :
    let late : Shape := .standard .f32 [2 ^ 63, 2, 0]
    let first : Shape := .standard .f32 [0, 2 ^ 63, 2]
    late.elementCount = 0 ∧ late.elementCount? = Outcome.fail (.countOverflows [2 ^ 63, 2, 0]) ∧
      Operator.ofValue "outline" (.record [("shape", .record [("lens", .ofNats [2 ^ 63, 2, 0])])]) =
        .ok (.outline late) ∧
      Operator.infer (.outline late) [] = Outcome.failIn "outline" (.countOverflows [2 ^ 63, 2, 0]) ∧
      first.lengths.Perm late.lengths ∧ first.elementCount? = .ok 0 ∧
      Operator.infer (.outline first) [] = .ok first := by
  refine ⟨rfl, rfl, rfl, rfl, ?_, rfl, rfl⟩
  decide

end Shape

end TensorGraph
