import TensorGraph.Word

/-!
# Held numbers, products and signed readings of words

* `clamp_clamp_mul` -- whether a factor was held at the largest word before does not show in a product that is
  held there itself;
* `Word.Countable` -- every partial product of a list, taken from the left, is a word. It is the
  exact condition under which the product is computed as one (`product?_eq_some`), and it is more
  than that the product itself is a word: in `{2^40, 2^40, 0}` the zero comes too late;
* `signed_eq_self` -- a number is its own signed reading exactly when it lies below `2 ^ 63`;
* `signed_of_large` -- from there on a word is read as what is missing to `2 ^ 64`, below zero.
-/

namespace TensorGraph.Word

/-! ## 1. Numbers held at the largest word -/

theorem clamp_of_lt {n : Nat} (h : n < bound) : clamp n = n :=
  Nat.min_eq_right (Nat.le_sub_one_of_lt h)

theorem clamp_of_ge {n : Nat} (h : largest ≤ n) : clamp n = largest := Nat.min_eq_left h

theorem clamp_lt_bound (n : Nat) : clamp n < bound :=
  Nat.lt_of_le_of_lt (Nat.min_le_left _ _) (by decide)

theorem clamp_eq_zero {n : Nat} : clamp n = 0 ↔ n = 0 := by
  unfold clamp largest bound
  omega

/-- **A factor may be held before the product is.** A factor for which that makes a difference reaches the
    largest word, held or not, and then so does its product with anything but 0. -/
theorem clamp_clamp_mul (m n : Nat) : clamp (clamp m * n) = clamp (m * n) := by
  rcases Nat.lt_or_ge m bound with hm | hm
  · rw [clamp_of_lt hm]
  · have hlarge : largest ≤ m := Nat.le_trans (Nat.sub_le _ _) hm
    rw [clamp_of_ge hlarge]
    rcases Nat.eq_zero_or_pos n with rfl | hn
    · rw [Nat.mul_zero, Nat.mul_zero]
    · have hheld : largest ≤ largest * n := Nat.le_mul_of_pos_right _ hn
      have hexact : largest ≤ m * n := Nat.le_trans hheld (Nat.mul_le_mul_right n hlarge)
      rw [clamp_of_ge hheld, clamp_of_ge hexact]

/-! ## 2. Products -/

/-- Every partial product from the left is a word. -/
def Countable (values : List Nat) : Prop := ∀ k, (values.take k).prod < bound

theorem Countable.prod_lt {values : List Nat} (h : Countable values) : values.prod < bound := by
  have hall := h values.length
  rwa [List.take_length] at hall

/-- **Factors of a word that is not 0** have words for partial products, for those divide it too. -/
theorem countable_of_dvd {values : List Nat} {n : Nat} (h0 : n ≠ 0) (hn : n < bound)
    (h : values.prod ∣ n) : Countable values := by
  intro k
  have hsplit : (values.take k).prod * (values.drop k).prod = values.prod := by
    rw [← List.prod_append, List.take_append_drop]
  have hpartial : (values.take k).prod ∣ n := Nat.dvd_trans ⟨_, hsplit.symm⟩ h
  exact Nat.lt_of_le_of_lt (Nat.le_of_dvd (Nat.pos_of_ne_zero h0) hpartial) hn

/-- One more factor matters to the whole product only. -/
theorem Countable.concat {values : List Nat} {value : Nat} (h : Countable values)
    (hp : (values ++ [value]).prod < bound) : Countable (values ++ [value]) := by
  intro k
  rcases Nat.lt_or_ge values.length k with hk | hk
  · have hall : (values ++ [value]).length ≤ k := by
      rw [List.length_append]
      exact hk
    rwa [List.take_of_length_le hall]
  · rw [List.take_append_of_le_length hk]
    exact h k

theorem productFrom?_eq_some {accumulated : Nat} (ha : accumulated < bound) (values : List Nat)
    (n : Nat) : productFrom? accumulated values = some n ↔
      (∀ k, accumulated * (values.take k).prod < bound) ∧ n = accumulated * values.prod := by
  induction values generalizing accumulated with
  | nil => simp [productFrom?, ha, eq_comm]
  | cons v rest ih =>
    unfold productFrom?
    by_cases h : accumulated * v < bound
    · rw [if_pos h, ih h, List.prod_cons, Nat.mul_assoc]
      refine and_congr_left' ⟨fun hk k => ?_, fun hk k => ?_⟩
      · cases k with
        | zero => simpa using ha
        | succ k =>
          rw [List.take_succ_cons, List.prod_cons, ← Nat.mul_assoc]
          exact hk k
      · have hnext := hk (k + 1)
        rwa [List.take_succ_cons, List.prod_cons, ← Nat.mul_assoc] at hnext
    · rw [if_neg h]
      refine ⟨nofun, fun ⟨hk, _⟩ => absurd (hk 1) ?_⟩
      simpa using h

/-- **A product is computed as a word exactly when every partial product is one**, and then it is
    the product. -/
theorem product?_eq_some (values : List Nat) (n : Nat) :
    product? values = some n ↔ Countable values ∧ n = values.prod := by
  unfold product? Countable
  rw [productFrom?_eq_some (by decide)]
  simp only [Nat.one_mul]

theorem product?_eq_none (values : List Nat) : product? values = none ↔ ¬ Countable values := by
  constructor
  · intro hn hc
    have hsome := (product?_eq_some values values.prod).mpr ⟨hc, rfl⟩
    rw [hn] at hsome
    cases hsome
  · intro h
    cases hp : product? values with
    | none => rfl
    | some n => exact absurd ((product?_eq_some values n).mp hp).1 h

/-! ## 3. Signed readings -/

/-- **A number is its own signed reading exactly when it is below the half of the words.** -/
theorem signed_eq_self (n : Nat) : signed n = n ↔ n < 2 ^ 63 := by
  unfold signed bound
  rw [Int.bmod_def]
  split <;> omega

/-- A word of the upper half stands for a negative number. -/
theorem signed_of_large {n : Nat} (hn : n < bound) (h : 2 ^ 63 ≤ n) : signed n = n - bound := by
  unfold signed
  rw [Int.bmod_def]
  unfold bound at *
  split <;> omega

theorem isSigned_iff (i : Int) : isSigned i = true ↔ -(2 ^ 63) ≤ i ∧ i < 2 ^ 63 := by
  unfold isSigned
  rw [Bool.and_eq_true, decide_eq_true_eq, decide_eq_true_eq]

end TensorGraph.Word
