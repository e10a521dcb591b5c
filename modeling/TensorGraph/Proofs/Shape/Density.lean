import TensorGraph.Proofs.Shape.Reach

/-!
# Row-major shapes are dense

In row-major order the offset of a position is its place among the positions, so a row-major shape fills
its buffer without a gap and without an element that is read twice. With the element count a word, this
ties together what is computed in three ways:

* `placeOf_lt_placeOf_iff` -- places follow the lexicographic order of the positions;
* `Shape.offsets_of_isStandard` -- the walk over a row-major shape counts from 0;
* `Shape.row_major_dense` -- the three of them, and that offsets are a strictly increasing bijection.

A stride held at the largest word does no harm: it belongs to a shape with an empty axis, in which there is
no position.
-/

namespace TensorGraph

/-! ## 1. Places in lexicographic order -/

/-- **Places follow the lexicographic order of the positions.** -/
theorem placeOf_lt_placeOf_iff {lengths index other : List Nat} (hi : index ∈ positions lengths)
    (ho : other ∈ positions lengths) :
    placeOf lengths index < placeOf lengths other ↔ index < other := by
  induction lengths generalizing index other with
  | nil =>
    rw [positions, List.mem_singleton] at hi ho
    subst hi ho
    simp [placeOf]
  | cons length rest ih =>
    obtain ⟨i, is, rfl, _, his⟩ := mem_positions_cons.mp hi
    obtain ⟨j, js, rfl, _, hjs⟩ := mem_positions_cons.mp ho
    have hrest := ih his hjs
    have hinner : placeOf rest is < rest.prod := placeOf_lt his
    have hinner' : placeOf rest js < rest.prod := placeOf_lt hjs
    rw [placeOf, placeOf, List.cons_lt_cons_iff]
    -- a step of the outer coordinate skips a whole block of inner places
    rcases Nat.lt_trichotomy i j with h | rfl | h
    · have hblock : (i + 1) * rest.prod ≤ j * rest.prod := Nat.mul_le_mul_right _ h
      rw [Nat.succ_mul] at hblock
      simp only [h, true_or, iff_true]
      omega
    · rw [Nat.add_lt_add_iff_left, hrest]
      simp
    · have hblock : (j + 1) * rest.prod ≤ i * rest.prod := Nat.mul_le_mul_right _ h
      rw [Nat.succ_mul] at hblock
      have hne : i ≠ j := Nat.ne_of_gt h
      simp only [Nat.lt_asymm h, hne, false_and, or_false, iff_false]
      omega

namespace Shape

variable {s : Shape}

/-! ## 2. Row-major shapes -/

/-- **The walk over a row-major shape counts from 0.** -/
theorem offsets_of_isStandard (hs : s.isStandard = true) (hb : s.lengths.prod < Word.bound) :
    s.offsets = List.range s.elementCount := by
  rw [offsets_eq, positions_eq, List.map_map]
  have hplace : ∀ k ∈ List.range s.lengths.prod,
      (offset s.axes ∘ nthPosition s.lengths) k = k := by
    intro k hk
    have hk : k < s.lengths.prod := List.mem_range.mp hk
    have hposition : nthPosition s.lengths k ∈ positions s.lengths :=
      List.mem_of_getElem? (getElem?_positions hk)
    rw [Function.comp_apply, offset_of_isStandard hs hposition hb, placeOf_nthPosition hk]
  rw [List.map_congr_left hplace, List.map_id']
  rfl

/-- In a row-major shape the positions, and they alone, have offsets: their places. -/
theorem offset?_of_isStandard (hs : s.isStandard = true) (hb : s.lengths.prod < Word.bound)
    {index : List Nat} {o : Nat} :
    s.offset? index = .ok o ↔ index ∈ positions s.lengths ∧ placeOf s.lengths index = o := by
  rw [offset?_eq_ok_iff, inRange_iff]
  refine and_congr_right fun hi => ?_
  rw [offset_of_isStandard hs hi hb]
  refine and_iff_left_of_imp fun ho => ?_
  rw [← ho]
  exact Nat.lt_trans (placeOf_lt hi) hb

/-! ## 3. Density -/

/-- **Row-major layout is dense.** Let a shape be row-major and its elements be counted as `n`. Then the shape
    reaches as far as it has elements; the walk over it counts 0, 1, …, `n - 1` and yields nothing after
    that; and offsets are a strictly increasing bijection: exactly the positions have one, it is below
    `n`, each number below `n` is the offset of just one position, and of two positions the one that comes
    first in lexicographic order has the smaller offset. Some axes may be empty, and then `n` is 0. -/
theorem row_major_dense {n : Nat} (hs : s.isStandard = true) (hn : s.elementCount? = .ok n) :
    s.bufferReachWord = .ok n ∧
    (∃ w, s.walk = .ok w ∧ w.toList = List.range n ∧
      ∀ steps, (Walk.take steps w).1 = List.range (min steps n)) ∧
    (∀ index, InRange s.axes index ↔ ∃ o, o < n ∧ s.offset? index = .ok o) ∧
    (∀ o, o < n → ∃! index, s.offset? index = .ok o) ∧
    ∀ index other o o', s.offset? index = .ok o → s.offset? other = .ok o' →
      (index < other ↔ o < o') := by
  obtain ⟨hcountable, rfl⟩ := elementCount?_eq_ok.mp hn
  have hb : s.lengths.prod < Word.bound := hcountable.prod_lt
  have hreach : s.bufferReach = s.elementCount := bufferReach_of_isStandard hs hb
  have hoffset {index : List Nat} {o : Nat} :
      s.offset? index = .ok o ↔ index ∈ positions s.lengths ∧ placeOf s.lengths index = o :=
    offset?_of_isStandard hs hb
  refine ⟨?_, ⟨Walk.start s, walk_eq_ok.mpr ⟨hcountable, rfl⟩, offsets_of_isStandard hs hb, ?_⟩,
    fun index => ?_, fun o ho => ?_, fun index other o o' hi ho => ?_⟩
  · refine bufferReachWord_eq_ok.mpr ⟨hcountable, ?_, hreach.symm⟩
    rw [hreach]
    exact hb
  · intro steps
    rw [Walk.start_eq, Walk.take_standing s steps (Nat.zero_le _), List.drop_zero, List.map_take,
      ← offsets_eq, offsets_of_isStandard hs hb, List.take_range]
  · rw [inRange_iff]
    constructor
    · intro hi
      exact ⟨_, placeOf_lt hi, hoffset.mpr ⟨hi, rfl⟩⟩
    · intro h
      obtain ⟨_, _, ho⟩ := h
      exact (hoffset.mp ho).1
  · refine ⟨nthPosition s.lengths o, ?_, fun index hi => ?_⟩
    · exact hoffset.mpr ⟨List.mem_of_getElem? (getElem?_positions ho), placeOf_nthPosition ho⟩
    · obtain ⟨hposition, hplace⟩ := hoffset.mp hi
      rw [← hplace, nthPosition_placeOf hposition]
  · obtain ⟨hposition, rfl⟩ := hoffset.mp hi
    obtain ⟨hposition', rfl⟩ := hoffset.mp ho
    exact (placeOf_lt_placeOf_iff hposition hposition').symm

/-- A cube of 24 elements: just one position lies at offset 17, and of 30 steps of the walk only 24 yield
    something. And a shape with an empty axis in front of so many positions that the stride of the empty axis
    is held at the largest word: nothing is reached and nothing is visited. -/
theorem cube_dense :
    let cube : Shape := .standard .f32 [2, 3, 4]
    let hollow : Shape := .standard .f32 [0, 2 ^ 40, 2 ^ 40]
    cube.bufferReachWord = .ok 24 ∧ (∃! index, cube.offset? index = .ok 17) ∧
      (∃ w, cube.walk = .ok w ∧ (Walk.take 30 w).1 = List.range 24) ∧
      hollow.strides = [Word.largest, 2 ^ 40, 1] ∧ hollow.bufferReachWord = .ok 0 ∧
      ∃ w, hollow.walk = .ok w ∧ w.toList = [] := by
  intro cube hollow
  have hcube : cube.isStandard = true := by decide
  have hhollow : hollow.isStandard = true := by decide
  obtain ⟨hreach, ⟨w, hw, _, hsteps⟩, _, hunique, _⟩ :=
    row_major_dense hcube (rfl : cube.elementCount? = .ok 24)
  obtain ⟨hreach', ⟨w', hw', hall, _⟩, _⟩ :=
    row_major_dense hhollow (rfl : hollow.elementCount? = .ok 0)
  exact ⟨hreach, hunique 17 (by decide), ⟨w, hw, hsteps 30⟩, rfl, hreach', w', hw', hall⟩

end Shape

end TensorGraph
