import TensorGraph.Proofs.Operator.Totality
import TensorGraph.Proofs.Shape.Density
import TensorGraph.Proofs.Tensor.Reading

/-!
# What a reshape accepts and what it keeps

A reshape is told a dimension for each axis of its result: a length, a 0 for the operand's length at that
position, or a last -1 for what is left over. Dimensions that are understood stand for known lengths, and
perhaps for one more (`Reshape.resolved`).

* `Reshape.infer_eq_ok` -- when a shape is inferred, and which: the known lengths multiply to the element
  count or, with one length to be inferred, divide it;
* `Reshape.kept_of_infer` -- what all such shapes have in common with the operand's;
* `Reshape.view_of_infer` -- a row-major tensor is reshaped to a view that is walked as before;
* `Reshape.reshape_exact` -- the three of them, for operands whose elements a word can count.

The known lengths are multiplied as words. Over an operand with elements that is no further condition,
since a product that divides the element count has no partial product larger than that
(`Word.countable_of_dvd`). Over an operand without elements it is one.
-/

namespace TensorGraph

open Outcome

namespace Reshape

variable {dims : List Int} {input output : Shape}

/-! ## 1. The lengths that dimensions stand for -/

theorem length?_of_pos {d : Int} (hd : 0 < d) (lengths : List Nat) (position : Nat) :
    length? lengths d position = some d.toNat := by
  unfold length?
  rw [if_neg (Int.ne_of_gt hd), if_pos hd]

theorem length?_of_lt {lengths : List Nat} {position : Nat} (h : position < lengths.length) :
    length? lengths 0 position = some lengths[position] := by
  unfold length?
  rw [if_pos rfl, List.getElem?_eq_getElem h]

/-- The lengths that dimensions stand for from the position on, with the given one for a dimension that is
    to be inferred. -/
def resolved (lengths : List Nat) (inferred position : Nat) (dims : List Int) : List Nat :=
  (dims.zipIdx position).map fun p => (length? lengths p.1 p.2).getD inferred

/-- Of dimensions that are understood, only the last one may be inferred. -/
theorem resolved_eq {lengths : List Nat} (inferred : Nat) {position : Nat}
    (h : Understood lengths.length position dims) :
    resolved lengths inferred position dims =
      known lengths position dims ++ if dims.getLast? == some (-1) then [inferred] else [] := by
  induction dims generalizing position with
  | nil => rfl
  | cons d rest ih =>
    obtain ⟨hd, hrest⟩ := (understood_cons _ _ _ _).mp h
    have hcons : resolved lengths inferred position (d :: rest) =
        (length? lengths d position).getD inferred :: resolved lengths inferred (position + 1) rest := rfl
    rw [hcons, ih hrest, known_cons]
    rcases hd with hd | ⟨rfl, hp⟩ | ⟨rfl, rfl⟩
    · rw [length?_of_pos hd, last_cons (by omega)]
      rfl
    · rw [length?_of_lt hp, last_cons (by decide)]
      rfl
    · rfl

/-- Each dimension gives the length of its axis: its own, the operand's at the position, or the inferred
    one. -/
theorem getElem?_resolved (lengths : List Nat) (inferred : Nat) (dims : List Int) (k : Nat) :
    (resolved lengths inferred 0 dims)[k]? =
      dims[k]?.map fun d => (length? lengths d k).getD inferred := by
  unfold resolved
  rw [List.getElem?_map, List.getElem?_zipIdx, Option.map_map, Nat.zero_add]
  rfl

theorem length_resolved (lengths : List Nat) (inferred position : Nat) (dims : List Int) :
    (resolved lengths inferred position dims).length = dims.length := by
  unfold resolved
  rw [List.length_map, List.length_zipIdx]

/-! ## 2. What is accepted -/

/-- The known lengths leave no element over: they multiply to the element count or, where a last length is
    inferred, divide it. There is no division by 0. -/
def ComesOut (dims : List Int) (known elements : Nat) : Prop :=
  if dims.getLast? == some (-1) then known ≠ 0 ∧ known ∣ elements else known = elements

theorem ComesOut.dvd {known elements : Nat} (h : ComesOut dims known elements) : known ∣ elements := by
  unfold ComesOut at h
  split at h
  · exact h.2
  · exact h ▸ Nat.dvd_refl known

/-- Nothing but 0 is divided by 0. -/
theorem comesOut_iff {known elements : Nat} (h0 : elements ≠ 0) : ComesOut dims known elements ↔
    if dims.getLast? = some (-1) then known ∣ elements else known = elements := by
  unfold ComesOut
  by_cases hlast : dims.getLast? = some (-1)
  · rw [if_pos (beq_iff_eq.mpr hlast), if_pos hlast]
    exact and_iff_right_of_imp fun hd hk => h0 (Nat.eq_zero_of_zero_dvd (hk ▸ hd))
  · rw [if_neg (mt beq_iff_eq.mp hlast), if_neg hlast]

theorem complete_eq_ok {elements known : Nat} {lengths completed : List Nat} :
    complete elements lengths (dims.getLast? == some (-1)) known = .ok completed ↔
      ComesOut dims known elements ∧
        completed = lengths ++ if dims.getLast? == some (-1) then [elements / known] else [] := by
  unfold complete ComesOut
  cases dims.getLast? == some (-1) with
  | true =>
    rw [if_pos rfl, checkIn_eq_ok, not_or, Decidable.not_not, Nat.dvd_iff_mod_eq_zero]
    simp only [if_true, Except.ok.injEq, eq_comm]
  | false =>
    rw [if_neg Bool.false_ne_true, checkIn_eq_ok, Decidable.not_not]
    simp only [Bool.false_eq_true, if_false, List.append_nil, Except.ok.injEq, eq_comm]

/-- **A reshape is inferred** from dimensions that are understood and whose known lengths come out, with a
    word for each partial product of those and of the operand's lengths. -/
theorem infer_eq_ok {shapes : List Shape} : infer dims shapes = .ok output ↔
    ∃ input, shapes = [input] ∧ Understood input.lengths.length 0 dims ∧
      Word.Countable input.lengths ∧ Word.Countable (known input.lengths 0 dims) ∧
      ComesOut dims (known input.lengths 0 dims).prod input.elementCount ∧
      output = .standard input.elementType
        (resolved input.lengths (input.elementCount / (known input.lengths 0 dims).prod) 0 dims) := by
  constructor
  · intro h
    unfold infer at h
    obtain ⟨input, hone, h⟩ := bind_eq_ok.mp h
    obtain ⟨p, hp, h⟩ := bind_eq_ok.mp h
    have hu := understood_of_lengthsFrom _ hp
    rw [lengthsFrom_of_understood _ hu] at hp
    cases hp
    dsimp only at h
    -- the known lengths are multiplied before the operand's are
    split at h
    · cases h
    · rename_i n hn
      obtain ⟨hk, rfl⟩ := (Word.product?_eq_some _ _).mp hn
      obtain ⟨elements, he, h⟩ := bind_eq_ok.mp h
      obtain ⟨completed, hc, h⟩ := bind_eq_ok.mp h
      obtain ⟨hcount, rfl⟩ := Shape.elementCountWord_eq_ok.mp he
      obtain ⟨hcomes, rfl⟩ := complete_eq_ok.mp hc
      cases h
      exact ⟨input, (Operands.one_eq_ok _ _).mp hone, hu, hcount, hk, hcomes, by rw [resolved_eq _ hu]⟩
  · intro h
    obtain ⟨input, rfl, hu, hcount, hk, hcomes, rfl⟩ := h
    unfold infer
    refine bind_eq_ok.mpr ⟨input, (Operands.one_eq_ok _ _).mpr rfl, ?_⟩
    refine bind_eq_ok.mpr ⟨_, lengthsFrom_of_understood _ hu, ?_⟩
    dsimp only
    rw [(Word.product?_eq_some _ _).mpr ⟨hk, rfl⟩]
    refine bind_eq_ok.mpr ⟨_, Shape.elementCountWord_eq_ok.mpr ⟨hcount, rfl⟩, ?_⟩
    refine bind_eq_ok.mpr ⟨_, complete_eq_ok.mpr ⟨hcomes, rfl⟩, ?_⟩
    rw [resolved_eq _ hu]
    rfl

theorem understood_zero {rank : Nat} : Understood rank 0 dims ↔ ∀ k d, dims[k]? = some d →
    0 < d ∨ d = 0 ∧ k < rank ∨ d = -1 ∧ k + 1 = dims.length := by
  unfold Understood
  simp only [Nat.zero_add]

/-- **Over an operand with elements only the product of the known lengths matters**, for where it comes out
    its partial products are words. -/
theorem exists_infer_iff (hc : Word.Countable input.lengths) (h0 : input.elementCount ≠ 0) :
    (∃ output, infer dims [input] = .ok output) ↔ Understood input.rank 0 dims ∧
      if dims.getLast? = some (-1) then (known input.lengths 0 dims).prod ∣ input.elementCount
      else (known input.lengths 0 dims).prod = input.elementCount := by
  rw [← comesOut_iff h0, ← Shape.length_lengths]
  constructor
  · intro h
    obtain ⟨output, h⟩ := h
    obtain ⟨_, hone, hu, _, _, hcomes, _⟩ := infer_eq_ok.mp h
    cases hone
    exact ⟨hu, hcomes⟩
  · intro h
    obtain ⟨hu, hcomes⟩ := h
    have hk := Word.countable_of_dvd h0 hc.prod_lt hcomes.dvd
    exact ⟨_, infer_eq_ok.mpr ⟨input, rfl, hu, hc, hk, hcomes, rfl⟩⟩

/-! ## 3. What is kept -/

theorem prod_resolved {lengths : List Nat} {elements : Nat} (hu : Understood lengths.length 0 dims)
    (hcomes : ComesOut dims (known lengths 0 dims).prod elements) :
    (resolved lengths (elements / (known lengths 0 dims).prod) 0 dims).prod = elements := by
  rw [resolved_eq _ hu, List.prod_append]
  unfold ComesOut at hcomes
  split at hcomes
  · rename_i hlast
    rw [if_pos hlast, List.prod_singleton]
    exact Nat.mul_div_cancel' hcomes.2
  · rename_i hlast
    rw [if_neg hlast, List.prod_nil, Nat.mul_one, hcomes]

/-- The inferred length comes last, so the partial products are those of the known lengths and the element
    count. -/
theorem countable_resolved {lengths : List Nat} {elements : Nat}
    (hu : Understood lengths.length 0 dims) (he : elements < Word.bound)
    (hk : Word.Countable (known lengths 0 dims))
    (hcomes : ComesOut dims (known lengths 0 dims).prod elements) :
    Word.Countable (resolved lengths (elements / (known lengths 0 dims).prod) 0 dims) := by
  have hprod := prod_resolved hu hcomes
  rw [resolved_eq _ hu] at hprod ⊢
  by_cases hlast : (dims.getLast? == some (-1)) = true
  · rw [if_pos hlast] at hprod ⊢
    exact hk.concat (by rwa [hprod])
  · rwa [if_neg hlast, List.append_nil]

/-- **Each dimension gives the length of its axis**: its own, the operand's at the position, or whatever
    length where it is to be inferred. -/
theorem lengths_of_infer (h : infer dims [input] = .ok output) :
    output.rank = dims.length ∧ ∀ k d, dims[k]? = some d →
      0 < d ∧ output.lengths[k]? = some d.toNat ∨
      d = 0 ∧ k < input.rank ∧ output.lengths[k]? = input.lengths[k]? ∨
      d = -1 ∧ k + 1 = dims.length := by
  obtain ⟨_, hone, hu, _, _, _, rfl⟩ := infer_eq_ok.mp h
  cases hone
  rw [← Shape.length_lengths, ← Shape.length_lengths, Shape.lengths_standard]
  refine ⟨length_resolved _ _ _ _, fun k d hk => ?_⟩
  rw [getElem?_resolved, hk, Option.map_some]
  rcases understood_zero.mp hu k d hk with hd | ⟨rfl, hrank⟩ | hlast
  · rw [length?_of_pos hd]
    exact Or.inl ⟨hd, rfl⟩
  · rw [length?_of_lt hrank, List.getElem?_eq_getElem hrank]
    exact Or.inr (Or.inl ⟨rfl, hrank, rfl⟩)
  · exact Or.inr (Or.inr hlast)

/-- **The element type and the element count are kept**, and the result is row-major. -/
theorem kept_of_infer (h : infer dims [input] = .ok output) :
    output.elementType = input.elementType ∧ output.isStandard = true ∧
      Word.Countable output.lengths ∧ output.lengths.prod = input.lengths.prod := by
  obtain ⟨_, hone, hu, hcount, hk, hcomes, rfl⟩ := infer_eq_ok.mp h
  cases hone
  refine ⟨rfl, Shape.isStandard_standard _ _, ?_, ?_⟩
  · rw [Shape.lengths_standard]
    exact countable_resolved hu hcount.prod_lt hk hcomes
  · rw [Shape.lengths_standard]
    exact prod_resolved hu hcomes

/-- A row-major shape that is reshaped reaches as far as before: as far as it has elements. -/
theorem bufferReach_of_infer (h : infer dims [input] = .ok output) (hs : input.isStandard = true) :
    output.bufferReach = input.bufferReach := by
  obtain ⟨_, hs', hcount, hsame⟩ := kept_of_infer h
  have hword : input.lengths.prod < Word.bound := hsame ▸ hcount.prod_lt
  rw [Shape.bufferReach_of_isStandard hs hword, Shape.bufferReach_of_isStandard hs' hcount.prod_lt]
  exact hsame

/-- A reshape views its argument, or has no kernel for it. -/
theorem run_one (output : Shape) (x : Tensor) :
    run output [x] = if x.shape.isStandard then x.view output else failIn name .noKernel := by
  show (do if !x.shape.isStandard then failIn name .noKernel
           x.view output) = _
  cases x.shape.isStandard <;> rfl

/-- **A row-major tensor is reshaped to a view** that is walked as before. -/
theorem view_of_infer {x : Tensor} (hx : x.Backed) (hs : x.shape.isStandard = true)
    (h : infer dims [x.shape] = .ok output) :
    run output [x] = .ok ⟨output, x.buffer⟩ ∧ output.offsets = x.shape.offsets := by
  obtain ⟨htype, hs', hcount, hsame⟩ := kept_of_infer h
  have hword : x.shape.lengths.prod < Word.bound := hsame ▸ hcount.prod_lt
  constructor
  · rw [run_one, if_pos hs]
    exact hx.view_eq htype hcount (Nat.le_of_eq (bufferReach_of_infer h hs))
  · rw [Shape.offsets_of_isStandard hs' hcount.prod_lt, Shape.offsets_of_isStandard hs hword]
    exact congrArg List.range hsame

/-- **Reshaping.** Let the operand's elements be counted as `n`. A shape that is inferred has the
    operand's type and is row-major, it has `n` elements, and each dimension gives the length of its axis: a
    positive one is the length, 0 stands for the operand's length at the position, and a last -1 for
    whatever length. Of an operand with elements a shape is inferred exactly if each 0 stands at a position
    of the operand, nothing else that is not positive occurs but a last -1, and the product of the known
    lengths is `n`, or divides it if there is a last -1. And a row-major tensor with data is reshaped to
    one over the same buffer, whose elements in row-major order are the same. -/
theorem reshape_exact [ShortFloats] (dims : List Int) {input : Shape} {n : Nat}
    (hn : input.elementCount? = .ok n) :
    (∀ output, infer dims [input] = .ok output →
      output.elementType = input.elementType ∧ output.isStandard = true ∧
      output.elementCount? = .ok n ∧ output.rank = dims.length ∧
      ∀ k d, dims[k]? = some d →
        0 < d ∧ output.lengths[k]? = some d.toNat ∨
        d = 0 ∧ k < input.rank ∧ output.lengths[k]? = input.lengths[k]? ∨
        d = -1 ∧ k + 1 = dims.length) ∧
    (n ≠ 0 →
      ((∃ output, infer dims [input] = .ok output) ↔
        (∀ k d, dims[k]? = some d →
          0 < d ∨ d = 0 ∧ k < input.rank ∨ d = -1 ∧ k + 1 = dims.length) ∧
        if dims.getLast? = some (-1) then (known input.lengths 0 dims).prod ∣ n
        else (known input.lengths 0 dims).prod = n)) ∧
    ∀ x output, Tensor.Made x → x.shape = input → input.isStandard = true → x.hasData = true →
      infer dims [input] = .ok output →
      ∃ y, run output [x] = .ok y ∧ y.shape = output ∧ y.buffer = x.buffer ∧
        (∃ storage, x.gathered = .ok storage ∧ y.gathered = .ok storage) ∧
        ∃ values, x.floats = .ok values ∧ y.floats = .ok values := by
  obtain ⟨hcount, rfl⟩ := Shape.elementCount?_eq_ok.mp hn
  refine ⟨fun output h => ?_, fun h0 => ?_, fun x output hx hshape hs hd h => ?_⟩
  · obtain ⟨htype, hs, hcount', hsame⟩ := kept_of_infer h
    have hkept := Shape.elementCount?_eq_ok.mpr ⟨hcount', hsame.symm⟩
    exact ⟨htype, hs, hkept, lengths_of_infer h⟩
  · rw [exists_infer_iff hcount h0, understood_zero]
  · subst hshape
    obtain ⟨hrun, hoffsets⟩ := view_of_infer hx.backed hs h
    obtain ⟨buffer, hb⟩ := Option.isSome_iff_exists.mp hd
    obtain ⟨values, hvalues, _⟩ := hx.backed.exists_floats hb
    -- a copy starts with the elements in row-major order
    obtain ⟨_, hcopy⟩ := hx.backed.exists_contiguous hb 0
    obtain ⟨storage, hstorage, _⟩ := bind_eq_ok.mp hcopy
    obtain ⟨hgathered, hfloats⟩ := Tensor.sequences_congr (y := ⟨output, x.buffer⟩) hd rfl hoffsets
    exact ⟨_, hrun, rfl, rfl, ⟨storage, hstorage, hgathered.trans hstorage⟩, values, hvalues,
      hfloats.trans hvalues⟩

/-- A volume of twelve elements, with the first length kept, the second given and the third inferred. A
    second length of 5 is refused, since 10 does not divide 12, and so is a -1 that is not the last. -/
theorem volume_reshaped :
    let input : Shape := .standard .u8 [2, 3, 2]
    let buffer : Buffer := ⟨1, .ofPatterns .u8 (List.range 12)⟩
    let x : Tensor := ⟨input, some buffer⟩
    ∃ output y, infer [0, 2, -1] [input] = .ok output ∧ output.elementCount? = .ok 12 ∧
      output.rank = 3 ∧ run output [x] = .ok y ∧
      (∃ values, x.floats = .ok values ∧ y.floats = .ok values) ∧
      (¬ ∃ output, infer [0, 5, -1] [input] = .ok output) ∧
      ¬ ∃ output, infer [-1, 12] [input] = .ok output := by
  intro input buffer x
  have hcount : input.elementCount? = .ok 12 := rfl
  have hbuffer : Tensor.ofBuffer input buffer = .ok x := rfl
  obtain ⟨hkept, haccepts, hruns⟩ := reshape_exact [0, 2, -1] hcount
  have hunderstood : ∀ (k : Nat) (d : Int), [0, 2, -1][k]? = some d →
      0 < d ∨ d = 0 ∧ k < input.rank ∨ d = -1 ∧ k + 1 = [0, 2, -1].length
    | 0, _, rfl => by decide
    | 1, _, rfl => by decide
    | 2, _, rfl => by decide
  obtain ⟨output, houtput⟩ := (haccepts (by decide)).mpr ⟨hunderstood, by decide⟩
  obtain ⟨_, _, hsame, hrank, _⟩ := hkept output houtput
  obtain ⟨y, hy, _, _, _, hvalues⟩ := hruns x output (.ofBuffer hbuffer) rfl (by decide) rfl houtput
  refine ⟨output, y, houtput, hsame, hrank, hy, hvalues, ?_, ?_⟩
  · intro h
    have hdivides := (((reshape_exact [0, 5, -1] hcount).2.1 (by decide)).mp h).2
    exact absurd hdivides (by decide)
  · intro h
    have hfront := (((reshape_exact [-1, 12] hcount).2.1 (by decide)).mp h).1 0 (-1) rfl
    exact absurd hfront (by decide)

end Reshape

end TensorGraph
