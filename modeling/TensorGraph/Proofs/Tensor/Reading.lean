import TensorGraph.Number.Nearest
import TensorGraph.Proofs.Tensor.Backed

/-!
# Tensors read inside their buffers

Three computations find elements in a buffer, and none of them knows of the others: the offset of a
single position, the walk over all positions, and the reach that was compared with the buffer when the
tensor was made. They agree:

* `Tensor.Made` -- the tensors that can be had: over a buffer, over all elements of a buffer, without a
  buffer, and the views and copies of those, in any number and order;
* `Backed.float_eq`, `Backed.exists_floats`, `Backed.exists_contiguous` -- a backed tensor with data
  reads at every position, lists all its elements and can be copied;
* `Made.reads_inside_buffer` -- and every tensor that can be had is backed.

Lengths and strides are arbitrary: a stride may be 0 and an axis may be empty. A shape whose number of
elements or reach is no word backs no tensor with data, for the check that makes one faults.
-/

namespace TensorGraph

/-- **Cells at offsets inside a storage are gathered as they are**, in the order of the offsets. -/
theorem Storage.exists_cells {s : Storage} {offsets : List Nat} (h : ∀ o ∈ offsets, o < s.size) :
    ∃ cells : Array (Element s.elementType), s.gather offsets = .ok ⟨s.elementType, cells⟩ ∧
      cells.size = offsets.length ∧
      ∀ (k o : Nat), offsets[k]? = some o → cells[k]? = s.cells[o]? := by
  have hfound : ∀ o ∈ offsets, (s.cells[o]?).isSome = true := by
    intro o ho
    have hlt : o < s.cells.size := h o ho
    rw [Array.getElem?_eq_getElem hlt]
    rfl
  obtain ⟨cells, hcells, hlen⟩ := exists_mapM_eq_some hfound
  refine ⟨cells.toArray, ?_, hlen, fun k o hk => ?_⟩
  · unfold Storage.gather
    rw [hcells]
  · rw [List.getElem?_toArray, getElem?_of_mapM_eq_some hcells, hk]
    rfl

namespace Tensor

variable {x : Tensor} {buffer : Buffer}

/-! ## 1. Tensors that can be had -/

/-- A tensor over a buffer, over all elements of a buffer or without a buffer, or a view or a copy of a
    tensor that can be had. -/
inductive Made : Tensor → Prop where
  | ofBuffer {shape : Shape} {buffer : Buffer} {x : Tensor} :
      ofBuffer shape buffer = .ok x → Made x
  | dense {lengths : List Nat} {buffer : Buffer} {x : Tensor} : dense lengths buffer = .ok x → Made x
  | placeholder (shape : Shape) : Made (placeholder shape)
  | view {x y : Tensor} {shape : Shape} : Made x → x.view shape = .ok y → Made y
  | contiguous {x y : Tensor} {identity : Nat} : Made x → x.contiguous identity = .ok y → Made y

/-- **Whatever makes a tensor has its buffer checked.** -/
theorem Made.backed (h : x.Made) : x.Backed := by
  induction h with
  | ofBuffer h => exact (ofBuffer_eq_ok.mp h).2
  | dense h =>
    obtain ⟨_, _, h⟩ := Outcome.bind_eq_ok.mp h
    have hmade := (Outcome.check_eq_ok.mp h).2
    exact (ofBuffer_eq_ok.mp hmade).2
  | placeholder shape => exact backed_placeholder shape
  | view _ h _ => exact (view_eq_ok.mp h).2
  | contiguous _ h _ => exact (contiguous_eq_ok h).2.1

/-! ## 2. The walk -/

/-- **A walk over a backed tensor starts, and it stays inside the buffer.** -/
theorem Backed.walk_inside (h : x.Backed) (hb : x.buffer = some buffer) :
    ∃ w, x.shape.walk = .ok w ∧ w.toList = x.shape.offsets ∧
      ∀ o ∈ w.toList, o < buffer.storage.size := by
  have hd : x.hasData = true := Option.isSome_iff_exists.mpr ⟨buffer, hb⟩
  refine ⟨Walk.start x.shape, Shape.walk_eq_ok.mpr ⟨h.countable hd, rfl⟩, rfl, ?_⟩
  intro o ho
  have hoffsets : o ∈ x.shape.offsets := ho
  rw [Shape.offsets_eq] at hoffsets
  obtain ⟨index, hi, rfl⟩ := List.mem_map.mp hoffsets
  exact h.offset_lt_size hb hi

/-! ## 3. Single elements -/

/-- **A backed tensor with data reads at every position.** -/
theorem Backed.float_eq [ShortFloats] (h : x.Backed) (hb : x.buffer = some buffer) {index : List Nat}
    (hi : index ∈ positions x.shape.lengths) :
    x.float index = floatAt buffer.storage (offset x.shape.axes index) ∧
      ∃ value, x.float index = .ok value := by
  obtain ⟨_, _, hreach, _⟩ := checkBacks_eq_ok.mp (h buffer hb)
  have hlt : offset x.shape.axes index < buffer.storage.cells.size := h.offset_lt_size hb hi
  have hword : offset x.shape.axes index < Word.bound :=
    Nat.lt_trans (Shape.offset_lt_bufferReach hi) hreach
  have hfloat : x.float index = floatAt buffer.storage (offset x.shape.axes index) := by
    unfold float storage
    rw [hb, Shape.offset?_of_mem hi hword]
    rfl
  refine ⟨hfloat, ?_⟩
  rw [hfloat]
  unfold floatAt Storage.float?
  rw [Array.getElem?_eq_getElem hlt]
  exact ⟨_, rfl⟩

/-- **A tensor with data reads exactly at its positions**, and a placeholder reads nowhere. -/
theorem Backed.float_eq_ok_iff [ShortFloats] (h : x.Backed) (index : List Nat) :
    (∃ value, x.float index = .ok value) ↔
      x.hasData = true ∧ index ∈ positions x.shape.lengths := by
  constructor
  · intro hread
    obtain ⟨value, hread⟩ := hread
    obtain ⟨storage, hs, hread⟩ := Outcome.bind_eq_ok.mp hread
    obtain ⟨o, ho, _⟩ := Outcome.bind_eq_ok.mp hread
    have hrange := ((x.shape.offset?_eq_ok_iff index o).mp ho).1
    refine ⟨?_, (inRange_iff _ index).mp hrange⟩
    unfold Tensor.storage at hs
    split at hs
    · rename_i buffer hb
      exact Option.isSome_iff_exists.mpr ⟨buffer, hb⟩
    · cases hs
  · intro hread
    obtain ⟨hd, hi⟩ := hread
    obtain ⟨buffer, hb⟩ := Option.isSome_iff_exists.mp hd
    exact (h.float_eq hb hi).2

/-! ## 4. All elements -/

theorem floats_of_buffer [ShortFloats] (hb : x.buffer = some buffer) :
    x.floats = x.shape.offsets.mapM (floatAt buffer.storage) := by
  unfold floats storage
  rw [hb]
  rfl

theorem gathered_of_buffer (hb : x.buffer = some buffer) :
    x.gathered = buffer.storage.gather x.shape.offsets := by
  unfold gathered storage
  rw [hb]
  rfl

/-- Tensors that walk one buffer alike have the same elements in the same order. -/
theorem sequences_congr [ShortFloats] {y : Tensor} (hd : x.hasData = true) (hb : y.buffer = x.buffer)
    (ho : y.shape.offsets = x.shape.offsets) : y.gathered = x.gathered ∧ y.floats = x.floats := by
  obtain ⟨buffer, hx⟩ := Option.isSome_iff_exists.mp hd
  have hy : y.buffer = some buffer := hb.trans hx
  rw [gathered_of_buffer hx, gathered_of_buffer hy, floats_of_buffer hx, floats_of_buffer hy, ho]
  exact ⟨rfl, rfl⟩

/-- **A backed tensor with data lists its elements**: place by place what is read at the position. -/
theorem Backed.exists_floats [ShortFloats] (h : x.Backed) (hb : x.buffer = some buffer) :
    ∃ values, x.floats = .ok values ∧ values.length = x.shape.elementCount ∧
      ∀ (k : Nat) (index : List Nat), (positions x.shape.lengths)[k]? = some index →
        ∃ value, values[k]? = some value ∧ x.float index = .ok value := by
  have hfloats := floats_of_buffer hb
  have hread : ∀ o ∈ x.shape.offsets, ∃ value, floatAt buffer.storage o = .ok value := by
    intro o ho
    rw [Shape.offsets_eq] at ho
    obtain ⟨index, hi, rfl⟩ := List.mem_map.mp ho
    obtain ⟨hfloat, hvalue⟩ := h.float_eq hb hi
    rwa [hfloat] at hvalue
  obtain ⟨values, hvalues⟩ := Outcome.exists_mapM_eq_ok hread
  rw [← hfloats] at hvalues
  obtain ⟨hlen, _⟩ := floats_eq_ok h hvalues
  refine ⟨values, hvalues, hlen, fun k index hk => ?_⟩
  have hoffset : x.shape.offsets[k]? = some (offset x.shape.axes index) := by
    rw [Shape.offsets_eq, List.getElem?_map, hk]
    rfl
  rw [hfloats] at hvalues
  obtain ⟨value, hvalue, hget⟩ := (Outcome.mapM_eq_ok hvalues).2 k _ hoffset
  exact ⟨value, hget, ((h.float_eq hb (List.mem_of_getElem? hk)).1).trans hvalue⟩

/-- **A backed tensor with data is gathered cell by cell**, each from the offset of its position. -/
theorem Backed.exists_cells (h : x.Backed) (hb : x.buffer = some buffer) :
    ∃ cells : Array (Element buffer.storage.elementType),
      x.gathered = .ok ⟨buffer.storage.elementType, cells⟩ ∧ cells.size = x.shape.elementCount ∧
      ∀ (k : Nat) (index : List Nat), (positions x.shape.lengths)[k]? = some index →
        cells[k]? = buffer.storage.cells[offset x.shape.axes index]? := by
  obtain ⟨w, _, hw, hinside⟩ := h.walk_inside hb
  rw [hw] at hinside
  obtain ⟨cells, hgather, hsize, hcells⟩ := Storage.exists_cells hinside
  refine ⟨cells, (gathered_of_buffer hb).trans hgather, ?_, fun k index hk => hcells k _ ?_⟩
  · rw [hsize, Shape.offsets_eq, List.length_map, length_positions]
    rfl
  · rw [Shape.offsets_eq, List.getElem?_map, hk]
    rfl

/-- What is gathered has the element type of the tensor, and one element for each position. -/
theorem Backed.exists_gathered (h : x.Backed) (hb : x.buffer = some buffer) :
    ∃ gathered, x.gathered = .ok gathered ∧ gathered.elementType = x.shape.elementType ∧
      gathered.size = x.shape.lengths.prod := by
  obtain ⟨cells, hgathered, hsize, _⟩ := h.exists_cells hb
  exact ⟨_, hgathered, (checkBacks_eq_ok.mp (h buffer hb)).1, hsize⟩

/-- **A backed tensor with data can be copied.** The copy is row-major, so it reaches exactly as far
    as there are elements to copy. -/
theorem Backed.exists_contiguous (h : x.Backed) (hb : x.buffer = some buffer) (identity : Nat) :
    ∃ y, x.contiguous identity = .ok y := by
  obtain ⟨_, hcount, _, _⟩ := checkBacks_eq_ok.mp (h buffer hb)
  obtain ⟨gathered, hgathered, htype, hlength⟩ := h.exists_gathered hb
  have hreach : x.shape.toStandard.bufferReach = x.shape.lengths.prod :=
    Shape.bufferReach_standard _ hcount.prod_lt
  have hlengths : x.shape.toStandard.lengths = x.shape.lengths := Shape.lengths_standard _ _
  have hchecked : checkBacks x.shape.toStandard gathered = .ok () := by
    refine checkBacks_eq_ok.mpr ⟨htype, ?_, ?_, ?_⟩
    · rwa [hlengths]
    · rw [hreach]
      exact hcount.prod_lt
    · exact Nat.le_of_eq (hreach.trans hlength.symm)
  -- so the check of the new buffer cannot fail
  have hcopy : (Tensor.mk x.shape.toStandard (some ⟨identity, gathered⟩)).Backed := by
    intro buffer hb
    cases hb
    exact hchecked
  exact ⟨_, Outcome.bind_eq_ok.mpr ⟨gathered, hgathered, ofBuffer_eq_ok.mpr ⟨rfl, hcopy⟩⟩⟩

/-! ## 5. Every tensor -/

/-- **Tensors never read outside their buffers.** Let a tensor be made over buffers, by views and by
    copies. Its buffer, if it has one, has the shape's element type and is as long as the shape
    reaches, and the walk over the shape starts and stays inside. So an element is read exactly at the
    coordinates that are as many as the axes and below the lengths; the list of all elements is there,
    place by place what is read at the position; and a copy is there. -/
theorem Made.reads_inside_buffer [ShortFloats] (hx : x.Made) :
    (∀ buffer, x.buffer = some buffer →
      buffer.storage.elementType = x.shape.elementType ∧
      x.shape.bufferReach ≤ buffer.storage.size ∧
      ∃ w, x.shape.walk = .ok w ∧ w.toList = x.shape.offsets ∧
        ∀ o ∈ w.toList, o < buffer.storage.size) ∧
    (x.hasData = true →
      (∀ index, (∃ value, x.float index = .ok value) ↔
        index.length = x.shape.rank ∧
          ∀ a, a < x.shape.rank → index.getD a 0 < x.shape.lengths.getD a 0) ∧
      (∃ values, x.floats = .ok values ∧ values.length = x.shape.elementCount ∧
        ∀ k, k < x.shape.elementCount → ∃ index value,
          (positions x.shape.lengths)[k]? = some index ∧ values[k]? = some value ∧
            x.float index = .ok value) ∧
      ∀ identity, ∃ y, x.contiguous identity = .ok y) := by
  have hbacked : x.Backed := hx.backed
  constructor
  · intro buffer hb
    obtain ⟨ht, _, _, hsize⟩ := checkBacks_eq_ok.mp (hbacked buffer hb)
    exact ⟨ht, hsize, hbacked.walk_inside hb⟩
  · intro hd
    obtain ⟨buffer, hb⟩ := Option.isSome_iff_exists.mp hd
    refine ⟨fun index => ?_, ?_, hbacked.exists_contiguous hb⟩
    · rw [hbacked.float_eq_ok_iff, and_iff_right hd, mem_positions_iff, Shape.length_lengths]
    · obtain ⟨values, hvalues, hlen, hread⟩ := hbacked.exists_floats hb
      refine ⟨values, hvalues, hlen, fun k hk => ?_⟩
      have hposition := getElem?_positions hk
      obtain ⟨value, hvalue, hfloat⟩ := hread k _ hposition
      exact ⟨_, value, hposition, hvalue, hfloat⟩

/-- A transposed matrix, twice: twelve positions that share a buffer of six elements. It reads at them
    and nowhere else, it lists them, and it can be copied. -/
theorem reads_inside_repeated_columns :
    let buffer : Buffer := ⟨1, .ofPatterns .u8 [0, 1, 2, 3, 4, 5]⟩
    let x : Tensor := ⟨⟨.u8, [⟨2, 0⟩, ⟨3, 1⟩, ⟨2, 3⟩]⟩, some buffer⟩
    x.Made ∧ (∃ values, x.floats = .ok values ∧ values.length = 12) ∧
      (∃ value, x.float [1, 2, 1] = .ok value) ∧ ¬ (∃ value, x.float [1, 3, 0] = .ok value) ∧
      ∃ y, x.contiguous 2 = .ok y := by
  intro buffer x
  let matrix : Tensor := ⟨.standard .u8 [2, 3], some buffer⟩
  have hmatrix : ofBuffer matrix.shape buffer = .ok matrix := rfl
  have hview : matrix.view x.shape = .ok x := rfl
  have hx : x.Made := .view (.ofBuffer hmatrix) hview
  obtain ⟨hindex, hfloats, hcopy⟩ := hx.reads_inside_buffer.2 rfl
  refine ⟨hx, ?_, (hindex _).mpr (by decide), ?_, hcopy 2⟩
  · obtain ⟨values, hvalues, hlen, _⟩ := hfloats
    exact ⟨values, hvalues, hlen⟩
  · intro h
    exact absurd ((hindex _).mp h) (by decide)

end Tensor

end TensorGraph
