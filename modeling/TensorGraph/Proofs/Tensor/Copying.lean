import TensorGraph.Proofs.Shape.Density
import TensorGraph.Proofs.Tensor.Reading

/-!
# Copies are faithful

A copy is gathered: the walk over the tensor's shape names the offsets in row-major order, the cells at these
offsets are moved, and the new buffer is checked against the row-major shape of the same lengths. None of the
three knows of the others, and still nothing is lost on the way:

* `Storage.gather_range` -- gathering at all offsets from 0 on gives the storage back;
* `Backed.contiguous_eq` -- a copy is the row-major tensor over what was gathered, which is taken cell by
  cell (`Backed.exists_cells`); so a row-major tensor is copied as it is (`Backed.contiguous_of_isStandard`);
* `Made.copied_faithfully` -- every tensor with data can be copied, place by place with the cell of the
  position that has this place; and a copy of the copy has the same cells once more.

No cell is read as a number, so a NaN keeps its bits and an integer all of its digits.
-/

namespace TensorGraph

/-! ## 1. Gathering -/

/-- **All cells in their order are the storage.** -/
theorem Storage.gather_range (s : Storage) : s.gather (List.range s.size) = .ok s := by
  obtain ⟨cells, hgather, hsize, hcells⟩ := exists_cells fun o ho => List.mem_range.mp ho
  rw [List.length_range] at hsize
  have hsame : cells = s.cells := by
    refine Array.ext_getElem? fun k => ?_
    by_cases hk : k < s.size
    · exact hcells k k (List.getElem?_range hk)
    · have hover : s.size ≤ k := Nat.le_of_not_lt hk
      have hover' : cells.size ≤ k := by rwa [hsize]
      rw [Array.getElem?_eq_none hover', Array.getElem?_eq_none hover]
  rw [hgather, hsame]

namespace Tensor

variable {x : Tensor} {buffer : Buffer} {storage : Storage}

/-! ## 2. Copies -/

/-- **A copy is the row-major tensor over what was gathered.** -/
theorem Backed.contiguous_eq (h : x.Backed) (hb : x.buffer = some buffer) (hg : x.gathered = .ok storage)
    (identity : Nat) :
    x.contiguous identity = .ok ⟨x.shape.toStandard, some ⟨identity, storage⟩⟩ := by
  obtain ⟨y, hy⟩ := h.exists_contiguous hb identity
  have hcopy := hy
  unfold contiguous at hcopy
  rw [hg] at hcopy
  obtain ⟨rfl, _⟩ := ofBuffer_eq_ok.mp hcopy
  exact hy

/-- **A row-major tensor over just as many cells as it has elements is copied as it is.** -/
theorem Backed.contiguous_of_isStandard (h : x.Backed) (hb : x.buffer = some buffer)
    (hs : x.shape.isStandard = true) (hsize : buffer.storage.size = x.shape.elementCount)
    (identity : Nat) : x.contiguous identity = .ok ⟨x.shape, some ⟨identity, buffer.storage⟩⟩ := by
  have hword : x.shape.lengths.prod < Word.bound := h.prod_lt (Option.isSome_iff_exists.mpr ⟨buffer, hb⟩)
  have hgathered : x.gathered = .ok buffer.storage := by
    rw [gathered_of_buffer hb, Shape.offsets_of_isStandard hs hword, ← hsize, Storage.gather_range]
  rw [h.contiguous_eq hb hgathered, ← (Shape.isStandard_iff x.shape).mp hs]

/-- **A tensor with data is copied faithfully.** Let a tensor be made over buffers, by views and by copies. The
    copy is there, whatever the identity of its buffer. It has the row-major shape of the same element type
    and lengths, and one cell of this type for each element; the cell at each place is the cell that the
    tensor has at the position of that place. And a copy of the copy has the same shape and the same
    cells. -/
theorem Made.copied_faithfully (hx : x.Made) (hb : x.buffer = some buffer) (identity : Nat) :
    ∃ cells : Array (Element buffer.storage.elementType),
      let compact : Shape := .standard x.shape.elementType x.shape.lengths
      let copied : Storage := ⟨buffer.storage.elementType, cells⟩
      x.contiguous identity = .ok ⟨compact, some ⟨identity, copied⟩⟩ ∧
      copied.elementType = x.shape.elementType ∧ x.shape.elementCountWord = .ok copied.size ∧
      (∀ k, k < copied.size → ∃ index o e, (positions x.shape.lengths)[k]? = some index ∧
        x.shape.offset? index = .ok o ∧ buffer.storage.cells[o]? = some e ∧ cells[k]? = some e) ∧
      ∀ again, (Tensor.mk compact (some ⟨identity, copied⟩)).contiguous again =
        .ok ⟨compact, some ⟨again, copied⟩⟩ := by
  have hbacked : x.Backed := hx.backed
  obtain ⟨htype, hcount, hreach, _⟩ := checkBacks_eq_ok.mp (hbacked buffer hb)
  obtain ⟨cells, hgathered, hsize, hcells⟩ := hbacked.exists_cells hb
  have hcopy := hbacked.contiguous_eq hb hgathered identity
  refine ⟨cells, hcopy, htype, Shape.elementCountWord_eq_ok.mpr ⟨hcount, hsize⟩, fun k hk => ?_,
    fun again => ?_⟩
  · have hplace : k < x.shape.lengths.prod := Nat.lt_of_lt_of_eq hk hsize
    have hposition := getElem?_positions hplace
    have hmem := List.mem_of_getElem? hposition
    have hword := Nat.lt_trans (Shape.offset_lt_bufferReach hmem) hreach
    have hcell : cells[k]? = some cells[k] := Array.getElem?_eq_getElem hk
    refine ⟨_, _, cells[k], hposition, Shape.offset?_of_mem hmem hword, ?_, hcell⟩
    rw [← hcells k _ hposition, hcell]
  · have hstandard : x.shape.toStandard.isStandard = true := Shape.isStandard_standard _ _
    have hlengths : x.shape.toStandard.lengths = x.shape.lengths := Shape.lengths_standard _ _
    have hfull : cells.size = x.shape.toStandard.elementCount := by
      rw [hsize, Shape.elementCount, Shape.elementCount, hlengths]
    exact (contiguous_eq_ok hcopy).2.1.contiguous_of_isStandard rfl hstandard hfull again

/-- A row of two elements, repeated: a NaN that carries a payload, and a number. The copy has four cells, the
    NaN comes back in the second row with the bits it had, and a copy of the copy has the same cells. -/
theorem repeated_payload_copied :
    let buffer : Buffer := ⟨1, .ofPatterns .f32 [0x7fc00001, 0x3f800000]⟩
    let x : Tensor := ⟨⟨.f32, [⟨2, 0⟩, ⟨2, 1⟩]⟩, some buffer⟩
    x.Made ∧ ∃ copied : Storage,
      x.contiguous 2 = .ok ⟨.standard .f32 [2, 2], some ⟨2, copied⟩⟩ ∧ copied.size = 4 ∧
      copied.pattern? 2 = some 0x7fc00001 ∧
      (Tensor.mk (.standard .f32 [2, 2]) (some ⟨2, copied⟩)).contiguous 3 =
        .ok ⟨.standard .f32 [2, 2], some ⟨3, copied⟩⟩ := by
  intro buffer x
  have hmade : ofBuffer x.shape buffer = .ok x := rfl
  have hx : x.Made := .ofBuffer hmade
  have hb : x.buffer = some buffer := rfl
  obtain ⟨cells, hcopy, _, hcount, hcells, hagain⟩ := hx.copied_faithfully hb 2
  have hsize : cells.size = 4 := (Except.ok.inj hcount).symm
  refine ⟨hx, ⟨_, cells⟩, hcopy, hsize, ?_, hagain 3⟩
  obtain ⟨index, o, e, hposition, hoffset, hcell, hcopied⟩ := hcells 2 (by rw [Storage.size, hsize]; decide)
  -- the third position is the first one of the second row
  obtain rfl : [1, 0] = index := Option.some.inj hposition
  obtain rfl : 0 = o := Except.ok.inj hoffset
  obtain rfl : 0x7fc00001#32 = e := Option.some.inj hcell
  rw [Storage.pattern?, hcopied]
  rfl

end Tensor

end TensorGraph
