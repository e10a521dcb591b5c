import TensorGraph.Proofs.Shape.Reach
import TensorGraph.Proofs.Tensor.Grid

/-!
# Backed tensors

Whoever makes a tensor over a buffer has the buffer checked against the shape. `Tensor.Backed` says
that this check was made; it holds of everything that the makers of tensors hand out
(`ofBuffer_eq_ok`, `view_eq_ok`), and it is what makes reading safe: a backed tensor with data shows
an element at every position (`Backed.isSome_content`).

* `contiguous_eq_ok` -- a copy in row-major order shows what the original shows;
* `floats_eq_ok` -- the list of all elements as doubles is the grid read by place.
-/

namespace TensorGraph

/-! ## 1. Lists of outcomes -/

namespace Outcome

variable {α β : Type}

/-- A list of computations that all succeed gives the list of their results. -/
theorem mapM_eq_ok {f : α → Outcome β} {l : List α} {results : List β}
    (h : l.mapM f = .ok results) :
    results.length = l.length ∧
      ∀ (k : Nat) (a : α), l[k]? = some a → ∃ b, f a = .ok b ∧ results[k]? = some b := by
  induction l generalizing results with
  | nil =>
    rw [List.mapM_nil] at h
    cases h
    exact ⟨rfl, nofun⟩
  | cons a l ih =>
    rw [List.mapM_cons] at h
    obtain ⟨b, hb, h⟩ := bind_eq_ok.mp h
    obtain ⟨rest, hrest, h⟩ := bind_eq_ok.mp h
    cases h
    obtain ⟨hlen, hget⟩ := ih hrest
    refine ⟨by simp [hlen], fun k c hk => ?_⟩
    cases k with
    | zero => cases hk; exact ⟨b, hb, rfl⟩
    | succ k => exact hget k c hk

/-- A list of computations succeeds if each of them does. -/
theorem exists_mapM_eq_ok {f : α → Outcome β} {l : List α} (h : ∀ a ∈ l, ∃ b, f a = .ok b) :
    ∃ results, l.mapM f = .ok results := by
  induction l with
  | nil => exact ⟨[], rfl⟩
  | cons a l ih =>
    obtain ⟨b, hb⟩ := h a List.mem_cons_self
    obtain ⟨rest, hrest⟩ := ih fun c hc => h c (List.mem_cons_of_mem a hc)
    refine ⟨b :: rest, ?_⟩
    rw [List.mapM_cons, hb, hrest]
    rfl

end Outcome

/-- Lookups that succeed together find what each of them finds. -/
theorem map_some_of_mapM {α β : Type} {f : α → Option β} {l : List α} {results : List β}
    (h : l.mapM f = some results) : results.map some = l.map f := by
  induction l generalizing results with
  | nil =>
    rw [List.mapM_nil] at h
    cases h
    rfl
  | cons a l ih =>
    rw [List.mapM_cons] at h
    obtain ⟨b, hb, h⟩ := Option.bind_eq_some_iff.mp h
    obtain ⟨rest, hrest, h⟩ := Option.bind_eq_some_iff.mp h
    cases h
    rw [List.map_cons, List.map_cons, hb, ih hrest]

/-- The same for one of them. -/
theorem getElem?_of_mapM_eq_some {α β : Type} {f : α → Option β} {l : List α} {results : List β}
    (h : l.mapM f = some results) (k : Nat) : results[k]? = l[k]?.bind f := by
  have hk : results[k]?.map some = l[k]?.map f := by
    rw [← List.getElem?_map, ← List.getElem?_map, map_some_of_mapM h]
  cases hl : l[k]? with
  | none =>
    rw [hl] at hk
    exact Option.map_eq_none_iff.mp hk
  | some a =>
    rw [hl] at hk
    obtain ⟨b, hb, hfound⟩ := Option.map_eq_some_iff.mp hk
    exact hb.trans hfound

/-- Lookups that all find something find as many things as there are. -/
theorem exists_mapM_eq_some {α β : Type} {f : α → Option β} {l : List α}
    (h : ∀ a ∈ l, (f a).isSome = true) :
    ∃ results, l.mapM f = some results ∧ results.length = l.length := by
  induction l with
  | nil => exact ⟨[], rfl, rfl⟩
  | cons a l ih =>
    obtain ⟨b, hb⟩ := Option.isSome_iff_exists.mp (h a List.mem_cons_self)
    obtain ⟨rest, hrest, hlen⟩ := ih fun c hc => h c (List.mem_cons_of_mem a hc)
    refine ⟨b :: rest, ?_, by rw [List.length_cons, hlen, List.length_cons]⟩
    rw [List.mapM_cons, hb, hrest]
    rfl

/-! ## 2. Backed tensors -/

namespace Tensor

theorem checkBacks_eq_ok {shape : Shape} {storage : Storage} :
    checkBacks shape storage = .ok () ↔ storage.elementType = shape.elementType ∧
      Word.Countable shape.lengths ∧ shape.bufferReach < Word.bound ∧
      shape.bufferReach ≤ storage.size := by
  unfold checkBacks
  simp only [Outcome.fail_bind, Outcome.check_eq_ok, ne_eq, Decidable.not_not]
  rw [Outcome.bind_eq_ok]
  simp only [Shape.bufferReachWord_eq_ok, Outcome.check_eq_ok, Outcome.pure_eq_ok, and_true,
    Nat.not_lt]
  constructor
  · intro h
    obtain ⟨ht, _, ⟨hc, hw, rfl⟩, hs⟩ := h
    exact ⟨ht, hc, hw, hs⟩
  · intro h
    obtain ⟨ht, hc, hw, hs⟩ := h
    exact ⟨ht, _, ⟨hc, hw, rfl⟩, hs⟩

/-- The buffer, if there is one, was checked against the shape. -/
def Backed (x : Tensor) : Prop :=
  ∀ buffer, x.buffer = some buffer → checkBacks x.shape buffer.storage = .ok ()

theorem ofBuffer_eq_ok {shape : Shape} {buffer : Buffer} {y : Tensor} :
    ofBuffer shape buffer = .ok y ↔ y = ⟨shape, some buffer⟩ ∧ y.Backed := by
  unfold ofBuffer
  rw [Outcome.then_eq_ok, Outcome.pure_eq_ok]
  constructor
  · intro h
    obtain ⟨hc, rfl⟩ := h
    refine ⟨rfl, fun buffer' h => ?_⟩
    cases h
    exact hc
  · intro h
    obtain ⟨rfl, hb⟩ := h
    exact ⟨hb buffer rfl, rfl⟩

theorem backed_placeholder (shape : Shape) : (placeholder shape).Backed := nofun

/-- **A view reads the same buffer through another shape**, and is backed. -/
theorem view_eq_ok {x y : Tensor} {shape : Shape} :
    x.view shape = .ok y ↔ y = ⟨shape, x.buffer⟩ ∧ y.Backed := by
  unfold view
  split
  · rename_i buffer hb
    rw [ofBuffer_eq_ok, hb]
  · rename_i hb
    rw [hb]
    constructor
    · intro h
      cases h
      exact ⟨rfl, backed_placeholder shape⟩
    · intro h
      obtain ⟨rfl, _⟩ := h
      rfl

/-- **A view of the same element type that reaches no further than the tensor succeeds.** -/
theorem Backed.view_eq {x : Tensor} (h : x.Backed) {shape : Shape}
    (ht : shape.elementType = x.shape.elementType) (hc : Word.Countable shape.lengths)
    (hr : shape.bufferReach ≤ x.shape.bufferReach) : x.view shape = .ok ⟨shape, x.buffer⟩ := by
  refine view_eq_ok.mpr ⟨rfl, ?_⟩
  intro buffer hb
  obtain ⟨hx, _, hword, hsize⟩ := checkBacks_eq_ok.mp (h buffer hb)
  refine checkBacks_eq_ok.mpr ⟨hx.trans ht.symm, hc, ?_, Nat.le_trans hr hsize⟩
  exact Nat.lt_of_le_of_lt hr hword

/-- A backed tensor with data has as few elements as a word can count. -/
theorem Backed.countable {x : Tensor} (h : x.Backed) (hd : x.hasData = true) :
    Word.Countable x.shape.lengths := by
  obtain ⟨buffer, hb⟩ := Option.isSome_iff_exists.mp hd
  exact (checkBacks_eq_ok.mp (h buffer hb)).2.1

theorem Backed.prod_lt {x : Tensor} (h : x.Backed) (hd : x.hasData = true) :
    x.shape.lengths.prod < Word.bound :=
  (h.countable hd).prod_lt

/-- **A backed tensor lies inside its buffer**, at every position. -/
theorem Backed.offset_lt_size {x : Tensor} (h : x.Backed) {buffer : Buffer}
    (hb : x.buffer = some buffer) {index : List Nat} (hi : index ∈ positions x.shape.lengths) :
    offset x.shape.axes index < buffer.storage.size := by
  obtain ⟨_, _, _, hsize⟩ := checkBacks_eq_ok.mp (h buffer hb)
  exact Nat.lt_of_lt_of_le (Shape.offset_lt_bufferReach hi) hsize

/-- **A backed tensor with data shows an element at every position.** -/
theorem Backed.isSome_content {x : Tensor} (h : x.Backed) (hd : x.hasData = true)
    {index : List Nat} (hi : index ∈ positions x.shape.lengths) :
    (x.grid.content index).isSome = true := by
  obtain ⟨buffer, hb⟩ := Option.isSome_iff_exists.mp hd
  have hlt : offset x.shape.axes index < buffer.storage.cells.size := h.offset_lt_size hb hi
  rw [content_grid hi, hb, Option.bind_some, Storage.pattern?, Array.getElem?_eq_getElem hlt]
  rfl

/-! ## 3. Copies -/

theorem gathered_eq_ok {x : Tensor} {storage : Storage} (h : x.gathered = .ok storage) :
    ∃ buffer, x.buffer = some buffer ∧ storage.elementType = buffer.storage.elementType ∧
      ∀ index ∈ positions x.shape.lengths,
        storage.pattern? (placeOf x.shape.lengths index) =
          buffer.storage.pattern? (offset x.shape.axes index) := by
  unfold gathered Tensor.storage Storage.gather at h
  obtain ⟨source, hs, h⟩ := Outcome.bind_eq_ok.mp h
  split at hs
  · rename_i buffer hb
    cases hs
    split at h
    · rename_i cells hc
      cases h
      refine ⟨buffer, hb, rfl, fun index hi => ?_⟩
      have hcell : cells[placeOf x.shape.lengths index]? =
          buffer.storage.cells[offset x.shape.axes index]? := by
        rw [getElem?_of_mapM_eq_some hc, x.shape.getElem?_offsets hi]
        rfl
      unfold Storage.pattern?
      rw [List.getElem?_toArray, hcell]
    · cases h
  · cases hs

/-- **A copy shows what the original shows.** -/
theorem contiguous_eq_ok {x y : Tensor} {identity : Nat} (h : x.contiguous identity = .ok y) :
    y.shape = x.shape.toStandard ∧ y.Backed ∧ y.grid = x.grid := by
  unfold contiguous at h
  obtain ⟨storage, hg, h⟩ := Outcome.bind_eq_ok.mp h
  obtain ⟨rfl, hb⟩ := ofBuffer_eq_ok.mp h
  refine ⟨rfl, hb, ?_⟩
  obtain ⟨buffer, hbuffer, _, hread⟩ := gathered_eq_ok hg
  have hlengths : x.shape.toStandard.lengths = x.shape.lengths := Shape.lengths_standard _ _
  have hword : x.shape.lengths.prod < Word.bound := by
    rw [← hlengths]
    exact hb.prod_lt rfl
  unfold grid
  rw [hlengths]
  refine Grid.tabulate_congr fun index hi => ?_
  show storage.pattern? (offset x.shape.toStandard.axes index) = _
  rw [offset_toStandard _ hi hword, hread index hi, hbuffer]
  rfl

/-! ## 4. Elements as numbers -/

variable [ShortFloats]

/-- A backed tensor read as a double at a position. -/
theorem Backed.float?_grid {x : Tensor} (h : x.Backed) {index : List Nat}
    (hi : index ∈ positions x.shape.lengths) :
    x.grid.float? index =
      x.buffer.bind fun buffer => buffer.storage.float? (offset x.shape.axes index) := by
  unfold Grid.float?
  rw [content_grid hi]
  cases hb : x.buffer with
  | none => rfl
  | some buffer =>
    have ht := (checkBacks_eq_ok.mp (h buffer hb)).1
    obtain ⟨⟨t, axes⟩, contents⟩ := x
    obtain ⟨identity, ⟨_, cells⟩⟩ := buffer
    cases ht
    show Option.map _ (cells[offset axes index]?.map BitVec.toNat) =
      cells[offset axes index]?.map Element.toFloat
    rw [Option.map_map]
    refine Option.map_congr fun bits _ => ?_
    show Element.toFloat (BitVec.ofNat t.bits bits.toNat) = Element.toFloat bits
    rw [BitVec.ofNat_toNat, BitVec.setWidth_eq]

/-- **The list of all elements is the grid read by place.** -/
theorem floats_eq_ok {x : Tensor} (hx : x.Backed) {values : List Float}
    (h : x.floats = .ok values) :
    values.length = x.shape.lengths.prod ∧ ∀ index ∈ positions x.shape.lengths,
      values[placeOf x.shape.lengths index]? = x.grid.float? index := by
  unfold floats Tensor.storage at h
  obtain ⟨source, hs, h⟩ := Outcome.bind_eq_ok.mp h
  split at hs
  · rename_i buffer hb
    cases hs
    obtain ⟨hlen, hget⟩ := Outcome.mapM_eq_ok h
    rw [Shape.offsets_eq, List.length_map, length_positions] at hlen
    refine ⟨hlen, fun index hi => ?_⟩
    have hplace : x.shape.offsets[placeOf x.shape.lengths index]? =
        some (offset x.shape.axes index) := x.shape.getElem?_offsets hi
    obtain ⟨value, hvalue, hv⟩ := hget _ _ hplace
    rw [hv, hx.float?_grid hi, hb]
    unfold floatAt at hvalue
    split at hvalue
    · rename_i found hf
      cases hvalue
      exact hf.symm
    · cases hvalue
  · cases hs

end Tensor

end TensorGraph
