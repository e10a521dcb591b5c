import TensorGraph.Proofs.Tensor.Equality
import TensorGraph.Proofs.Tensor.Reading

/-!
# Equality and shared buffers

Equality of tensors has a shortcut: tensors of one shape that share their buffer are equal, and nobody looks
at the elements. To look at them would give the same answer, unless one of them is a NaN. A NaN is not
equal to itself, so a tensor that shows one is equal to whatever shares its buffer, and to no copy of it.

* `Grid.Equals`, `Grid.HasNaN` -- equality at every position, and what prevents it;
* `Tensor.Backed.exists_gathered_agree` -- the elements can be gathered in order, and what is gathered is
  compared position by position;
* `Tensor.Backed.agree_iff_shares_or_equals` -- what equality of tensors with data comes to;
* `Tensor.Backed.shortcut_exact_iff` -- the shortcut is right exactly if what is shared shows no NaN.
-/

namespace TensorGraph

/-! ## 1. Grids compared position by position -/

namespace Grid

/-- Both grids show an element at every position of the first, and the two are equal as numbers. -/
def Equals (g h : Grid) : Prop :=
  ∀ index ∈ positions g.lengths, ∃ a b, g.content index = some a ∧ h.content index = some b ∧
    Element.agreeAs g.elementType a b = true

/-- The grid shows an element that is no number. -/
def HasNaN (g : Grid) : Prop :=
  ∃ index ∈ positions g.lengths, ∃ e : Element g.elementType, g.content index = some e.toNat ∧
    e.isNotANumber = true

end Grid

/-- An element equals itself if it is a number. -/
theorem Element.agreeAs_self {t : ElementType} (e : Element t) :
    agreeAs t e.toNat e.toNat = !e.isNotANumber := by
  unfold agreeAs isNotANumber
  generalize t.encoding.layout? = layout
  cases layout with
  | some format => simp [BinaryFormat.agree]
  | none => exact beq_self_eq_true _

/-! ## 2. Gathered elements -/

/-- Lists that are found by lookups are compared lookup by lookup. -/
theorem forall₂_of_map_some {α β : Type} {R : β → β → Prop} {f g : α → Option β} {l : List α}
    {found found' : List β} (hf : found.map some = l.map f) (hg : found'.map some = l.map g) :
    List.Forall₂ R found found' ↔ ∀ i ∈ l, ∃ a b, f i = some a ∧ g i = some b ∧ R a b := by
  have hsome : List.Forall₂ R found found' ↔ List.Forall₂
      (fun o o' => ∃ a b, o = some a ∧ o' = some b ∧ R a b) (found.map some) (found'.map some) := by
    rw [List.forall₂_map_left_iff, List.forall₂_map_right_iff]
    simp only [Option.some.injEq, exists_and_left, exists_eq_left']
  rw [hsome, hf, hg, List.forall₂_map_left_iff, List.forall₂_map_right_iff, List.forall₂_same]

/-- What is gathered are the patterns at the offsets, in their order. -/
theorem Storage.patterns_of_gather {s gathered : Storage} {offsets : List Nat}
    (h : s.gather offsets = .ok gathered) :
    gathered.patterns.map some = offsets.map s.pattern? := by
  unfold gather at h
  split at h
  · rename_i cells hcells
    cases h
    have hfound := map_some_of_mapM hcells
    have hpatterns : (cells.map BitVec.toNat).map some = (cells.map some).map (Option.map BitVec.toNat) := by
      rw [List.map_map, List.map_map]
      rfl
    show (cells.map BitVec.toNat).map some = _
    rw [hpatterns, hfound, List.map_map]
    rfl
  · cases h

namespace Tensor

variable {x y : Tensor} {s t : Storage}

/-- **What is gathered is what the tensor shows**, position by position in row-major order. -/
theorem patterns_gathered (h : x.gathered = .ok s) :
    s.patterns.map some = (positions x.shape.lengths).map x.grid.content := by
  obtain ⟨source, hs, hgather⟩ := Outcome.bind_eq_ok.mp h
  unfold Tensor.storage at hs
  split at hs
  · rename_i buffer hb
    cases hs
    rw [Storage.patterns_of_gather hgather, Shape.offsets_eq, List.map_map]
    refine List.map_congr_left fun index hi => ?_
    rw [content_grid hi, hb]
    rfl
  · cases hs

/-- **Gathered elements are compared position by position.** -/
theorem agree_gathered (hx : x.gathered = .ok s) (hy : y.gathered = .ok t)
    (hs : s.elementType = x.shape.elementType) (ht : t.elementType = y.shape.elementType)
    (hshape : x.shape = y.shape) : s.agree t = true ↔ x.grid.Equals y.grid := by
  have hpatterns := patterns_gathered hy
  rw [← hshape] at hpatterns
  rw [Storage.agree_iff, forall₂_of_map_some (patterns_gathered hx) hpatterns, hs, ht, ← hshape]
  exact and_iff_right rfl

/-- Tensors with data and one shape are gathered, and their gathered elements are compared so. -/
theorem Backed.exists_gathered_agree (hx : x.Backed) (hy : y.Backed) (hdx : x.hasData = true)
    (hdy : y.hasData = true) (hshape : x.shape = y.shape) :
    ∃ s t, x.gathered = .ok s ∧ y.gathered = .ok t ∧ (s.agree t = true ↔ x.grid.Equals y.grid) := by
  obtain ⟨a, ha⟩ := Option.isSome_iff_exists.mp hdx
  obtain ⟨b, hb⟩ := Option.isSome_iff_exists.mp hdy
  obtain ⟨s, hs, htype, _⟩ := hx.exists_gathered ha
  obtain ⟨t, ht, htype', _⟩ := hy.exists_gathered hb
  exact ⟨s, t, hs, ht, agree_gathered hs ht htype htype' hshape⟩

/-! ## 3. The shortcut -/

/-- The element type is that of the cells, so each pattern that is shown is an element. -/
theorem Backed.content_eq_toNat (h : x.Backed) (hd : x.hasData = true) {index : List Nat}
    (hi : index ∈ positions x.shape.lengths) :
    ∃ e : Element x.shape.elementType, x.grid.content index = some e.toNat := by
  obtain ⟨⟨t, axes⟩, contents⟩ := x
  obtain ⟨⟨identity, ⟨_, cells⟩⟩, rfl⟩ := Option.isSome_iff_exists.mp hd
  cases (checkBacks_eq_ok.mp (h _ rfl)).1
  have hlt : offset axes index < cells.size := h.offset_lt_size rfl hi
  refine ⟨cells[offset axes index], ?_⟩
  rw [content_grid hi]
  show cells[offset axes index]?.map BitVec.toNat = _
  rw [Array.getElem?_eq_getElem hlt]
  rfl

/-- **What a tensor shows equals itself, unless it shows a NaN.** -/
theorem Backed.equals_self_iff (h : x.Backed) (hd : x.hasData = true) :
    x.grid.Equals x.grid ↔ ¬ x.grid.HasNaN := by
  constructor
  · intro hequals hnan
    obtain ⟨index, hi, e, he, hnumber⟩ := hnan
    obtain ⟨a, b, ha, hb, hab⟩ := hequals index hi
    have hsame : Element.agreeAs x.grid.elementType e.toNat e.toNat = true := by
      obtain rfl := Option.some.inj (he.symm.trans ha)
      obtain rfl := Option.some.inj (he.symm.trans hb)
      exact hab
    rw [Element.agreeAs_self, hnumber] at hsame
    cases hsame
  · intro hnumbers index hi
    obtain ⟨e, he⟩ := h.content_eq_toNat hd hi
    refine ⟨e.toNat, e.toNat, he, he, ?_⟩
    have hnumber : e.isNotANumber = false :=
      Bool.eq_false_iff.mpr fun hnan => hnumbers ⟨index, hi, e, he, hnan⟩
    exact (Element.agreeAs_self e).trans (by rw [hnumber]; rfl)

/-- **Tensors with data are equal if they share their buffer, or if the elements are equal.** -/
theorem Backed.agree_iff_shares_or_equals (hx : x.Backed) (hy : y.Backed) (hdx : x.hasData = true)
    (hdy : y.hasData = true) (hshape : x.shape = y.shape) :
    x.agree y = true ↔ x.sharesBuffer y = true ∨ x.grid.Equals y.grid := by
  obtain ⟨s, t, hs, ht, hiff⟩ := hx.exists_gathered_agree hy hdx hdy hshape
  obtain ⟨a, ha⟩ := Option.isSome_iff_exists.mp hdx
  obtain ⟨b, hb⟩ := Option.isSome_iff_exists.mp hdy
  have hgather : a.storage.gather x.shape.offsets = .ok s := (gathered_of_buffer ha).symm.trans hs
  have hgather' : b.storage.gather y.shape.offsets = .ok t := (gathered_of_buffer hb).symm.trans ht
  have hshares : x.sharesBuffer y = (a.identity == b.identity) := by
    unfold sharesBuffer
    rw [ha, hb]
  rw [hshares, ← hiff]
  unfold agree
  rw [ha, hb]
  dsimp only
  rw [hgather, hgather', hshape, beq_self_eq_true, Bool.true_and, Bool.or_eq_true]

/-- Tensors of one memory that share their buffer and have one shape show the same. -/
theorem grid_eq_of_shares {memory : Nat → Storage} (hx : x.LiesIn memory) (hy : y.LiesIn memory)
    (hshape : x.shape = y.shape) (h : x.sharesBuffer y = true) : x.grid = y.grid := by
  obtain ⟨shape, contents⟩ := x
  obtain ⟨shape', contents'⟩ := y
  obtain rfl : shape = shape' := hshape
  unfold sharesBuffer at h
  split at h
  · rename_i a b ha hb
    have hsame : a.storage = b.storage := by
      rw [hx a ha, hy b hb, beq_iff_eq.mp h]
    obtain rfl : contents = some a := ha
    obtain rfl : contents' = some b := hb
    unfold grid
    simp only [Option.bind_some, hsame]
  · cases h

/-- **The shortcut gives the answer of the elements exactly if no NaN is shared.** -/
theorem Backed.shortcut_exact_iff {memory : Nat → Storage} (hx : x.Backed) (hy : y.Backed)
    (hdx : x.hasData = true) (hdy : y.hasData = true) (hshape : x.shape = y.shape)
    (hmx : x.LiesIn memory) (hmy : y.LiesIn memory) :
    (x.agree y = true ↔ x.grid.Equals y.grid) ↔ (x.sharesBuffer y = true → ¬ x.grid.HasNaN) := by
  rw [hx.agree_iff_shares_or_equals hy hdx hdy hshape, or_iff_right_iff_imp]
  refine forall_congr' fun hshares => ?_
  rw [← grid_eq_of_shares hmx hmy hshape hshares, hx.equals_self_iff hdx]

end Tensor

end TensorGraph
