import Mathlib.Data.List.Forall2
import TensorGraph.Tensor

/-!
# Equality of tensors

Elements are compared as numbers: a NaN equals nothing, not even itself, and the two zeros are equal. So
equality of elements is symmetric and transitive without being reflexive. Tensors that share their
buffer are equal without a look at the elements, and that makes every tensor equal to itself, NaNs or
not.

* `Tensor.Agrees` -- the three ways in which tensors are equal: no buffer, one buffer, equal elements;
* `Tensor.agree_self`, `Tensor.agree_symm` -- every tensor equals itself, and equality goes both ways;
* `Tensor.agree_trans` -- equality goes on from tensor to tensor, as long as one identity stands for one
  storage (`Tensor.LiesIn`). Where a shared buffer meets equal elements, the elements are equal again.
-/

namespace TensorGraph

/-! ## 1. Lists compared element by element -/

/-- A comparison of lists holds where it holds of each pair of elements, and the lengths agree. -/
theorem isEqv_iff_forall₂ {α : Type} {r : α → α → Bool} {l l' : List α} :
    l.isEqv l' r = true ↔ List.Forall₂ (fun a b => r a b = true) l l' := by
  induction l generalizing l' with
  | nil => cases l' <;> simp
  | cons a l ih =>
    cases l' with
    | nil => simp
    | cons b l' => rw [List.isEqv, Bool.and_eq_true, ih, List.forall₂_cons]

theorem forall₂_symm {α β : Type} {R : α → β → Prop} {S : β → α → Prop} (h : ∀ a b, R a b → S b a)
    {l : List α} {l' : List β} (hl : List.Forall₂ R l l') : List.Forall₂ S l' l :=
  (hl.imp h).flip

theorem forall₂_trans {α β γ : Type} {R : α → β → Prop} {S : β → γ → Prop} {T : α → γ → Prop}
    {l : List α} {m : List β} {n : List γ}
    (h : ∀ a ∈ l, ∀ b ∈ m, ∀ c ∈ n, R a b → S b c → T a c) (hlm : List.Forall₂ R l m)
    (hmn : List.Forall₂ S m n) : List.Forall₂ T l n := by
  induction hlm generalizing n with
  | nil =>
    cases hmn
    exact .nil
  | cons hab _ ih =>
    cases hmn with
    | cons hbc hmn =>
      refine .cons (h _ List.mem_cons_self _ List.mem_cons_self _ List.mem_cons_self hab hbc) (ih ?_ hmn)
      intro a ha b hb c hc
      exact h a (List.mem_cons_of_mem _ ha) b (List.mem_cons_of_mem _ hb) c (List.mem_cons_of_mem _ hc)

/-! ## 2. Elements and storages -/

namespace BinaryFormat

variable {f : BinaryFormat} {a b c : Nat}

theorem agree_iff : f.agree a b = true ↔ f.isNotANumber a = false ∧ f.isNotANumber b = false ∧
    (a = b ∨ f.magnitude a = 0 ∧ f.magnitude b = 0) := by
  simp only [agree, Bool.and_eq_true, Bool.or_eq_true, Bool.not_eq_true', beq_iff_eq, and_assoc]

theorem agree_symm (h : f.agree a b = true) : f.agree b a = true := by
  obtain ⟨ha, hb, h⟩ := agree_iff.mp h
  exact agree_iff.mpr ⟨hb, ha, h.imp Eq.symm And.symm⟩

theorem agree_trans (hab : f.agree a b = true) (hbc : f.agree b c = true) :
    f.agree a c = true := by
  obtain ⟨ha, _, hab⟩ := agree_iff.mp hab
  obtain ⟨_, hc, hbc⟩ := agree_iff.mp hbc
  refine agree_iff.mpr ⟨ha, hc, ?_⟩
  rcases hab with rfl | ⟨ha0, _⟩
  · exact hbc
  · rcases hbc with rfl | ⟨_, hc0⟩
    · exact Or.inr ⟨ha0, by assumption⟩
    · exact Or.inr ⟨ha0, hc0⟩

end BinaryFormat

namespace Element

variable {t : ElementType} {a b c : Nat}

theorem agreeAs_symm (h : agreeAs t a b = true) : agreeAs t b a = true := by
  unfold agreeAs at h ⊢
  generalize t.encoding.layout? = layout at h ⊢
  cases layout with
  | some format => exact BinaryFormat.agree_symm h
  | none => exact beq_iff_eq.mpr (beq_iff_eq.mp h).symm

theorem agreeAs_trans (hab : agreeAs t a b = true) (hbc : agreeAs t b c = true) :
    agreeAs t a c = true := by
  unfold agreeAs at hab hbc ⊢
  generalize t.encoding.layout? = layout at hab hbc ⊢
  cases layout with
  | some format => exact BinaryFormat.agree_trans hab hbc
  | none => exact beq_iff_eq.mpr ((beq_iff_eq.mp hab).trans (beq_iff_eq.mp hbc))

end Element

namespace Storage

variable {r s t : Storage}

theorem agree_iff : s.agree t = true ↔ s.elementType = t.elementType ∧
    List.Forall₂ (fun a b => Element.agreeAs s.elementType a b = true) s.patterns t.patterns := by
  simp only [agree, Bool.and_eq_true, beq_iff_eq, isEqv_iff_forall₂]

theorem agree_symm (h : s.agree t = true) : t.agree s = true := by
  obtain ⟨htype, hcells⟩ := agree_iff.mp h
  refine agree_iff.mpr ⟨htype.symm, ?_⟩
  rw [← htype]
  exact forall₂_symm (fun _ _ => Element.agreeAs_symm) hcells

theorem agree_trans (hrs : r.agree s = true) (hst : s.agree t = true) : r.agree t = true := by
  obtain ⟨htype, hcells⟩ := agree_iff.mp hrs
  obtain ⟨htype', hcells'⟩ := agree_iff.mp hst
  refine agree_iff.mpr ⟨htype.trans htype', ?_⟩
  rw [← htype] at hcells'
  refine forall₂_trans (fun _ _ _ _ _ _ hab hbc => ?_) hcells hcells'
  exact Element.agreeAs_trans hab hbc

end Storage

/-! ## 3. Tensors -/

namespace Tensor

variable {x y z : Tensor}

/-- The three ways in which tensors of one shape are equal: neither has a buffer, both have the same
    one, or the elements that the shape reads in their buffers are equal. -/
inductive Agrees : Tensor → Tensor → Prop where
  | placeholders (s : Shape) : Agrees ⟨s, none⟩ ⟨s, none⟩
  | shared (s : Shape) {a b : Buffer} : a.identity = b.identity → Agrees ⟨s, some a⟩ ⟨s, some b⟩
  | elements (s : Shape) {a b : Buffer} {u v : Storage} : a.storage.gather s.offsets = .ok u →
      b.storage.gather s.offsets = .ok v → u.agree v = true → Agrees ⟨s, some a⟩ ⟨s, some b⟩

theorem agree_iff : x.agree y = true ↔ x.Agrees y := by
  constructor
  · intro h
    obtain ⟨s, a⟩ := x
    obtain ⟨s', b⟩ := y
    simp only [agree, Bool.and_eq_true, beq_iff_eq] at h
    obtain ⟨rfl, h⟩ := h
    cases a with
    | none =>
      cases b with
      | none => exact .placeholders s
      | some b => cases h
    | some a =>
      cases b with
      | none => cases h
      | some b =>
        rcases Bool.or_eq_true_iff.mp h with hid | helements
        · exact .shared s (beq_iff_eq.mp hid)
        · split at helements
          · rename_i u v hu hv
            exact .elements s hu hv helements
          · cases helements
  · intro h
    cases h with
    | placeholders s => simp [agree]
    | shared s hid => simp [agree, hid]
    | elements s hu hv huv => simp [agree, hu, hv, huv]

/-- **Every tensor equals itself**, also one that holds NaNs: it shares its buffer with itself. -/
theorem agree_self (x : Tensor) : x.agree x = true := by
  refine agree_iff.mpr ?_
  obtain ⟨s, a⟩ := x
  cases a with
  | none => exact .placeholders s
  | some a => exact .shared s rfl

theorem agree_symm (h : x.agree y = true) : y.agree x = true := by
  refine agree_iff.mpr ?_
  cases agree_iff.mp h with
  | placeholders s => exact .placeholders s
  | shared s hid => exact .shared s hid.symm
  | elements s hu hv huv => exact .elements s hv hu (Storage.agree_symm huv)

/-- The buffer, if there is one, is a piece of the memory: its identity says what it holds. -/
def LiesIn (memory : Nat → Storage) (x : Tensor) : Prop :=
  ∀ a, x.buffer = some a → a.storage = memory a.identity

/-- **Equality goes on from tensor to tensor of one memory.** A buffer that two of them share shows the
    same elements to both, so it can be exchanged for the other. -/
theorem agree_trans {memory : Nat → Storage} (hx : x.LiesIn memory) (hy : y.LiesIn memory)
    (hz : z.LiesIn memory) (hxy : x.agree y = true) (hyz : y.agree z = true) :
    x.agree z = true := by
  refine agree_iff.mpr ?_
  cases agree_iff.mp hxy with
  | placeholders s =>
    cases agree_iff.mp hyz
    exact .placeholders s
  | @shared s a b hid =>
    have hsame : a.storage = b.storage := by rw [hx a rfl, hy b rfl, hid]
    cases agree_iff.mp hyz with
    | shared _ hid' => exact .shared s (hid.trans hid')
    | elements _ hu hv huv =>
      rw [← hsame] at hu
      exact .elements s hu hv huv
  | @elements s a b u v hu hv huv =>
    cases agree_iff.mp hyz with
    | @shared _ _ c hid' =>
      have hsame : b.storage = c.storage := by rw [hy b rfl, hz c rfl, hid']
      rw [hsame] at hv
      exact .elements s hu hv huv
    | @elements _ _ c v' w hv' hw hvw =>
      have hone : v = v' := Except.ok.inj (hv.symm.trans hv')
      subst hone
      exact .elements s hu hw (Storage.agree_trans huv hvw)

end Tensor

end TensorGraph
