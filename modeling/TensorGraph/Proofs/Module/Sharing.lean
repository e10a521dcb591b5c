import TensorGraph.Proofs.Module.Equality
import TensorGraph.Proofs.Tensor.Sharing

/-!
# Modules over shared and over copied constants

A module can be built again from the constants it has, which then share their buffers with the first ones, or
from copies of them. The two are compared with the first module:

* `Tensor.Shared`, `Tensor.Copied` -- a constant once more, over the same buffer or over another one;
* `Module.agree_of_shared`, `Module.agree_copied_iff` -- over shared constants the modules are always equal,
  over copied ones if no constant shows a NaN;
* `Module.sharing_exact_iff` -- so it is NaNs, and nothing else, that make equality of tensors and of modules
  depend on what shares its buffer.
-/

namespace TensorGraph

/-! ## 1. Constants once more -/

namespace Tensor

variable {v w : Tensor}

/-- The same shape over the same buffer, or over none. -/
structure Shared (v w : Tensor) : Prop where
  shape : v.shape = w.shape
  buffer : v.buffer.map Buffer.identity = w.buffer.map Buffer.identity

/-- The same shape and the same elements, over another buffer, or over none. -/
structure Copied (v w : Tensor) : Prop where
  shape : v.shape = w.shape
  hasData : v.hasData = w.hasData
  grid : v.grid = w.grid
  apart : v.sharesBuffer w = false

theorem shared_keepsShapes : KeepsShapes Shared := by
  intro v w h
  have hdata := congrArg Option.isSome h.buffer
  rw [Option.isSome_map, Option.isSome_map] at hdata
  exact ⟨h.shape, hdata⟩

theorem copied_keepsShapes : KeepsShapes Copied := fun _ _ h => ⟨h.shape, h.hasData⟩

/-- A tensor equals whatever reads its buffer through its shape. -/
theorem Shared.agree (h : v.Shared w) : v.agree w = true := by
  obtain ⟨s, a⟩ := v
  obtain ⟨s', b⟩ := w
  obtain ⟨rfl, hbuffer⟩ := h
  refine agree_iff.mpr ?_
  cases a with
  | none =>
    cases b with
    | none => exact .placeholders s
    | some b => cases hbuffer
  | some a =>
    cases b with
    | none => cases hbuffer
    | some b => exact .shared s (Option.some.inj hbuffer)

/-- **A tensor equals its copies if it shows no NaN.** -/
theorem Copied.agree_iff (h : v.Copied w) (hv : v.Backed) (hw : w.Backed) (hd : v.hasData = true) :
    v.agree w = true ↔ ¬ v.grid.HasNaN := by
  rw [hv.agree_iff_shares_or_equals hw hd (h.hasData.symm.trans hd) h.shape, h.apart, ← h.grid,
    hv.equals_self_iff hd]
  exact or_iff_right Bool.false_ne_true

end Tensor

/-! ## 2. Modules over constants once more -/

variable {Op : Type}

/-- Where related elements are related in another way exactly under a condition on the first, lists of them
    are if the condition holds throughout. -/
theorem forall₂_iff_forall_mem {α β : Type} {R S : α → β → Prop} {P : α → Prop} {l : List α} {l' : List β}
    (hl : List.Forall₂ R l l') (h : ∀ a ∈ l, ∀ b ∈ l', R a b → (S a b ↔ P a)) :
    List.Forall₂ S l l' ↔ ∀ a ∈ l, P a := by
  induction hl with
  | nil => exact ⟨fun _ => nofun, fun _ => .nil⟩
  | cons hab _ ih =>
    have hrest := ih fun a ha b hb => h a (List.mem_cons_of_mem _ ha) b (List.mem_cons_of_mem _ hb)
    rw [List.forall₂_cons, List.forall_mem_cons, hrest, h _ List.mem_cons_self _ List.mem_cons_self hab]

/-- Matching instructions are equal exactly under the condition under which their constants are. -/
theorem Instruction.Matches.agrees_iff {R : Tensor → Tensor → Prop} {P : Tensor → Prop}
    {a b : Instruction Op} (h : a.Matches R b)
    (hP : ∀ v w, a.kind = .literal v → b.kind = .literal w → R v w → (v.agree w = true ↔ P v)) :
    a.Agrees b ↔ ∀ v, a.kind = .literal v → P v := by
  obtain ⟨kind, inputs, shape⟩ := a
  obtain ⟨kind', inputs', shape'⟩ := b
  obtain ⟨hk, rfl, rfl⟩ := h
  cases hk with
  | @literal v w hvw =>
    have hiff := hP v w rfl rfl hvw
    constructor
    · intro hagrees u hu
      cases hu
      cases hagrees.kind with
      | literal hequal => exact hiff.mp hequal
    · intro hall
      exact ⟨.literal (hiff.mpr (hall v rfl)), rfl, rfl⟩
  | parameter name =>
    refine ⟨fun _ v hv => ?_, fun _ => .refl _⟩
    cases hv
  | operation op =>
    refine ⟨fun _ v hv => ?_, fun _ => .refl _⟩
    cases hv
  | result =>
    refine ⟨fun _ v hv => ?_, fun _ => .refl _⟩
    cases hv

namespace Module

variable [Signature Op] [BEq Op] [LawfulBEq Op] {name name' : String} {calls others : List (Call Op)}

/-- **A module over shared constants equals the first one**, NaNs among them or not. -/
theorem agree_of_shared (h : List.Forall₂ (Call.Matches Tensor.Shared) calls others) :
    ((Module.new name).run calls).agree ((Module.new name').run others) = true := by
  have hrun := (Matches.new name name').run Tensor.shared_keepsShapes h
  exact agree_iff.mpr (hrun.instructions.imp fun _ _ hab => hab.imp fun _ _ hvw => hvw.agree)

/-- **A module over copied constants equals the first one if none of them shows a NaN.** -/
theorem agree_copied_iff (h : List.Forall₂ (Call.Matches Tensor.Copied) calls others)
    (hcalls : ∀ v, Call.literal v ∈ calls → v.Backed) (hothers : ∀ v, Call.literal v ∈ others → v.Backed) :
    ((Module.new name).run calls).agree ((Module.new name').run others) = true ↔
      ∀ ins ∈ ((Module.new name).run calls).instructions, ∀ v, ins.kind = .literal v →
        ¬ v.grid.HasNaN := by
  have hrun := (Matches.new name name').run Tensor.copied_keepsShapes h
  rw [agree_iff]
  refine forall₂_iff_forall_mem hrun.instructions fun a ha b hb hab => ?_
  refine hab.agrees_iff fun v w hv hw hvw => ?_
  obtain ⟨hdata, _⟩ := (wellFormed_run name calls).literal ha hv
  exact hvw.agree_iff (hcalls v (literal_mem_of_run ha hv)) (hothers w (literal_mem_of_run hb hw)) hdata

/-- **Equality depends on what shares its buffer only through NaNs.** Two tensors with data and one shape
    are gathered position by position, and they are equal if they share their buffer or if the elements
    are equal at every position; so what equality says is what the elements say, exactly if the tensors
    share no NaN. Let a module be built by calls, and again by the same calls, over the buffers of its
    constants and over copies of them. The module over the same buffers is always equal to the first one,
    and the module over copies is so exactly if no constant of the first one shows a NaN. -/
theorem sharing_exact_iff (memory : Nat → Storage) :
    (∀ x y : Tensor, x.Made → y.Made → x.LiesIn memory → y.LiesIn memory →
      x.hasData = true → y.hasData = true → x.shape = y.shape →
      (∃ s t, x.gathered = .ok s ∧ y.gathered = .ok t ∧ (s.agree t = true ↔ x.grid.Equals y.grid)) ∧
      (x.agree y = true ↔ x.sharesBuffer y = true ∨ x.grid.Equals y.grid) ∧
      ((x.agree y = true ↔ x.grid.Equals y.grid) ↔ (x.sharesBuffer y = true → ¬ x.grid.HasNaN))) ∧
    ∀ (name name' name'' : String) (calls shared copied : List (Call Op)),
      (∀ v, Call.literal v ∈ calls → v.Made) → (∀ v, Call.literal v ∈ copied → v.Made) →
      List.Forall₂ (Call.Matches Tensor.Shared) calls shared →
      List.Forall₂ (Call.Matches Tensor.Copied) calls copied →
      let first := (Module.new name).run calls
      let sharing := (Module.new name').run shared
      let copying := (Module.new name'').run copied
      first.agree sharing = true ∧
      ((first.agree copying = true ↔ first.agree sharing = true) ↔
        ∀ ins ∈ first.instructions, ∀ v, ins.kind = .literal v → ¬ v.grid.HasNaN) := by
  refine ⟨fun x y hx hy hmx hmy hdx hdy hshape => ?_, ?_⟩
  · exact ⟨hx.backed.exists_gathered_agree hy.backed hdx hdy hshape,
      hx.backed.agree_iff_shares_or_equals hy.backed hdx hdy hshape,
      hx.backed.shortcut_exact_iff hy.backed hdx hdy hshape hmx hmy⟩
  · intro name name' name'' calls shared copied hcalls hcopied hshared hcopies first sharing copying
    have hequal : first.agree sharing = true := agree_of_shared hshared
    refine ⟨hequal, ?_⟩
    rw [hequal, eq_self_iff_true, iff_true]
    exact agree_copied_iff hcopies (fun v hv => (hcalls v hv).backed) fun v hv => (hcopied v hv).backed

/-- Two single-precision numbers, read from a buffer. -/
def pairOf (a b : Int) (identity : Nat) : Tensor :=
  ⟨.standard .f32 [2], some ⟨identity, .ofPatterns .f32 [a, b]⟩⟩

theorem made_pairOf (a b : Int) (identity : Nat) : (pairOf a b identity).Made := by
  have hmade : Tensor.ofBuffer (.standard .f32 [2]) ⟨identity, .ofPatterns .f32 [a, b]⟩ =
      .ok (pairOf a b identity) := rfl
  exact .ofBuffer hmade

/-- The pair again, from another buffer. -/
theorem copied_pairOf (a b : Int) {identity identity' : Nat} (h : identity ≠ identity') :
    (pairOf a b identity).Copied (pairOf a b identity') where
  shape := rfl
  hasData := rfl
  grid := rfl
  apart := beq_eq_false_iff_ne.mpr h

/-- Calls that make a constant the result. -/
def constantCalls (v : Tensor) : List (Call Operation) := [.literal v, .result [0]]

theorem made_of_mem_constantCalls {v : Tensor} (hv : v.Made) :
    ∀ w, Call.literal w ∈ constantCalls v → w.Made := by
  intro w hw
  have hsame : w = v := by simpa [constantCalls] using hw
  rwa [hsame]

theorem constantCalls_matches {R : Tensor → Tensor → Prop} {v w : Tensor} (h : R v w) :
    List.Forall₂ (Call.Matches R) (constantCalls v) (constantCalls w) :=
  .cons (.literal h) (.cons (.result [0]) .nil)

/-- One and zero equal one and minus zero, though they share no buffer and not even the bits. A module over
    a copy of the pair equals the first one. -/
theorem zeros_of_both_signs_equal :
    let x := pairOf 0x3f800000 0 1
    let y := pairOf 0x3f800000 0x80000000 2
    let first := (Module.new "main").run (constantCalls x)
    let copying := (Module.new "copy").run (constantCalls (pairOf 0x3f800000 0 3))
    x.sharesBuffer y = false ∧ x.grid.Equals y.grid ∧ first.agree copying = true ∧
      ∀ ins ∈ first.instructions, ∀ v, ins.kind = .literal v → ¬ v.grid.HasNaN := by
  intro x y first copying
  let memory : Nat → Storage := fun identity =>
    .ofPatterns .f32 [0x3f800000, if identity = 2 then 0x80000000 else 0]
  obtain ⟨htensors, hmodules⟩ := @sharing_exact_iff Operation _ _ _ memory
  have hx : x.LiesIn memory := by
    intro a ha
    cases ha
    rfl
  have hy : y.LiesIn memory := by
    intro a ha
    cases ha
    rfl
  obtain ⟨_, hagree, _⟩ := htensors x y (made_pairOf _ _ _) (made_pairOf _ _ _) hx hy rfl rfl rfl
  have hshared : x.Shared x := ⟨rfl, rfl⟩
  obtain ⟨_, hcopies⟩ := hmodules "main" "main" "copy" _ _ _
    (made_of_mem_constantCalls (made_pairOf 0x3f800000 0 1))
    (made_of_mem_constantCalls (made_pairOf 0x3f800000 0 3)) (constantCalls_matches hshared)
    (constantCalls_matches (copied_pairOf 0x3f800000 0 (by decide)))
  have hequal : first.agree copying = true := by decide
  refine ⟨rfl, ?_, hequal, hcopies.mp (iff_of_true hequal (by decide))⟩
  exact (hagree.mp (by decide)).resolve_left (by decide)

/-- A pair with a NaN equals itself, which its elements do not. And a module over it equals the module over the
    same buffer, but not the one over a copy. -/
theorem nan_equals_through_its_buffer :
    let x := pairOf 0x7fc00000 0 1
    let first := (Module.new "main").run (constantCalls x)
    let copying := (Module.new "main").run (constantCalls (pairOf 0x7fc00000 0 2))
    x.agree x = true ∧ ¬ x.grid.Equals x.grid ∧
      (∃ s, x.gathered = .ok s ∧ s.agree s = false) ∧
      x.Copied (pairOf 0x7fc00000 0 2) ∧ first.agree first = true ∧ first.agree copying = false := by
  intro x first copying
  have hnan : x.grid.HasNaN := ⟨[0], by decide, 0x7fc00000#32, rfl, by decide⟩
  have hself : ¬ x.grid.Equals x.grid := fun h =>
    ((made_pairOf 0x7fc00000 0 1).backed.equals_self_iff rfl).mp h hnan
  exact ⟨by decide, hself, ⟨_, rfl, by decide⟩, copied_pairOf _ _ (by decide), by decide, by decide⟩

end Module

end TensorGraph
