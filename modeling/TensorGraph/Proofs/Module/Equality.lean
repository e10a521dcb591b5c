import TensorGraph.Operation
import TensorGraph.Proofs.Module.Constants
import TensorGraph.Proofs.Tensor.Equality

/-!
# Equality of modules

Modules are compared by their instructions: names of modules are not looked at, and neither is the
position of the return. For modules that are built by calls this loses nothing. The instructions say
where the return is, so equal modules are sealed by the same instruction, announce the same inputs and
outputs, and no later call tells them apart: it makes equal modules of them, or fails on both in the
same way.

* `Instruction.Agrees`, `Module.Agrees` -- what equality says of instructions and of modules: they match,
  and their constants are equal;
* `Module.Agrees.apply`, `Module.Agrees.run` -- calls, and whole histories, respect equality;
* `Module.agree_congruence` -- equality is an equivalence and a congruence, for any operators whose own
  equality is exact.

Errors show names of modules, so those of two equal modules may differ in their texts, though not in
their kinds.
-/

namespace TensorGraph

variable {Op : Type}

/-! ## 1. Equal instructions -/

/-- The same name, the same operator, or constants that are equal. -/
abbrev InstructionKind.Agrees (k k' : InstructionKind Op) : Prop :=
  k.Matches (fun v w => v.agree w = true) k'

/-- Equal instructions read the same ones and have the same shape. -/
abbrev Instruction.Agrees (a b : Instruction Op) : Prop := a.Matches (fun v w => v.agree w = true) b

/-- Equal tensors have one shape, and both have data or neither has. -/
theorem Tensor.agree_keepsShapes : KeepsShapes fun v w => v.agree w = true := by
  intro v w h
  cases agree_iff.mp h with
  | placeholders s => exact ⟨rfl, rfl⟩
  | shared s _ => exact ⟨rfl, rfl⟩
  | elements s _ _ _ => exact ⟨rfl, rfl⟩

theorem InstructionKind.agree_iff [BEq Op] [LawfulBEq Op] {k k' : InstructionKind Op} :
    k.agree k' = true ↔ k.Agrees k' := by
  constructor
  · intro h
    cases k with
    | parameter name =>
      cases k' with
      | parameter name' =>
        obtain rfl : name = name' := beq_iff_eq.mp h
        exact .parameter name
      | _ => cases h
    | literal v =>
      cases k' with
      | literal w => exact .literal h
      | _ => cases h
    | operation op =>
      cases k' with
      | operation op' =>
        obtain rfl : op = op' := beq_iff_eq.mp h
        exact .operation op
      | _ => cases h
    | result =>
      cases k' with
      | result => exact .result
      | _ => cases h
  · intro h
    cases h with
    | parameter name => exact beq_self_eq_true name
    | literal hvw => exact hvw
    | operation op => exact beq_self_eq_true op
    | result => rfl

theorem Instruction.agree_iff [BEq Op] [LawfulBEq Op] {a b : Instruction Op} :
    a.agree b = true ↔ a.Agrees b := by
  unfold Instruction.agree
  rw [Bool.and_eq_true, Bool.and_eq_true, beq_iff_eq, beq_iff_eq, InstructionKind.agree_iff]
  exact ⟨fun ⟨⟨hk, hi⟩, hs⟩ => ⟨hk, hi, hs⟩, fun ⟨hk, hi, hs⟩ => ⟨⟨hk, hi⟩, hs⟩⟩

/-- A constant, if it is one, lies in a memory. -/
def InstructionKind.LiesIn (memory : Nat → Storage) (k : InstructionKind Op) : Prop :=
  ∀ v, k = .literal v → v.LiesIn memory

namespace InstructionKind.Agrees

variable {k k' k'' : InstructionKind Op}

theorem refl (k : InstructionKind Op) : k.Agrees k := InstructionKind.Matches.refl Tensor.agree_self k

theorem symm (h : k.Agrees k') : k'.Agrees k := by
  cases h with
  | parameter name => exact .parameter name
  | literal hvw => exact .literal (Tensor.agree_symm hvw)
  | operation op => exact .operation op
  | result => exact .result

theorem trans {memory : Nat → Storage} (hk : k.LiesIn memory) (hk' : k'.LiesIn memory)
    (hk'' : k''.LiesIn memory) (h : k.Agrees k') (h' : k'.Agrees k'') : k.Agrees k'' := by
  cases h with
  | parameter name => exact h'
  | operation op => exact h'
  | result => exact h'
  | literal hvw =>
    cases h' with
    | literal hwz => exact .literal (Tensor.agree_trans (hk _ rfl) (hk' _ rfl) (hk'' _ rfl) hvw hwz)

end InstructionKind.Agrees

theorem Instruction.Agrees.kind {a b : Instruction Op} (h : a.Agrees b) : a.kind.Agrees b.kind :=
  Instruction.Matches.kind h

theorem Instruction.Agrees.refl (a : Instruction Op) : a.Agrees a :=
  ⟨InstructionKind.Agrees.refl a.kind, rfl, rfl⟩

theorem Instruction.Agrees.symm {a b : Instruction Op} (h : a.Agrees b) : b.Agrees a :=
  ⟨h.kind.symm, h.inputs.symm, h.shape.symm⟩

/-! ## 2. Equal modules -/

/-- Equal instructions, and a return at the same place. -/
abbrev Module.Agrees (m n : Module Op) : Prop := m.Matches (fun v w => v.agree w = true) n

theorem Module.agree_iff [BEq Op] [LawfulBEq Op] {m n : Module Op} :
    m.agree n = true ↔ List.Forall₂ Instruction.Agrees m.instructions n.instructions := by
  unfold Module.agree
  rw [isEqv_iff_forall₂]
  have hsame : (fun a b : Instruction Op => a.agree b = true) = Instruction.Agrees :=
    funext fun a => funext fun b => propext Instruction.agree_iff
  rw [hsame]

namespace Module.Agrees

variable [Signature Op] {m n : Module Op}

/-- **A call makes equal modules of equal modules, or fails on both in the same way.** -/
theorem apply (h : m.Agrees n) (call : Call Op) : (m.apply call).Paired Agrees (n.apply call) :=
  Module.Matches.apply Tensor.agree_keepsShapes h (.refl Tensor.agree_self call)

/-- **Equal modules stay equal whatever calls are made on both**, and whichever of them fail. -/
theorem run (h : m.Agrees n) (calls : List (Call Op)) : (m.run calls).Agrees (n.run calls) :=
  Module.Matches.run Tensor.agree_keepsShapes h
    (List.forall₂_same.mpr fun call _ => .refl Tensor.agree_self call)

end Module.Agrees

/-! ## 3. Modules that are built by calls -/

namespace Module

variable [Signature Op]

/-- The module was built by calls that put constants of a memory into it. -/
def BuiltIn (memory : Nat → Storage) (m : Module Op) : Prop :=
  ∃ name calls, (∀ value, Call.literal value ∈ calls → value.LiesIn memory) ∧
    m = (Module.new name).run calls

theorem BuiltIn.wellFormed {memory : Nat → Storage} {m : Module Op} (h : m.BuiltIn memory) :
    m.WellFormed := by
  obtain ⟨name, calls, _, rfl⟩ := h
  exact wellFormed_run name calls

theorem BuiltIn.liesIn {memory : Nat → Storage} {m : Module Op} (h : m.BuiltIn memory) :
    ∀ ins ∈ m.instructions, ins.kind.LiesIn memory := by
  obtain ⟨name, calls, hcalls, rfl⟩ := h
  exact fun ins hins v hv => hcalls v (literal_mem_of_run hins hv)

/-- **Equality of modules is an equivalence and a congruence.** Every module equals itself, NaNs among
    its constants or not; equality goes both ways, and on from module to module of one memory. Let two
    modules be built by calls, and be equal. Then their returns are at the same place, their parameters
    and output shapes are the same, and they are complete or fail to be in the same way. A call adds or
    changes the same instruction in both; it succeeds on both and makes equal modules again, or fails
    on both with errors of one kind that blame one operator, or faults on both. So they stay equal
    through any calls. -/
theorem agree_congruence [BEq Op] [LawfulBEq Op] (memory : Nat → Storage) :
    (∀ a : Module Op, a.agree a = true) ∧
    (∀ a b : Module Op, a.agree b = true → b.agree a = true) ∧
    (∀ a b c : Module Op, a.BuiltIn memory → b.BuiltIn memory → c.BuiltIn memory →
      a.agree b = true → b.agree c = true → a.agree c = true) ∧
    ∀ a b : Module Op, a.BuiltIn memory → b.BuiltIn memory → a.agree b = true →
      a.returnAt = b.returnAt ∧ a.parameters = b.parameters ∧ a.outputShapes = b.outputShapes ∧
      a.validate.Paired Eq b.validate ∧
      (∀ call, a.target call = b.target call ∧
        (a.apply call).Paired (fun a' b' => a'.agree b' = true) (b.apply call)) ∧
      ∀ calls, (a.run calls).agree (b.run calls) = true := by
  refine ⟨fun a => ?_, fun a b hab => ?_, fun a b c ha hb hc hab hbc => ?_, fun a b ha hb hab => ?_⟩
  · exact agree_iff.mpr (List.forall₂_same.mpr fun ins _ => .refl ins)
  · exact agree_iff.mpr (forall₂_symm (fun _ _ h => h.symm) (agree_iff.mp hab))
  · refine agree_iff.mpr (forall₂_trans ?_ (agree_iff.mp hab) (agree_iff.mp hbc))
    intro i hi j hj k hk hij hjk
    have hkind := hij.kind.trans (ha.liesIn i hi) (hb.liesIn j hj) (hc.liesIn k hk) hjk.kind
    exact ⟨hkind, hij.inputs.trans hjk.inputs, hij.shape.trans hjk.shape⟩
  · have h : a.Agrees b := .of_wellFormed ha.wellFormed hb.wellFormed (agree_iff.mp hab)
    refine ⟨h.returnAt, h.parameters, h.outputShapes, h.validate, fun call => ?_, fun calls => ?_⟩
    · exact ⟨h.target call, (h.apply call).imp fun _ _ hafter => agree_iff.mpr hafter.instructions⟩
    · exact agree_iff.mpr (h.run calls).instructions

/-- A memory with a NaN and a zero in buffer 7, and with the same two numbers in all others. -/
def nanMemory (identity : Nat) : Storage :=
  if identity = 7 then .ofPatterns .f32 [0x7fc00000, 0] else .ofPatterns .f32 [0x3f800000, 0x40000000]

/-- Two numbers of that memory, read from a buffer. -/
def pairIn (identity : Nat) : Tensor := ⟨.standard .f32 [2], some ⟨identity, nanMemory identity⟩⟩

/-- Calls that add the pair of a buffer to the one with the NaN. -/
def sumCalls (identity : Nat) : List (Call Operation) :=
  [.literal (pairIn 7), .literal (pairIn identity),
    .instruction (.catalog (.binary ⟨.add, none⟩)) [0, 1]]

theorem builtIn_sumCalls (name : String) (identity : Nat) :
    ((Module.new name).run (sumCalls identity)).BuiltIn nanMemory := by
  refine ⟨name, sumCalls identity, fun value hvalue => ?_, rfl⟩
  have hpair : ∀ i, (pairIn i).LiesIn nanMemory := by
    intro i a ha
    cases ha
    rfl
  have hcases : value = pairIn 7 ∨ value = pairIn identity := by
    simpa [sumCalls] using hvalue
  rcases hcases with rfl | rfl
  · exact hpair 7
  · exact hpair identity

/-- A module and one of another name, which share the NaN and hold copies of the other constant. The
    storage of the NaN does not equal itself, and yet the modules are equal; they stay equal when they
    are sealed, and an operand that is missing is missing in both, under their own names. -/
theorem sum_with_copied_constant_agrees :
    let a := (Module.new "main").run (sumCalls 8)
    let b := (Module.new "copy").run (sumCalls 9)
    (nanMemory 7).agree (nanMemory 7) = false ∧ a.agree b = true ∧
      (a.run [.result [2]]).agree (b.run [.result [2]]) = true ∧
      (a.apply (.result [5])).Paired (fun a' b' => a'.agree b' = true) (b.apply (.result [5])) ∧
      a.apply (.result [5]) = Outcome.fail (.unknownInstruction 5 "main" 3) ∧
      b.apply (.result [5]) = Outcome.fail (.unknownInstruction 5 "copy" 3) := by
  intro a b
  have hab : a.agree b = true := by decide
  obtain ⟨_, _, _, hcongruence⟩ := @agree_congruence Operation _ _ _ nanMemory
  obtain ⟨_, _, _, _, hcalls, hruns⟩ :=
    hcongruence a b (builtIn_sumCalls "main" 8) (builtIn_sumCalls "copy" 9) hab
  exact ⟨by decide, hab, hruns _, (hcalls (.result [5])).2, rfl, rfl⟩

end Module

end TensorGraph
