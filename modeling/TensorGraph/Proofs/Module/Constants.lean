import TensorGraph.Proofs.Module.Alike

/-!
# Modules that differ in their constants

The elements of a constant are looked at when a module is evaluated, and not before: a module is built from
shapes. So two histories that make the same calls, but put constants of other elements in, make modules that
match, instruction by instruction.

* `Module.Matches R`, `Call.Matches R` -- modules and calls that are the same but for constants, and these are
  related by `R`;
* `Module.Matches.apply` -- matching calls make matching modules of matching modules, or fail on both in the
  same way, as long as `R` relates constants of one shape, and data to data;
* `Module.Matches.run` -- and so do histories, failed calls included;
* `Module.Matches.of_wellFormed` -- where the return is follows from the instructions.

Names of modules are not compared, so what matching modules tell of a failure may differ in its text.
-/

namespace TensorGraph

variable {Op : Type} {R : Tensor → Tensor → Prop}

/-! ## 1. Lists -/

/-- What is the same for related elements is the same for what is picked of their lists. -/
theorem filterMap_of_forall₂ {α β γ : Type} {R : α → β → Prop} {f : α → Option γ} {g : β → Option γ}
    (hfg : ∀ a b, R a b → f a = g b) {l : List α} {l' : List β} (h : List.Forall₂ R l l') :
    l.filterMap f = l'.filterMap g := by
  induction h with
  | nil => rfl
  | cons hab _ ih => rw [List.filterMap_cons, List.filterMap_cons, hfg _ _ hab, ih]

theorem forall₂_set {α β : Type} {R : α → β → Prop} {a : α} {b : β} (hab : R a b) {l : List α}
    {l' : List β} (h : List.Forall₂ R l l') (i : Nat) :
    List.Forall₂ R (l.set i a) (l'.set i b) := by
  induction h generalizing i with
  | nil => exact .nil
  | cons hcd h ih =>
    cases i with
    | zero => exact .cons hab h
    | succ i => exact .cons hcd (ih i)

/-! ## 2. Instructions, modules and calls -/

/-- The same name, the same operator, or constants that are related. -/
inductive InstructionKind.Matches (R : Tensor → Tensor → Prop) :
    InstructionKind Op → InstructionKind Op → Prop where
  | parameter (name : String) : Matches R (.parameter name) (.parameter name)
  | literal {v w : Tensor} : R v w → Matches R (.literal v) (.literal w)
  | operation (op : Op) : Matches R (.operation op) (.operation op)
  | result : Matches R .result .result

/-- Matching instructions read the same ones and have the same shape. -/
structure Instruction.Matches (R : Tensor → Tensor → Prop) (a b : Instruction Op) : Prop where
  kind : a.kind.Matches R b.kind
  inputs : a.inputs = b.inputs
  shape : a.shape = b.shape

/-- Matching instructions, and a return at the same place. -/
structure Module.Matches (R : Tensor → Tensor → Prop) (m n : Module Op) : Prop where
  returnAt : m.returnAt = n.returnAt
  instructions : List.Forall₂ (Instruction.Matches R) m.instructions n.instructions

/-- The same call, or calls that add related constants. -/
inductive Call.Matches (R : Tensor → Tensor → Prop) : Call Op → Call Op → Prop where
  | parameter (name : String) (shape : Shape) : Matches R (.parameter name shape) (.parameter name shape)
  | literal {v w : Tensor} : R v w → Matches R (.literal v) (.literal w)
  | instruction (op : Op) (inputs : List Nat) : Matches R (.instruction op inputs) (.instruction op inputs)
  | result (outputs : List Nat) : Matches R (.result outputs) (.result outputs)
  | replacement (position : Nat) (op : Op) : Matches R (.replacement position op) (.replacement position op)

/-- Constants that are related have one shape, and both have data or neither has. -/
def KeepsShapes (R : Tensor → Tensor → Prop) : Prop :=
  ∀ v w, R v w → v.shape = w.shape ∧ v.hasData = w.hasData

namespace InstructionKind.Matches

variable {k k' : InstructionKind Op}

theorem refl (hR : ∀ v, R v v) (k : InstructionKind Op) : k.Matches R k := by
  cases k with
  | parameter name => exact .parameter name
  | literal v => exact .literal (hR v)
  | operation op => exact .operation op
  | result => exact .result

theorem imp {S : Tensor → Tensor → Prop} (hRS : ∀ v w, R v w → S v w) (h : k.Matches R k') :
    k.Matches S k' := by
  cases h with
  | parameter name => exact .parameter name
  | literal hvw => exact .literal (hRS _ _ hvw)
  | operation op => exact .operation op
  | result => exact .result

theorem parameterName? (h : k.Matches R k') : k.parameterName? = k'.parameterName? := by
  cases h <;> rfl

theorem result_iff (h : k.Matches R k') : k = .result ↔ k' = .result := by
  cases h with
  | result => exact Iff.rfl
  | _ => exact ⟨nofun, nofun⟩

end InstructionKind.Matches

theorem Instruction.Matches.imp {S : Tensor → Tensor → Prop} (hRS : ∀ v w, R v w → S v w)
    {a b : Instruction Op} (h : a.Matches R b) : a.Matches S b :=
  ⟨h.kind.imp hRS, h.inputs, h.shape⟩

theorem Call.Matches.refl (hR : ∀ v, R v v) (call : Call Op) : call.Matches R call := by
  cases call with
  | parameter name shape => exact .parameter name shape
  | literal v => exact .literal (hR v)
  | instruction op inputs => exact .instruction op inputs
  | result outputs => exact .result outputs
  | replacement position op => exact .replacement position op

namespace Module.Matches

variable {m n : Module Op}

/-- Empty modules match, whatever their names. -/
theorem new (name name' : String) : (Module.new name : Module Op).Matches R (Module.new name') where
  returnAt := rfl
  instructions := .nil

theorem instruction? (h : m.Matches R n) (i : Nat) :
    Option.Rel (Instruction.Matches R) (m.instruction? i) (n.instruction? i) :=
  rel_getElem? h.instructions i

/-- **Where the return is follows from the instructions**, if the modules are well-formed. -/
theorem of_wellFormed [Signature Op] (hm : m.WellFormed) (hn : n.WellFormed)
    (h : List.Forall₂ (Instruction.Matches R) m.instructions n.instructions) : m.Matches R n where
  returnAt := by
    -- the return of a module is the one instruction that is a result
    have hresult : ∀ r, (∃ ins, m.instruction? r = some ins ∧ ins.kind = .result) ↔
        ∃ ins, n.instruction? r = some ins ∧ ins.kind = .result := by
      intro r
      have hrel : Option.Rel (Instruction.Matches R) (m.instruction? r) (n.instruction? r) :=
        rel_getElem? h r
      generalize m.instruction? r = x at hrel ⊢
      generalize n.instruction? r = y at hrel ⊢
      cases hrel with
      | none => simp
      | @some a b hab =>
        simp [hab.kind.result_iff]
    refine Option.ext fun r => ?_
    rw [hm.sealed r, hn.sealed r, hresult r]
  instructions := h

/-! ## 3. What matching modules share -/

theorem size (h : m.Matches R n) : m.size = n.size := h.instructions.length_eq

/-- A call adds or changes the same instruction in both. -/
theorem target (h : m.Matches R n) (call : Call Op) : m.target call = n.target call := by
  cases call with
  | replacement position op => rfl
  | _ => exact h.size

theorem parameters (h : m.Matches R n) : m.parameters = n.parameters := by
  refine filterMap_of_forall₂ (fun a b hab => ?_) h.instructions
  rw [hab.kind.parameterName?, hab.shape]

theorem shapesOf (h : m.Matches R n) (inputs : List Nat) : m.shapesOf inputs = n.shapesOf inputs := by
  refine shapesOf_congr fun i _ => ?_
  have hrel := h.instruction? i
  generalize m.instruction? i = x at hrel ⊢
  generalize n.instruction? i = y at hrel ⊢
  cases hrel with
  | none => rfl
  | some hab => exact congrArg some hab.shape

theorem outputShapes (h : m.Matches R n) : m.outputShapes = n.outputShapes := by
  unfold Module.outputShapes
  rw [← h.returnAt]
  cases m.returnAt with
  | none => rfl
  | some r =>
    have hrel := h.instruction? r
    simp only [Option.bind_some]
    generalize m.instruction? r = x at hrel ⊢
    generalize n.instruction? r = y at hrel ⊢
    cases hrel with
    | none => rfl
    | some hab =>
      dsimp only
      rw [hab.inputs, h.shapesOf]

/-! ### Checks -/

theorem checkOpen (h : m.Matches R n) : m.checkOpen.Paired Eq n.checkOpen := by
  unfold Module.checkOpen
  rw [h.returnAt]
  cases n.returnAt with
  | none => exact .ok rfl
  | some r => exact .fail rfl

theorem checkOperands (h : m.Matches R n) (inputs : List Nat) :
    (m.checkOperands inputs).Paired Eq (n.checkOperands inputs) := by
  induction inputs with
  | nil => exact .ok rfl
  | cons i rest ih =>
    unfold Module.checkOperands
    rw [h.size, h.returnAt]
    exact .ite (.fail rfl) (.ite (.fail rfl) ih)

theorem checkReads (h : m.Matches R n) (reader : Nat) (inputs : List Nat) :
    (m.checkReads reader inputs).Paired Eq (n.checkReads reader inputs) := by
  induction inputs with
  | nil => exact .ok rfl
  | cons i rest ih =>
    unfold Module.checkReads
    rw [h.returnAt]
    exact .ite (.fail rfl) ih

theorem checkOrder (h : m.Matches R n) {l l' : List (Instruction Op)}
    (hl : List.Forall₂ (Instruction.Matches R) l l') (position : Nat) :
    (m.checkOrder position l).Paired Eq (n.checkOrder position l') := by
  induction hl generalizing position with
  | nil => exact .ok rfl
  | cons hab _ ih =>
    unfold Module.checkOrder
    rw [hab.inputs]
    exact (h.checkReads position _).bind fun _ _ _ => ih (position + 1)

/-- **Matching modules are complete or incomplete together.** -/
theorem validate (h : m.Matches R n) : m.validate.Paired Eq n.validate := by
  unfold Module.validate
  rw [h.returnAt]
  cases n.returnAt with
  | none => exact .fail rfl
  | some r => exact h.checkOrder h.instructions 0

/-! ## 4. Calls -/

/-- Matching modules that grow by matching instructions still match. -/
theorem push (h : m.Matches R n) {a b : Instruction Op} (hab : a.Matches R b) :
    (m.push a).Matches R (n.push b) where
  returnAt := h.returnAt
  instructions := List.rel_append h.instructions (.cons hab .nil)

variable [Signature Op]

theorem infer (h : m.Matches R n) (op : Op) (inputs : List Nat) :
    (m.infer op inputs).Paired Eq (n.infer op inputs) := by
  unfold Module.infer
  rw [h.shapesOf]
  exact (h.checkOperands inputs).bind fun _ _ _ => .refl (fun _ => rfl) _

theorem replaceOperation (h : m.Matches R n) (position : Nat) (op : Op) :
    (m.replaceOperation position op).Paired (Matches R) (n.replaceOperation position op) := by
  unfold Module.replaceOperation
  have hrel := h.instruction? position
  generalize m.instruction? position = x at hrel ⊢
  generalize n.instruction? position = y at hrel ⊢
  cases hrel with
  | none => exact .fail rfl
  | @some a b hab =>
    obtain ⟨kind, inputs, shape⟩ := a
    obtain ⟨kind', inputs', shape'⟩ := b
    obtain ⟨hk, rfl, rfl⟩ := hab
    cases hk with
    | operation old =>
      refine (h.infer op inputs).bind fun found found' hfound => ?_
      subst hfound
      refine .ite (.error rfl rfl) (.ok ⟨h.returnAt, ?_⟩)
      exact forall₂_set ⟨.operation op, rfl, rfl⟩ h.instructions position
    | parameter name => exact .fail rfl
    | literal hvw => exact .fail rfl
    | result => exact .fail rfl

/-- **Matching calls make matching modules of matching modules, or fail on both in the same way.** -/
theorem apply (hR : KeepsShapes R) (h : m.Matches R n) {call call' : Call Op} (hc : call.Matches R call') :
    (m.apply call).Paired (Matches R) (n.apply call') := by
  cases hc with
  | parameter name shape =>
    refine h.checkOpen.bind fun _ _ _ => ?_
    unfold parameterShape?
    rw [h.parameters]
    exact .ite (.fail rfl) (.ok (h.push ⟨.parameter name, rfl, rfl⟩))
  | @literal v w hvw =>
    obtain ⟨hshape, hdata⟩ := hR v w hvw
    refine h.checkOpen.bind fun _ _ _ => ?_
    rw [hdata]
    exact .ite (.fail rfl) (.ok (h.push ⟨.literal hvw, rfl, hshape⟩))
  | instruction op inputs =>
    refine h.checkOpen.bind fun _ _ _ => (h.infer op inputs).bind fun shape shape' hshape => ?_
    exact .ok (h.push ⟨.operation op, rfl, hshape⟩)
  | result outputs =>
    refine h.checkOpen.bind fun _ _ _ => (h.checkOperands outputs).bind fun _ _ _ => ?_
    have hresult : (Instruction.mk (.result : InstructionKind Op) outputs (m.returnShape outputs)).Matches R
        ⟨.result, outputs, n.returnShape outputs⟩ := by
      unfold returnShape
      rw [h.shapesOf]
      exact ⟨.result, rfl, rfl⟩
    exact .ok ⟨congrArg some h.size, (h.push hresult).instructions⟩
  | replacement position op => exact h.replaceOperation position op

theorem step (hR : KeepsShapes R) (h : m.Matches R n) {call call' : Call Op} (hc : call.Matches R call') :
    (m.step call).Matches R (n.step call') := by
  have hpair := h.apply hR hc
  unfold Module.step
  generalize m.apply call = x at hpair ⊢
  generalize n.apply call' = y at hpair ⊢
  cases hpair with
  | ok hafter => exact hafter
  | error _ _ => exact h
  | fault => exact h

/-- **Matching histories make matching modules**, whichever of their calls fail. -/
theorem run (hR : KeepsShapes R) (h : m.Matches R n) {calls calls' : List (Call Op)}
    (hc : List.Forall₂ (Call.Matches R) calls calls') : (m.run calls).Matches R (n.run calls') := by
  induction hc generalizing m n with
  | nil => exact h
  | cons hcall _ ih => exact ih (h.step hR hcall)

end Module.Matches

end TensorGraph
