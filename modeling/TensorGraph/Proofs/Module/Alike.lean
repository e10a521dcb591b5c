import Mathlib.Data.List.Forall2
import TensorGraph.Proofs.Module.Invariant
import TensorGraph.Proofs.Operator.Alike

/-!
# Modules do not depend on the layout of their parameters

Two histories make the same calls, but declare parameters with other strides. As long as the operators are
blind to strides, their modules are alike after every call: the same instructions over the same operands,
with alike shapes. So a call succeeds on both or fails on both, and then in the same way.

* `Module.Alike`, `Call.Alike` -- modules and calls that are the same but for strides;
* `Module.Alike.apply` -- alike calls take alike modules to alike modules, or fail in the same way;
* `Module.Alike.run` -- and so do histories, failed calls included;
* `Module.inference_ignores_layout` -- for the operators of programs.
-/

namespace TensorGraph

open Outcome

variable {Op : Type}

/-- The same instruction over the same operands, with a shape that is alike. -/
structure Instruction.Alike (a b : Instruction Op) : Prop where
  kind : a.kind = b.kind
  inputs : a.inputs = b.inputs
  shape : a.shape.Alike b.shape

/-- Modules that are the same but for the strides of their shapes. -/
structure Module.Alike (m n : Module Op) : Prop where
  name : m.name = n.name
  returnAt : m.returnAt = n.returnAt
  instructions : List.Forall₂ Instruction.Alike m.instructions n.instructions

/-- Calls that insert the same instruction, but for the strides of a parameter. -/
inductive Call.Alike : Call Op → Call Op → Prop where
  | parameter (name : String) {s t : Shape} : s.Alike t → Alike (.parameter name s) (.parameter name t)
  | literal (value : Tensor) : Alike (.literal value) (.literal value)
  | instruction (op : Op) (inputs : List Nat) : Alike (.instruction op inputs) (.instruction op inputs)
  | result (outputs : List Nat) : Alike (.result outputs) (.result outputs)

/-- At each position both lists have an element, and the two are related, or none has one. -/
theorem rel_getElem? {α β : Type} {R : α → β → Prop} {l : List α} {l' : List β}
    (h : List.Forall₂ R l l') (i : Nat) : Option.Rel R l[i]? l'[i]? := by
  induction h generalizing i with
  | nil => exact .none
  | cons hab _ ih =>
    cases i with
    | zero => exact .some hab
    | succ i => exact ih i

/-- The elements at one position of related lists are related. -/
theorem related_of_getElem? {α β : Type} {R : α → β → Prop} {l : List α} {l' : List β}
    (h : List.Forall₂ R l l') {i : Nat} {a : α} {b : β} (ha : l[i]? = some a) (hb : l'[i]? = some b) :
    R a b := by
  have hrel := rel_getElem? h i
  rw [ha, hb] at hrel
  cases hrel with
  | some hab => exact hab

namespace Module.Alike

variable {m n : Module Op}

/-! ## 1. What alike modules share -/

theorem size (h : m.Alike n) : m.size = n.size := h.instructions.length_eq

theorem checkOpen (h : m.Alike n) : m.checkOpen = n.checkOpen := checkOpen_congr h.name h.returnAt

theorem checkOperands (h : m.Alike n) (inputs : List Nat) :
    m.checkOperands inputs = n.checkOperands inputs :=
  checkOperands_congr h.size h.name h.returnAt inputs

/-- The parameters have the same names. -/
theorem parameterNames (h : m.Alike n) :
    m.parameters.map Prod.fst = n.parameters.map Prod.fst := by
  -- the names are those of the kinds, which are the same
  have hnames : ∀ l : List (Instruction Op),
      (l.filterMap fun ins => ins.kind.parameterName?.map fun name => (name, ins.shape)).map Prod.fst =
        (l.map Instruction.kind).filterMap InstructionKind.parameterName? := by
    intro l
    rw [List.map_filterMap, List.filterMap_map]
    refine congrArg (List.filterMap · l) (funext fun ins => ?_)
    rw [Option.map_map]
    exact Option.map_id'
  have hkinds : m.instructions.map Instruction.kind = n.instructions.map Instruction.kind :=
    map_of_forall₂ (fun _ _ hi => hi.kind) h.instructions
  unfold parameters
  rw [hnames, hnames, hkinds]

theorem isSome_parameterShape? (h : m.Alike n) (name : String) :
    (m.parameterShape? name).isSome = (n.parameterShape? name).isSome := by
  have hnone : m.parameterShape? name = none ↔ n.parameterShape? name = none := by
    rw [parameterShape?_eq_none, parameterShape?_eq_none, h.parameterNames]
  rw [Bool.eq_iff_iff, Option.isSome_iff_ne_none, Option.isSome_iff_ne_none, not_iff_not, hnone]

/-- What is read has alike shapes. -/
theorem shapesOf (h : m.Alike n) (inputs : List Nat) :
    List.Forall₂ Shape.Alike (m.shapesOf inputs) (n.shapesOf inputs) := by
  have hsame : List.Forall₂ Eq inputs inputs := List.forall₂_refl inputs
  refine List.rel_filterMap (fun i j hij => ?_) hsame
  subst hij
  have hrel := rel_getElem? h.instructions i
  show Option.Rel Shape.Alike (m.instructions[i]?.map Instruction.shape)
    (n.instructions[i]?.map Instruction.shape)
  generalize m.instructions[i]? = found at hrel ⊢
  generalize n.instructions[i]? = found' at hrel ⊢
  cases hrel with
  | none => exact .none
  | some hab => exact .some hab.shape

/-- A return over the same instructions has alike shapes. -/
theorem returnShape (h : m.Alike n) (outputs : List Nat) :
    (m.returnShape outputs).Alike (n.returnShape outputs) := by
  have hshapes := h.shapesOf outputs
  unfold Module.returnShape
  generalize m.shapesOf outputs = shapes at hshapes
  generalize n.shapesOf outputs = shapes' at hshapes
  cases hshapes with
  | nil => exact .refl _
  | cons hst hrest =>
    cases hrest with
    | nil => exact hst
    | cons _ _ => exact .refl _

/-! ## 2. Calls -/

/-- Modules that grow by alike instructions stay alike. -/
theorem push (h : m.Alike n) {a b : Instruction Op} (hab : a.Alike b) :
    (m.push a).Alike (n.push b) where
  name := h.name
  returnAt := h.returnAt
  instructions := List.rel_append h.instructions (.cons hab .nil)

variable [Signature Op]

/-- **Alike calls take alike modules to alike modules, or fail in the same way.** -/
theorem apply (hop : Signature.LayoutBlind Op) (h : m.Alike n) {call call' : Call Op}
    (hc : call.Alike call') : (m.apply call).Related Module.Alike (n.apply call') := by
  cases hc with
  | parameter name hst =>
    refine .andThen h.checkOpen ?_
    rw [h.isSome_parameterShape? name, h.name]
    exact .ite (.error _) (.ok (h.push ⟨rfl, rfl, hst⟩))
  | literal value =>
    refine .andThen h.checkOpen ?_
    exact .ite (.error _) (.ok (h.push ⟨rfl, rfl, .refl _⟩))
  | instruction op inputs =>
    refine .andThen h.checkOpen ?_
    have hinfer : (m.infer op inputs).Related Shape.Alike (n.infer op inputs) :=
      .andThen (h.checkOperands inputs) ((hop op _ _ (h.shapesOf inputs)).withOperator _)
    exact hinfer.bind fun s t hst => .ok (h.push ⟨rfl, rfl, hst⟩)
  | result outputs =>
    refine .andThen h.checkOpen (.andThen (h.checkOperands outputs) ?_)
    have hresult : (Instruction.mk (.result : InstructionKind Op) outputs (m.returnShape outputs)).Alike
        ⟨.result, outputs, n.returnShape outputs⟩ := ⟨rfl, rfl, h.returnShape outputs⟩
    have hpush := h.push hresult
    exact .ok ⟨hpush.name, congrArg some h.size, hpush.instructions⟩

theorem step (hop : Signature.LayoutBlind Op) (h : m.Alike n) {call call' : Call Op}
    (hc : call.Alike call') : (m.step call).Alike (n.step call') := by
  have hrel := h.apply hop hc
  unfold Module.step
  generalize m.apply call = x at hrel ⊢
  generalize n.apply call' = y at hrel ⊢
  cases hrel with
  | ok hafter => exact hafter
  | error f => exact h

/-- **Alike histories make alike modules**, whichever of their calls fail. -/
theorem run (hop : Signature.LayoutBlind Op) (h : m.Alike n) {calls calls' : List (Call Op)}
    (hc : List.Forall₂ Call.Alike calls calls') : (m.run calls).Alike (n.run calls') := by
  induction hc generalizing m n with
  | nil => exact h
  | cons hcall _ ih => exact ih (h.step hop hcall)

end Module.Alike

/-! ## 3. The operators of programs -/

namespace Module

/-- An empty module is like itself. -/
theorem alike_new (name : String) : (Module.new name : Module Op).Alike (Module.new name) where
  name := rfl
  returnAt := rfl
  instructions := .nil

/-- **Inference does not depend on the layout of parameters.** Let two histories make the same calls, with
    any operators, but declare parameters of other strides. Each call succeeds after the calls before it in
    the one history exactly if it does in the other, and when it fails, it fails with the same error; and
    in the end there are as many instructions, with the same element types and lengths. -/
theorem inference_ignores_layout {calls calls' : List (Call Operation)}
    (h : List.Forall₂ Call.Alike calls calls') (name : String) :
    (∀ (k : Nat) (call call' : Call Operation), calls[k]? = some call → calls'[k]? = some call' →
      ((∃ after, ((Module.new name).run (calls.take k)).apply call = .ok after) ↔
        ∃ after, ((Module.new name).run (calls'.take k)).apply call' = .ok after) ∧
      ∀ f, ((Module.new name).run (calls.take k)).apply call = .error f ↔
        ((Module.new name).run (calls'.take k)).apply call' = .error f) ∧
    ((Module.new name).run calls).size = ((Module.new name).run calls').size ∧
    ∀ i ins ins', ((Module.new name).run calls).instruction? i = some ins →
      ((Module.new name).run calls').instruction? i = some ins' →
      ins.shape.elementType = ins'.shape.elementType ∧ ins.shape.lengths = ins'.shape.lengths := by
  have hnew : (Module.new name : Module Operation).Alike (Module.new name) := alike_new name
  have hend := hnew.run Operation.layoutBlind h
  refine ⟨fun k call call' hk hk' => ?_, hend.size, fun i ins ins' hi hi' => ?_⟩
  · have hbefore := hnew.run Operation.layoutBlind (List.forall₂_take k h)
    have hrel := hbefore.apply Operation.layoutBlind (related_of_getElem? h hk hk')
    exact ⟨hrel.exists_ok, hrel.error_iff⟩
  · have hins : ins.Alike ins' := related_of_getElem? hend.instructions hi hi'
    exact ⟨hins.shape.elementType, hins.shape.lengths⟩

/-- Calls that transpose a matrix `x`, add it to itself, and give the transposed one back. -/
def symmetricCalls (s : Shape) : List (Call Operation) :=
  [.parameter "x" s, .instruction (.catalog (.transpose [1, 0])) [0],
    .instruction (.catalog (.binary ⟨.add, none⟩)) [0, 1], .result [1]]

/-- A matrix that is no square cannot be added to its transposed, whether it lies in rows or in columns;
    and its transposed has the same lengths in both, though not the same strides. -/
theorem symmetric_matrix_refused :
    let rows := symmetricCalls (.standard .f32 [2, 3])
    let columns := symmetricCalls ⟨.f32, [⟨2, 1⟩, ⟨3, 2⟩]⟩
    let f : Failure := .error ⟨some "add", .lengthsDiffer [[2, 3], [3, 2]]⟩
    let sum : Call Operation := .instruction (.catalog (.binary ⟨.add, none⟩)) [0, 1]
    (((Module.new "main").run (rows.take 2)).apply sum = .error f ∧
      ((Module.new "main").run (columns.take 2)).apply sum = .error f) ∧
    ∃ ins ins', ((Module.new "main").run rows).instruction? 1 = some ins ∧
      ((Module.new "main").run columns).instruction? 1 = some ins' ∧
      ins.shape ≠ ins'.shape ∧ ins.shape.lengths = ins'.shape.lengths := by
  intro rows columns f sum
  have hcalls : List.Forall₂ Call.Alike rows columns :=
    .cons (.parameter "x" ⟨rfl, rfl⟩) (.cons (.instruction _ _) (.cons (.instruction _ _)
      (.cons (.result _) .nil)))
  obtain ⟨hrefused, _, hshapes⟩ := inference_ignores_layout hcalls "main"
  have hrows : ((Module.new "main").run (rows.take 2)).apply sum = .error f := rfl
  refine ⟨⟨hrows, ((hrefused 2 sum sum rfl rfl).2 f).mp hrows⟩, ?_⟩
  exact ⟨_, _, rfl, rfl, by decide, (hshapes 1 _ _ rfl rfl).2⟩

end Module

end TensorGraph
