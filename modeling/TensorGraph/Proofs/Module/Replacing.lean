import TensorGraph.Proofs.Module.Sealed
import TensorGraph.Proofs.Operator.Alike

/-!
# When an operator is replaced does not matter

Replacing an operator keeps the graph of a module, and the graph is all that later calls look at: their
checks ask for positions, names, shapes and the return, never for an operator. So a replacement can be
made before or after the calls that follow it, and every one of them answers what it would have answered
without it.

* `Module.answer`, `Module.answers` -- what calls answer: the position that is added or changed, or how
  they fail;
* `Module.insertion_related`, `Module.replacement_related` -- calls on two modules of one graph do the same
  to both, or fail in the same way;
* `Module.answers_of_graph` -- so modules of one graph keep giving the same answers, and keep to one graph;
* `Module.step_comm` -- two calls that do not touch each other's answers can be swapped if they can where
  both succeed;
* `Module.WellFormed.postpone` -- a replacement can be put off past calls that leave its operator alone;
* `Module.instruction?_of_replacement` -- what a replacement leaves at each position;
* `Module.replacements_commute` -- all this for modules that are built by calls.
-/

namespace TensorGraph

open Outcome

variable {Op : Type}

/-- The call adds an instruction. -/
def Call.inserts : Call Op → Bool
  | .replacement _ _ => false
  | _ => true

/-- The call replaces the operator at a position. -/
def Call.replaces (position : Nat) : Call Op → Bool
  | .replacement i _ => i == position
  | _ => false

/-- Kinds of one form are the same, or operations. -/
theorem InstructionKind.eq_or_operations {k k' : InstructionKind Op} (h : k.form = k'.form) :
    (k' = k ∧ ∀ op, k ≠ .operation op) ∨ ∃ op op', k = .operation op ∧ k' = .operation op' := by
  cases k with
  | operation op =>
    cases k' with
    | operation op' => exact .inr ⟨op, op', rfl, rfl⟩
    | _ => cases h
  | parameter name =>
    cases k' <;> cases h
    exact .inl ⟨rfl, nofun⟩
  | literal value =>
    cases k' <;> cases h
    exact .inl ⟨rfl, nofun⟩
  | result =>
    cases k' <;> cases h
    exact .inl ⟨rfl, nofun⟩

namespace Module

/-! ## 1. Answers -/

section Answers

variable [Signature Op]

/-- What a call answers: the position at which it adds or changes an instruction, or how it fails. -/
def answer (m : Module Op) (call : Call Op) : Outcome Nat := (m.apply call).map fun _ => m.target call

/-- What calls answer, each on the module that the calls before it leave. -/
def answers (m : Module Op) : List (Call Op) → List (Outcome Nat)
  | [] => []
  | call :: rest => m.answer call :: (m.step call).answers rest

/-- A call that answers with a failure failed in that way. -/
theorem apply_of_answer_error {m : Module Op} {call : Call Op} {f : Failure}
    (h : m.answer call = .error f) : m.apply call = .error f := by
  unfold answer at h
  cases ha : m.apply call with
  | error g =>
    rw [ha] at h
    cases h
    rfl
  | ok after =>
    rw [ha] at h
    cases h

theorem answer_of_ok {m after : Module Op} {call : Call Op} (h : m.apply call = .ok after) :
    m.answer call = .ok (m.target call) := by
  unfold answer
  rw [h]
  rfl

theorem answer_of_error {m : Module Op} {call : Call Op} {f : Failure} (h : m.apply call = .error f) :
    m.answer call = .error f := by
  unfold answer
  rw [h]
  rfl

/-- **Two calls can be swapped** if neither changes what the other answers, and where both succeed they come
    to the same in either order. -/
theorem step_comm {m : Module Op} {c d : Call Op} (hc : (m.step d).answer c = m.answer c)
    (hd : (m.step c).answer d = m.answer d)
    (hboth : ∀ a b, m.apply c = .ok a → m.apply d = .ok b → a.step d = b.step c) :
    (m.step c).step d = (m.step d).step c := by
  cases hmc : m.apply c with
  | error f =>
    have hlater := apply_of_answer_error (hc.trans (answer_of_error hmc))
    rw [step_of_error hmc, step_of_error hlater]
  | ok a =>
    cases hmd : m.apply d with
    | error f =>
      have hlater := apply_of_answer_error (hd.trans (answer_of_error hmd))
      rw [step_of_error hmd, step_of_error hlater]
    | ok b =>
      rw [step_of_ok hmc, step_of_ok hmd]
      exact hboth a b hmc hmd

end Answers

/-! ## 2. What a graph tells -/

section Graphs

variable {m n : Module Op}

theorem name_of_graph (h : m.graph = n.graph) : m.name = n.name :=
  congrArg (fun g : Module Unit => g.name) h

theorem returnAt_of_graph (h : m.graph = n.graph) : m.returnAt = n.returnAt :=
  congrArg (fun g : Module Unit => g.returnAt) h

theorem forms_of_graph (h : m.graph = n.graph) :
    m.instructions.map Instruction.form = n.instructions.map Instruction.form :=
  congrArg (fun g : Module Unit => g.instructions) h

theorem size_of_graph (h : m.graph = n.graph) : m.size = n.size := by
  have hlength := congrArg List.length (forms_of_graph h)
  rwa [List.length_map, List.length_map] at hlength

theorem form_of_graph (h : m.graph = n.graph) (i : Nat) :
    (m.instruction? i).map Instruction.form = (n.instruction? i).map Instruction.form := by
  unfold instruction?
  rw [← List.getElem?_map, ← List.getElem?_map, forms_of_graph h]

theorem checkOpen_of_graph (h : m.graph = n.graph) : m.checkOpen = n.checkOpen :=
  checkOpen_congr (name_of_graph h) (returnAt_of_graph h)

theorem checkOperands_of_graph (h : m.graph = n.graph) (inputs : List Nat) :
    m.checkOperands inputs = n.checkOperands inputs :=
  checkOperands_congr (size_of_graph h) (name_of_graph h) (returnAt_of_graph h) inputs

theorem shapesOf_of_graph (h : m.graph = n.graph) (inputs : List Nat) :
    m.shapesOf inputs = n.shapesOf inputs := by
  refine shapesOf_congr fun i _ => ?_
  have hshape := congrArg (Option.map Instruction.shape) (form_of_graph h i)
  rwa [Option.map_map, Option.map_map] at hshape

/-- The parameters and their shapes can be read off the graph. -/
theorem parameters_graph (m : Module Op) : m.graph.parameters = m.parameters := by
  unfold parameters graph
  rw [List.filterMap_map]
  refine congrArg (List.filterMap · m.instructions) (funext fun ins => ?_)
  obtain ⟨kind, inputs, shape⟩ := ins
  cases kind <;> rfl

theorem parameterShape?_of_graph (h : m.graph = n.graph) (name : String) :
    m.parameterShape? name = n.parameterShape? name := by
  unfold parameterShape?
  rw [← parameters_graph, h, parameters_graph]

theorem infer_of_graph [Signature Op] (h : m.graph = n.graph) (op : Op) (inputs : List Nat) :
    m.infer op inputs = n.infer op inputs := by
  unfold infer
  rw [checkOperands_of_graph h, shapesOf_of_graph h]

/-! ## 3. Calls on modules of one graph -/

/-- The module with one more instruction, sealed or not. -/
def extend (m : Module Op) (ins : Instruction Op) (returnAt : Option Nat) : Module Op :=
  { m.push ins with returnAt }

theorem graph_extend (h : m.graph = n.graph) (ins : Instruction Op) (returnAt : Option Nat) :
    (m.extend ins returnAt).graph = (n.extend ins returnAt).graph := by
  unfold extend push graph
  rw [List.map_append, List.map_append, forms_of_graph h, name_of_graph h]

variable [Signature Op]

/-- **An insertion does the same to modules of one graph**, or fails on both in the same way. -/
theorem insertion_related (h : m.graph = n.graph) {call : Call Op} (hc : call.inserts = true) :
    (m.apply call).Related
      (fun a b => ∃ ins returnAt, a = m.extend ins returnAt ∧ b = n.extend ins returnAt)
      (n.apply call) := by
  have hreturn := returnAt_of_graph h
  cases call with
  | parameter name shape =>
    refine .andThen (checkOpen_of_graph h) ?_
    rw [parameterShape?_of_graph h, name_of_graph h]
    refine .ite (.error _) (.ok ⟨⟨.parameter name, [], shape⟩, m.returnAt, rfl, ?_⟩)
    rw [hreturn]
    rfl
  | literal value =>
    refine .andThen (checkOpen_of_graph h) ?_
    refine .ite (.error _) (.ok ⟨⟨.literal value, [], value.shape⟩, m.returnAt, rfl, ?_⟩)
    rw [hreturn]
    rfl
  | instruction op inputs =>
    refine .andThen (checkOpen_of_graph h) ?_
    rw [infer_of_graph h]
    refine (Related.refl (fun _ => rfl) (n.infer op inputs)).bind fun shape _ hshape => ?_
    subst hshape
    refine .ok ⟨⟨.operation op, inputs, shape⟩, m.returnAt, rfl, ?_⟩
    rw [hreturn]
    rfl
  | result outputs =>
    refine .andThen (checkOpen_of_graph h) (.andThen (checkOperands_of_graph h outputs) ?_)
    refine .ok ⟨⟨.result, outputs, m.returnShape outputs⟩, some m.size, rfl, ?_⟩
    unfold returnShape
    rw [shapesOf_of_graph h, size_of_graph h]
    rfl
  | replacement position op => cases hc

/-! ## 4. Replacements -/

/-- An instruction that is no operation has no operator to replace. -/
theorem replaceOperation_of_ne {m : Module Op} {position : Nat} {ins : Instruction Op}
    (hi : m.instruction? position = some ins) (hk : ∀ old, ins.kind ≠ .operation old) (op : Op) :
    m.replaceOperation position op = fail (.notAnOperation position ins.kind.name) := by
  unfold replaceOperation
  rw [hi]
  dsimp only
  split
  · rename_i old hold
    exact absurd hold (hk old)
  · rfl

/-- The operator of an operation is replaced by one that infers its shape. -/
theorem replaceOperation_of_operation {m : Module Op} {position : Nat} {ins : Instruction Op}
    (hi : m.instruction? position = some ins) {old : Op} (hk : ins.kind = .operation old) (op : Op) :
    m.replaceOperation position op =
      m.infer op ins.inputs >>= fun shape =>
        if shape ≠ ins.shape then
          failIn (Signature.name op) (.replacementShape position shape ins.shape)
        else .ok (m.replace position ins op) := by
  unfold replaceOperation
  rw [hi]
  dsimp only
  rw [hk]
  refine congrArg (m.infer op ins.inputs >>= ·) (funext fun shape => ?_)
  split <;> rfl

/-- **A replacement does the same to modules of one graph**, or fails on both in the same way: it asks what
    the instruction is, but not which operator it has. -/
theorem replacement_related (h : m.graph = n.graph) (position : Nat) (op : Op) :
    (m.apply (.replacement position op)).Related (fun a b => a.graph = m.graph ∧ b.graph = n.graph)
      (n.apply (.replacement position op)) := by
  show (m.replaceOperation position op).Related _ (n.replaceOperation position op)
  have hform := form_of_graph h position
  cases ha : m.instruction? position with
  | none =>
    rw [ha, Option.map_none, eq_comm, Option.map_eq_none_iff] at hform
    unfold replaceOperation unknown
    rw [ha, hform, name_of_graph h, size_of_graph h]
    exact .error _
  | some a =>
    rw [ha, Option.map_some, eq_comm, Option.map_eq_some_iff] at hform
    obtain ⟨b, hb, hab⟩ := hform
    obtain ⟨hkind, hinputs, hshape⟩ := (Instruction.mk.injEq ..).mp hab
    rcases InstructionKind.eq_or_operations hkind with ⟨hsame, hne⟩ | ⟨old', old, hold', hold⟩
    · rw [replaceOperation_of_ne ha (hsame ▸ hne), replaceOperation_of_ne hb hne, hsame]
      exact .error _
    · rw [replaceOperation_of_operation ha hold, replaceOperation_of_operation hb hold',
        infer_of_graph h, hinputs, hshape]
      refine (Related.refl (fun _ => rfl) (n.infer op a.inputs)).bind fun shape _ hsame => ?_
      subst hsame
      exact .ite (.error _) (.ok ⟨graph_replace ha hold op, graph_replace hb hold' op⟩)

/-! ## 5. Modules of one graph -/

/-- **Calls on modules of one graph give the same answers** and lead to modules of one graph. -/
theorem answer_of_graph (h : m.graph = n.graph) (call : Call Op) :
    m.answer call = n.answer call ∧ (m.step call).graph = (n.step call).graph := by
  have hrel : (m.apply call).Related (fun a b => a.graph = b.graph) (n.apply call) := by
    cases hc : call.inserts with
    | true =>
      refine (insertion_related h hc).imp fun a b hab => ?_
      obtain ⟨ins, returnAt, rfl, rfl⟩ := hab
      exact graph_extend h ins returnAt
    | false =>
      cases call with
      | replacement position op =>
        exact (replacement_related h position op).imp fun a b hab => hab.1.trans (h.trans hab.2.symm)
      | _ => cases hc
  have htarget : m.target call = n.target call := by
    unfold target
    rw [size_of_graph h]
  unfold answer step
  rw [htarget]
  generalize m.apply call = x at hrel ⊢
  generalize n.apply call = y at hrel ⊢
  cases hrel with
  | ok hab => exact ⟨rfl, hab⟩
  | error f => exact ⟨rfl, h⟩

/-- **Modules of one graph keep giving the same answers and keep to one graph.** -/
theorem answers_of_graph (h : m.graph = n.graph) (calls : List (Call Op)) :
    m.answers calls = n.answers calls ∧ (m.run calls).graph = (n.run calls).graph := by
  induction calls generalizing m n with
  | nil => exact ⟨rfl, h⟩
  | cons call rest ih =>
    obtain ⟨hanswer, hstep⟩ := answer_of_graph h call
    obtain ⟨hanswers, hrun⟩ := ih hstep
    unfold answers run
    rw [hanswer, hanswers]
    exact ⟨rfl, hrun⟩

/-- A replacement keeps the graph, whether it succeeds or not. -/
theorem graph_step_replacement (m : Module Op) (position : Nat) (op : Op) :
    (m.step (.replacement position op)).graph = m.graph := by
  cases ha : m.apply (.replacement position op) with
  | error f => rw [step_of_error ha]
  | ok after =>
    obtain ⟨ins, old, hi, hk, _, _, rfl⟩ := (replaceOperation_eq_ok m after position op).mp ha
    rw [step_of_ok ha, graph_replace hi hk]

/-- What an insertion adds to a module it adds to all modules of its graph. -/
theorem insertion_of_graph (h : m.graph = n.graph) {call : Call Op} (hc : call.inserts = true)
    {after : Module Op} (ha : m.apply call = .ok after) :
    ∃ new returnAt, after = m.extend new returnAt ∧ n.apply call = .ok (n.extend new returnAt) := by
  have hrel := insertion_related h hc
  rw [ha] at hrel
  generalize n.apply call = y at hrel ⊢
  cases hrel with
  | ok hab =>
    obtain ⟨new, returnAt, hafter, rfl⟩ := hab
    exact ⟨new, returnAt, hafter, rfl⟩

end Graphs

/-! ## 6. Putting a replacement off -/

section Postponing

theorem replace_extend {m : Module Op} {position : Nat} (h : position < m.size)
    (ins new : Instruction Op) (returnAt : Option Nat) (op : Op) :
    (m.extend new returnAt).replace position ins op = (m.replace position ins op).extend new returnAt := by
  unfold replace extend push
  rw [List.set_append_left _ _ h]

theorem replace_comm (m : Module Op) {i j : Nat} (h : i ≠ j) (a b : Instruction Op) (op op' : Op) :
    (m.replace i a op).replace j b op' = (m.replace j b op').replace i a op := by
  unfold replace
  rw [List.set_comm _ _ h]

variable [Signature Op] {m : Module Op} {position : Nat}

/-- The answer to a replacement follows from the instruction that is there and from what the operator infers
    over its operands. -/
theorem answer_replacement {ins : Instruction Op} (hi : m.instruction? position = some ins) {old : Op}
    (hk : ins.kind = .operation old) (op : Op) :
    m.answer (.replacement position op) =
      m.infer op ins.inputs >>= fun shape =>
        if shape ≠ ins.shape then
          failIn (Signature.name op) (.replacementShape position shape ins.shape)
        else .ok position := by
  show (m.replaceOperation position op).map (fun _ => position) = _
  rw [replaceOperation_of_operation hi hk]
  cases m.infer op ins.inputs with
  | error f => rfl
  | ok shape =>
    show Except.map _ (if shape ≠ ins.shape then _ else _) = if shape ≠ ins.shape then _ else _
    split <;> rfl

/-- A replacement with an answer replaces the instruction that is there. -/
theorem step_replacement {op : Op} {k : Nat} (ha : m.answer (.replacement position op) = .ok k)
    {ins : Instruction Op} (hi : m.instruction? position = some ins) :
    m.step (.replacement position op) = m.replace position ins op := by
  cases happly : m.apply (.replacement position op) with
  | error f =>
    rw [answer_of_error happly] at ha
    cases ha
  | ok after =>
    obtain ⟨found, _, hfound, _, _, _, rfl⟩ := (replaceOperation_eq_ok m after position op).mp happly
    rw [hi] at hfound
    cases hfound
    exact step_of_ok happly

/-- **A replacement answers after an insertion what it answers before it**: the instruction, what it reads
    and the shapes of that are the same. -/
theorem WellFormed.answer_after_insertion (hw : m.WellFormed) (h : position < m.size) (op : Op)
    {call : Call Op} (hc : call.inserts = true) :
    (m.step call).answer (.replacement position op) = m.answer (.replacement position op) := by
  cases ha : m.apply call with
  | error f => rw [step_of_error ha]
  | ok after =>
    rw [step_of_ok ha]
    have hafter : after.WellFormed := hw.apply ha
    obtain ⟨new, returnAt, rfl, _⟩ := insertion_of_graph rfl hc ha
    have hi : m.instruction? position = some m.instructions[position] := List.getElem?_eq_getElem h
    have hi' : (m.extend new returnAt).instruction? position = some m.instructions[position] :=
      (instruction?_push_of_lt h new).trans hi
    generalize m.instructions[position] = ins at hi hi'
    have hreadable := hw.readable hi
    have hinfer : (m.extend new returnAt).infer op ins.inputs = m.infer op ins.inputs := by
      unfold infer
      rw [(checkOperands_eq_ok ..).mpr hreadable, (checkOperands_eq_ok ..).mpr (hafter.readable hi')]
      rw [show (m.extend new returnAt).shapesOf ins.inputs = m.shapesOf ins.inputs from
        shapesOf_push hreadable new]
    by_cases hk : ∃ old, ins.kind = .operation old
    · obtain ⟨old, hk⟩ := hk
      rw [answer_replacement hi hk, answer_replacement hi' hk, hinfer]
    · have hne : ∀ old, ins.kind ≠ .operation old := fun old hold => hk ⟨old, hold⟩
      have hfails : m.apply (.replacement position op) = .error _ := replaceOperation_of_ne hi hne op
      have hfails' : (m.extend new returnAt).apply (.replacement position op) = .error _ :=
        replaceOperation_of_ne hi' hne op
      rw [answer_of_error hfails, answer_of_error hfails']

/-- No call takes instructions away. -/
theorem size_le_step (m : Module Op) (call : Call Op) : m.size ≤ (m.step call).size := by
  cases hc : call.inserts with
  | true =>
    cases ha : m.apply call with
    | error f => exact Nat.le_of_eq (congrArg size (step_of_error ha).symm)
    | ok after =>
      obtain ⟨new, returnAt, rfl, _⟩ := insertion_of_graph rfl hc ha
      rw [step_of_ok ha]
      unfold size extend push
      rw [List.length_append]
      omega
  | false =>
    cases call with
    | replacement i op => exact Nat.le_of_eq (size_of_graph (graph_step_replacement m i op).symm)
    | _ => cases hc

/-- A replacement and an insertion can be swapped. -/
theorem WellFormed.swap_insertion (hw : m.WellFormed) (h : position < m.size) (op : Op) {call : Call Op}
    (hc : call.inserts = true) :
    (m.step (.replacement position op)).step call = (m.step call).step (.replacement position op) := by
  have hanswer := hw.answer_after_insertion h op hc
  have hother := (answer_of_graph (graph_step_replacement m position op) call).1
  refine step_comm hanswer hother fun a b ha hb => ?_
  obtain ⟨ins, old, hi, hk, _, _, rfl⟩ := (replaceOperation_eq_ok m a position op).mp ha
  -- the insertion adds to the module what it adds to the one with the other operator
  obtain ⟨new, returnAt, rfl, hnew⟩ := insertion_of_graph (graph_replace hi hk op).symm hc hb
  have hok : (m.extend new returnAt).answer (.replacement position op) = .ok position := by
    rw [← step_of_ok hb, hanswer]
    exact answer_of_ok ha
  rw [step_of_ok hnew, step_replacement hok ((instruction?_push_of_lt h new).trans hi),
    replace_extend h]

/-- Replacements at two positions can be swapped, also in modules that are not well-formed. -/
theorem swap_replacements {other : Nat} (hne : other ≠ position) (op op' : Op) :
    (m.step (.replacement position op)).step (.replacement other op') =
      (m.step (.replacement other op')).step (.replacement position op) := by
  have hanswer := (answer_of_graph (graph_step_replacement m other op') (.replacement position op)).1
  have hother := (answer_of_graph (graph_step_replacement m position op) (.replacement other op')).1
  refine step_comm hanswer hother fun a b ha hb => ?_
  obtain ⟨ins, old, hi, hk, _, _, rfl⟩ := (replaceOperation_eq_ok m a position op).mp ha
  obtain ⟨ins', old', hj, hk', _, _, rfl⟩ := (replaceOperation_eq_ok m b other op').mp hb
  have hok : (m.replace other ins' op').answer (.replacement position op) = .ok position := by
    rw [← step_of_ok hb, hanswer]
    exact answer_of_ok ha
  have hok' : (m.replace position ins op).answer (.replacement other op') = .ok other := by
    rw [← step_of_ok ha, hother]
    exact answer_of_ok hb
  have hfound : (m.replace other ins' op').instruction? position = some ins := by
    rw [instruction?_replace hj, if_neg hne.symm, hi]
  have hfound' : (m.replace position ins op).instruction? other = some ins' := by
    rw [instruction?_replace hi, if_neg hne, hj]
  rw [step_replacement hok hfound, step_replacement hok' hfound', replace_comm m hne.symm]

/-- **A replacement and a call that leaves its operator alone can be swapped**, and the replacement answers
    the same before and after the call. -/
theorem WellFormed.swap (hw : m.WellFormed) (h : position < m.size) (op : Op) {call : Call Op}
    (hc : call.replaces position = false) :
    (m.step call).answer (.replacement position op) = m.answer (.replacement position op) ∧
      (m.step (.replacement position op)).step call = (m.step call).step (.replacement position op) := by
  cases hins : call.inserts with
  | true => exact ⟨hw.answer_after_insertion h op hins, hw.swap_insertion h op hins⟩
  | false =>
    cases call with
    | replacement other op' =>
      exact ⟨(answer_of_graph (graph_step_replacement m other op') (.replacement position op)).1,
        swap_replacements (beq_eq_false_iff_ne.mp hc) op op'⟩
    | _ => cases hins

/-- **A replacement can be put off** past any calls that leave its operator alone. -/
theorem WellFormed.postpone (hw : m.WellFormed) (h : position < m.size) (op : Op)
    {later : List (Call Op)} (hl : ∀ call ∈ later, call.replaces position = false) :
    (m.run later).answer (.replacement position op) = m.answer (.replacement position op) ∧
      (m.step (.replacement position op)).run later =
        (m.run later).step (.replacement position op) := by
  induction later generalizing m with
  | nil => exact ⟨rfl, rfl⟩
  | cons call rest ih =>
    obtain ⟨hfirst, hrest⟩ := List.forall_mem_cons.mp hl
    obtain ⟨hanswer, hswap⟩ := hw.swap h op hfirst
    obtain ⟨hanswers, hrun⟩ := ih (hw.step call) (Nat.lt_of_lt_of_le h (size_le_step m call)) hrest
    refine ⟨hanswers.trans hanswer, ?_⟩
    show ((m.step (.replacement position op)).step call).run rest = _
    rw [hswap, hrun]
    rfl

/-- **A replacement leaves its operator at the position**, with the operands and the shape that were there,
    and everything else as it was. -/
theorem instruction?_of_replacement {after : Module Op} {op : Op}
    (h : m.apply (.replacement position op) = .ok after) :
    ∃ ins, m.instruction? position = some ins ∧ ∀ i, after.instruction? i =
      if i = position then some { ins with kind := .operation op } else m.instruction? i := by
  obtain ⟨ins, _, hi, _, _, _, rfl⟩ := (replaceOperation_eq_ok m after position op).mp h
  exact ⟨ins, hi, instruction?_replace hi op⟩

/-- **Of two replacements at one position only the last is seen.** -/
theorem apply_replacement_twice {after last : Module Op} {op op' : Op}
    (h : m.apply (.replacement position op) = .ok after)
    (h' : after.apply (.replacement position op') = .ok last) :
    m.apply (.replacement position op') = .ok last := by
  obtain ⟨ins, old, hi, hk, hr, _, rfl⟩ := (replaceOperation_eq_ok m after position op).mp h
  obtain ⟨ins', _, hi', _, _, hs', rfl⟩ := (replaceOperation_eq_ok _ last position op').mp h'
  rw [instruction?_replace hi, if_pos rfl] at hi'
  cases hi'
  rw [shapesOf_replace hi] at hs'
  refine (replaceOperation_eq_ok m _ position op').mpr ⟨ins, old, hi, hk, hr, hs', ?_⟩
  unfold replace
  rw [List.set_set]

end Postponing

/-! ## 7. Modules that are built by calls -/

/-- **When an operator is replaced does not matter.** Take any module that is built by calls, and a
    replacement, good or bad, at a position at which there is an instruction.

    * It can be put off past any later calls, insertions or returns or replacements elsewhere: it answers
      after them what it answers before them, and the module comes out the same.
    * A second replacement at the position that succeeds comes to what it would have come to alone: its
      operator is the one that is found there, over the operands and with the shape that were there before
      both, and at every other position is what was there before both.
    * Whatever calls are made later, also at the position, each of them answers what it would answer without
      the replacement, and the module comes out with the same graph: the same instructions over the same
      operands, with the same shapes, but for the operators. -/
theorem replacements_commute [Signature Op] (name : String) (calls : List (Call Op)) (position : Nat)
    (op : Op) :
    let m := (Module.new name).run calls
    let replaced := m.step (.replacement position op)
    (position < m.size → ∀ later : List (Call Op), (∀ call ∈ later, call.replaces position = false) →
      (m.run later).answer (.replacement position op) = m.answer (.replacement position op) ∧
        replaced.run later = (m.run later).step (.replacement position op)) ∧
    (∀ op' after last, m.apply (.replacement position op) = .ok after →
      after.apply (.replacement position op') = .ok last →
        m.apply (.replacement position op') = .ok last ∧
        ∃ ins, m.instruction? position = some ins ∧ ∀ i, last.instruction? i =
          if i = position then some { ins with kind := .operation op' } else m.instruction? i) ∧
    ∀ later : List (Call Op),
      replaced.answers later = m.answers later ∧ (replaced.run later).graph = (m.run later).graph := by
  intro m replaced
  have hw : m.WellFormed := wellFormed_run name calls
  refine ⟨fun h later hl => hw.postpone h op hl, fun op' after last h h' => ?_,
    answers_of_graph (graph_step_replacement m position op)⟩
  have halone := apply_replacement_twice h h'
  exact ⟨halone, instruction?_of_replacement halone⟩

/-- An activation can become another one before a sum over it is added and returned, or after. Either way the
    calls answer with the positions 1, 2 and 3. A second replacement comes to what it comes to alone, and its
    operator is the one that is found. -/
theorem activation_replaced_early_or_late :
    let m : Module Operation := (Module.new "main").run
      [.parameter "x" (.standard .f32 [2]), .instruction (.catalog (.activation .relu)) [0]]
    let early := m.step (.replacement 1 (.catalog (.activation .elu)))
    let later : List (Call Operation) :=
      [.instruction (.catalog (.binary ⟨.add, none⟩)) [0, 1], .result [2]]
    1 < m.size ∧ (∀ call ∈ later, call.replaces 1 = false) ∧
      m.answer (.replacement 1 (.catalog (.activation .elu))) = .ok 1 ∧
      (m.run later).answer (.replacement 1 (.catalog (.activation .elu))) = .ok 1 ∧
      early.answers later = [.ok 2, .ok 3] ∧
      early.run later = (m.run later).step (.replacement 1 (.catalog (.activation .elu))) ∧
      early.step (.replacement 1 (.catalog (.unary .neg))) =
        m.step (.replacement 1 (.catalog (.unary .neg))) ∧
      (early.step (.replacement 1 (.catalog (.unary .neg)))).instruction? 1 =
        some ⟨.operation (.catalog (.unary .neg)), [0], .standard .f32 [2]⟩ := by
  intro m early later
  have hlater : ∀ call ∈ later, call.replaces 1 = false :=
    List.forall_mem_cons.mpr ⟨rfl, List.forall_mem_singleton.mpr rfl⟩
  obtain ⟨hlate, htwice, hanswers⟩ := replacements_commute "main"
    [.parameter "x" (.standard .f32 [2]), .instruction (.catalog (.activation .relu)) [0]] 1
    (.catalog (.activation .elu) : Operation)
  obtain ⟨hanswer, hrun⟩ := hlate (by decide) later hlater
  obtain ⟨halone, ins, hins, hfound⟩ := htwice (.catalog (.unary .neg)) early _ rfl rfl
  cases hins
  exact ⟨by decide, hlater, rfl, hanswer, (hanswers later).1.trans rfl, hrun, (step_of_ok halone).symm,
    hfound 1⟩

end Module

end TensorGraph
