import TensorGraph.Module.Building
import TensorGraph.Proofs.Outcome

/-!
# The invariant of modules

`Module.run` is what a module becomes by any calls, those that fail included: a call that fails
leaves the module as it was. Whatever the calls, a module that began empty stays well-formed:

* `Module.WellFormed` -- operands are earlier instructions and never the return; the return is the
  last instruction and the one that seals; parameters have names of their own; and every instruction
  has the shape that follows from what it is and from the shapes of what it reads (`Module.Shaped`);
* `addParameter_eq_ok`, `addLiteral_eq_ok`, `addInstruction_eq_ok`, `addReturn_eq_ok`,
  `replaceOperation_eq_ok` -- when a call succeeds, and the module after it;
* `WellFormed.push`, `WellFormed.replace` -- the two ways in which a module changes keep it
  well-formed, hence `WellFormed.step` and `wellFormed_run`.

A replaced operator keeps the shapes of all instructions (`shapesOf_replace`), and that is what keeps
the shapes right of those that read the instruction.
-/

namespace TensorGraph.Module

variable {Op : Type}

/-! ## 1. Histories -/

/-- The module after a call that may fail. -/
def step [Signature Op] (m : Module Op) (call : Call Op) : Module Op :=
  match m.apply call with
  | .ok after => after
  | .error _ => m

/-- The module after calls that may fail, one after the other. -/
def run [Signature Op] (m : Module Op) : List (Call Op) → Module Op
  | [] => m
  | call :: rest => (m.step call).run rest

/-! ## 2. Well-formed modules -/

/-- The instructions at the positions can be read: they are there, and none is the return. -/
def Readable (m : Module Op) (inputs : List Nat) : Prop :=
  ∀ i ∈ inputs, i < m.size ∧ m.returnAt ≠ some i

/-- The shape of an instruction is the one that follows from what it is and what it reads. -/
def Shaped [Signature Op] (m : Module Op) (ins : Instruction Op) : Prop :=
  match ins.kind with
  | .parameter _ => True
  | .literal value => value.hasData = true ∧ ins.shape = value.shape
  | .operation op => Signature.infer op (m.shapesOf ins.inputs) = .ok ins.shape
  | .result => ins.shape = m.returnShape ins.inputs

/-- What holds of every module that is built by calls. -/
structure WellFormed [Signature Op] (m : Module Op) : Prop where
  /-- Operands are earlier instructions, and none of them is the return. -/
  reads : ∀ position ins, m.instruction? position = some ins →
    ∀ i ∈ ins.inputs, i < position ∧ m.returnAt ≠ some i
  /-- The module knows its return instruction, and there is no other. -/
  sealed : ∀ position, m.returnAt = some position ↔
    ∃ ins, m.instruction? position = some ins ∧ ins.kind = .result
  /-- The return instruction is the last one. -/
  last : ∀ position, m.returnAt = some position → position + 1 = m.size
  distinct : (m.parameters.map Prod.fst).Nodup
  shaped : ∀ ins ∈ m.instructions, m.Shaped ins

/-- An instruction that is read is no return. -/
theorem WellFormed.not_result_of_read [Signature Op] {m : Module Op} (h : m.WellFormed)
    {position i : Nat} {reader ins : Instruction Op} (hr : m.instruction? position = some reader)
    (hi : i ∈ reader.inputs) (hf : m.instruction? i = some ins) : ins.kind ≠ .result := by
  intro hk
  have hreturn : m.returnAt = some i := (h.sealed i).mpr ⟨ins, hf, hk⟩
  exact (h.reads position reader hr i hi).2 hreturn

/-- What an instruction reads can be read. -/
theorem WellFormed.readable [Signature Op] {m : Module Op} (h : m.WellFormed) {position : Nat}
    {ins : Instruction Op} (hi : m.instruction? position = some ins) : m.Readable ins.inputs := by
  intro i hin
  obtain ⟨hearlier, hreturn⟩ := h.reads position ins hi i hin
  exact ⟨Nat.lt_trans hearlier (List.getElem?_eq_some_iff.mp hi).1, hreturn⟩

/-- A constant of a well-formed module has data, and its instruction has its shape. -/
theorem WellFormed.literal [Signature Op] {m : Module Op} (h : m.WellFormed) {ins : Instruction Op}
    (hi : ins ∈ m.instructions) {value : Tensor} (hk : ins.kind = .literal value) :
    value.hasData = true ∧ ins.shape = value.shape := by
  have hshaped := h.shaped ins hi
  rw [Shaped, hk] at hshaped
  exact hshaped

/-- The shape of an operation of a well-formed module is what it infers. -/
theorem WellFormed.infer_eq [Signature Op] {m : Module Op} (h : m.WellFormed) {ins : Instruction Op}
    (hi : ins ∈ m.instructions) {op : Op} (hk : ins.kind = .operation op) :
    Signature.infer op (m.shapesOf ins.inputs) = .ok ins.shape := by
  have hshaped := h.shaped ins hi
  rw [Shaped, hk] at hshaped
  exact hshaped

/-! ## 3. What the checks say -/

theorem checkOpen_eq_ok (m : Module Op) : m.checkOpen = .ok () ↔ m.returnAt = none := by
  unfold checkOpen
  cases m.returnAt <;> simp

theorem checkOperands_eq_ok (m : Module Op) (inputs : List Nat) :
    m.checkOperands inputs = .ok () ↔ m.Readable inputs := by
  induction inputs with
  | nil => simp [checkOperands, Readable]
  | cons i rest ih =>
    have hcons : m.Readable (i :: rest) ↔ (i < m.size ∧ m.returnAt ≠ some i) ∧ m.Readable rest :=
      List.forall_mem_cons
    rw [hcons, checkOperands, unknown, Outcome.check_eq_ok, Outcome.check_eq_ok, ih, Nat.not_le,
      and_assoc]

/-- Whether a module is open is seen from where its return is, and said with its name. -/
theorem checkOpen_congr {m n : Module Op} (hname : m.name = n.name) (hreturn : m.returnAt = n.returnAt) :
    m.checkOpen = n.checkOpen := by
  unfold checkOpen
  rw [hname, hreturn]

/-- Whether instructions can be read is seen from the size of a module and the place of its return. -/
theorem checkOperands_congr {m n : Module Op} (hsize : m.size = n.size) (hname : m.name = n.name)
    (hreturn : m.returnAt = n.returnAt) (inputs : List Nat) :
    m.checkOperands inputs = n.checkOperands inputs := by
  induction inputs with
  | nil => rfl
  | cons i rest ih =>
    unfold checkOperands unknown
    rw [hsize, hname, hreturn, ih]

theorem infer_eq_ok [Signature Op] (m : Module Op) (op : Op) (inputs : List Nat) (shape : Shape) :
    m.infer op inputs = .ok shape ↔
      m.Readable inputs ∧ Signature.infer op (m.shapesOf inputs) = .ok shape := by
  unfold infer
  rw [Outcome.bind_eq_ok]
  constructor
  · intro h
    obtain ⟨_, h, h'⟩ := h
    exact ⟨(m.checkOperands_eq_ok inputs).mp h, Outcome.withOperator_eq_ok.mp h'⟩
  · intro h
    obtain ⟨h, h'⟩ := h
    exact ⟨(), (m.checkOperands_eq_ok inputs).mpr h, Outcome.withOperator_eq_ok.mpr h'⟩

/-! ## 4. What a successful call does -/

theorem addParameter_eq_ok (m after : Module Op) (name : String) (shape : Shape) :
    m.addParameter name shape = .ok after ↔
      m.returnAt = none ∧ m.parameterShape? name = none ∧
        after = m.push ⟨.parameter name, [], shape⟩ := by
  unfold addParameter
  simp only [Outcome.then_eq_ok, checkOpen_eq_ok, Outcome.fail_bind, Outcome.check_eq_ok,
    Outcome.pure_eq_ok, Option.isSome_iff_ne_none, ne_eq, Decidable.not_not]

theorem addLiteral_eq_ok (m after : Module Op) (value : Tensor) :
    m.addLiteral value = .ok after ↔
      m.returnAt = none ∧ value.hasData = true ∧
        after = m.push ⟨.literal value, [], value.shape⟩ := by
  unfold addLiteral
  simp only [Outcome.then_eq_ok, checkOpen_eq_ok, Outcome.fail_bind, Outcome.check_eq_ok,
    Outcome.pure_eq_ok, Bool.not_eq_true', Bool.not_eq_false]

theorem addInstruction_eq_ok [Signature Op] (m after : Module Op) (op : Op) (inputs : List Nat) :
    m.addInstruction op inputs = .ok after ↔
      m.returnAt = none ∧ m.Readable inputs ∧ ∃ shape,
        Signature.infer op (m.shapesOf inputs) = .ok shape ∧
          after = m.push ⟨.operation op, inputs, shape⟩ := by
  unfold addInstruction
  rw [Outcome.then_eq_ok, checkOpen_eq_ok, Outcome.bind_eq_ok]
  simp only [infer_eq_ok, Outcome.pure_eq_ok, and_assoc, exists_and_left]

theorem addReturn_eq_ok (m after : Module Op) (outputs : List Nat) :
    m.addReturn outputs = .ok after ↔
      m.returnAt = none ∧ m.Readable outputs ∧
        after = { m.push ⟨.result, outputs, m.returnShape outputs⟩ with returnAt := some m.size } := by
  unfold addReturn
  simp only [Outcome.then_eq_ok, checkOpen_eq_ok, checkOperands_eq_ok, Outcome.pure_eq_ok]

/-- The module with another operator at a position. -/
def replace (m : Module Op) (position : Nat) (ins : Instruction Op) (op : Op) : Module Op :=
  { m with instructions := m.instructions.set position { ins with kind := .operation op } }

theorem replaceOperation_eq_ok [Signature Op] (m after : Module Op) (position : Nat) (op : Op) :
    m.replaceOperation position op = .ok after ↔
      ∃ ins old, m.instruction? position = some ins ∧ ins.kind = .operation old ∧
        m.Readable ins.inputs ∧ Signature.infer op (m.shapesOf ins.inputs) = .ok ins.shape ∧
        after = m.replace position ins op := by
  unfold replaceOperation
  cases hi : m.instruction? position with
  | none => simp [unknown]
  | some ins =>
    cases hk : ins.kind with
    | operation old =>
      simp only [hk]
      rw [Outcome.bind_eq_ok]
      simp only [infer_eq_ok, Outcome.failIn_bind, Outcome.checkIn_eq_ok, Outcome.pure_eq_ok, ne_eq,
        Decidable.not_not]
      constructor
      · intro h
        obtain ⟨shape, ⟨hr, hs⟩, rfl, rfl⟩ := h
        exact ⟨ins, old, rfl, hk, hr, hs, rfl⟩
      · intro h
        obtain ⟨_, _, h, _, hr, hs, rfl⟩ := h
        cases h
        exact ⟨ins.shape, ⟨hr, hs⟩, rfl, rfl⟩
    | parameter name => simp [hk]
    | literal value => simp [hk]
    | result => simp [hk]

/-! ## 5. Growing by an instruction -/

theorem instruction?_push_eq_some {m : Module Op} {ins found : Instruction Op} {position : Nat} :
    (m.push ins).instruction? position = some found ↔
      position < m.size ∧ m.instruction? position = some found ∨
        position = m.size ∧ found = ins := by
  unfold instruction? push size
  rw [List.getElem?_append]
  by_cases h : position < m.instructions.length
  · rw [if_pos h]
    constructor
    · intro hf; exact Or.inl ⟨h, hf⟩
    · intro h
      rcases h with ⟨_, hf⟩ | ⟨rfl, _⟩
      · exact hf
      · omega
  · rw [if_neg h, List.getElem?_singleton]
    by_cases he : position = m.instructions.length
    · simp [he, eq_comm]
    · rw [if_neg (by omega)]
      simp [h, he]

theorem instruction?_push_of_lt {m : Module Op} {position : Nat} (h : position < m.size)
    (ins : Instruction Op) : (m.push ins).instruction? position = m.instruction? position :=
  List.getElem?_append_left h

/-- Shapes agree on what has the same shapes in both modules. -/
theorem shapesOf_congr {m m' : Module Op} {inputs : List Nat}
    (h : ∀ i ∈ inputs, (m.instruction? i).map Instruction.shape =
      (m'.instruction? i).map Instruction.shape) : m.shapesOf inputs = m'.shapesOf inputs := by
  unfold shapesOf
  induction inputs with
  | nil => rfl
  | cons i rest ih =>
    have hrest := ih fun k hk => h k (List.mem_cons_of_mem i hk)
    rw [List.filterMap_cons, List.filterMap_cons, h i List.mem_cons_self, hrest]

/-- What can be read keeps its shapes when the module grows. -/
theorem shapesOf_push {m : Module Op} {inputs : List Nat} (hr : m.Readable inputs)
    (ins : Instruction Op) : (m.push ins).shapesOf inputs = m.shapesOf inputs := by
  refine shapesOf_congr fun i hi => ?_
  rw [instruction?_push_of_lt (hr i hi).1]

theorem Shaped.push [Signature Op] {m : Module Op} {ins : Instruction Op} (hs : m.Shaped ins)
    (hr : m.Readable ins.inputs) (new : Instruction Op) : (m.push new).Shaped ins := by
  unfold Shaped returnShape at hs ⊢
  rw [shapesOf_push hr]
  exact hs

/-- What an instruction declares is among the parameters. -/
theorem mem_parameters {m : Module Op} {ins : Instruction Op} (hi : ins ∈ m.instructions) {name : String}
    (hk : ins.kind = .parameter name) : (name, ins.shape) ∈ m.parameters :=
  List.mem_filterMap.mpr ⟨ins, hi, by rw [hk]; rfl⟩

theorem parameters_push (m : Module Op) (ins : Instruction Op) :
    (m.push ins).parameters =
      m.parameters ++ (ins.kind.parameterName?.map fun name => (name, ins.shape)).toList := by
  unfold parameters push
  rw [List.filterMap_append]
  cases h : ins.kind.parameterName? <;> simp [h]

theorem parameterShape?_eq_none (m : Module Op) (name : String) :
    m.parameterShape? name = none ↔ name ∉ m.parameters.map Prod.fst := by
  unfold parameterShape?
  rw [List.lookup_eq_none_iff, List.mem_map, not_exists]
  refine forall_congr' fun p => ?_
  rw [bne_iff_ne, not_and]
  exact ⟨fun h hp e => h hp e.symm, fun h hp e => h hp e.symm⟩

theorem distinct_push {m : Module Op} (h : (m.parameters.map Prod.fst).Nodup)
    {ins : Instruction Op}
    (hn : ∀ name, ins.kind = .parameter name → m.parameterShape? name = none) :
    ((m.push ins).parameters.map Prod.fst).Nodup := by
  rw [parameters_push, List.map_append, List.nodup_append]
  refine ⟨h, ?_, ?_⟩
  · cases ins.kind.parameterName? <;> simp
  · intro name hm other ho e
    subst e
    cases hk : ins.kind with
    | parameter fresh =>
      rw [hk] at ho
      have hfresh : name = fresh := by simpa [InstructionKind.parameterName?] using ho
      subst hfresh
      exact (m.parameterShape?_eq_none name).mp (hn name hk) hm
    | literal value => simp [hk, InstructionKind.parameterName?] at ho
    | operation op => simp [hk, InstructionKind.parameterName?] at ho
    | result => simp [hk, InstructionKind.parameterName?] at ho

/-- **A module that grows by an instruction stays well-formed**, if the instruction reads what can
    be read, has its shape, and brings no parameter name a second time. A result seals. -/
theorem WellFormed.grow [Signature Op] {m : Module Op} (h : m.WellFormed) (hopen : m.returnAt = none)
    {ins : Instruction Op} (hr : m.Readable ins.inputs) (hs : m.Shaped ins)
    (hn : ∀ name, ins.kind = .parameter name → m.parameterShape? name = none)
    {returnAt : Option Nat}
    (hret : ∀ position, returnAt = some position ↔ ins.kind = .result ∧ position = m.size) :
    WellFormed { m.push ins with returnAt } where
  reads position found hf i hi := by
    have hbound : i < position ∧ i < m.size := by
      rcases instruction?_push_eq_some.mp hf with ⟨hp, ho⟩ | ⟨rfl, rfl⟩
      · have hlt := (h.reads position found ho i hi).1
        exact ⟨hlt, Nat.lt_trans hlt hp⟩
      · exact ⟨(hr i hi).1, (hr i hi).1⟩
    refine ⟨hbound.1, fun he => ?_⟩
    have hnew : i = m.size := ((hret i).mp he).2
    omega
  sealed position := by
    rw [hret]
    constructor
    · intro h
      obtain ⟨hk, rfl⟩ := h
      exact ⟨ins, instruction?_push_eq_some.mpr (Or.inr ⟨rfl, rfl⟩), hk⟩
    · intro h
      obtain ⟨found, hf, hk⟩ := h
      rcases instruction?_push_eq_some.mp hf with ⟨_, ho⟩ | ⟨rfl, rfl⟩
      · have hreturn : m.returnAt = some position := (h.sealed position).mpr ⟨found, ho, hk⟩
        rw [hopen] at hreturn
        cases hreturn
      · exact ⟨hk, rfl⟩
  last position he := by
    obtain ⟨_, rfl⟩ := (hret position).mp he
    simp [push, size]
  distinct := distinct_push h.distinct hn
  shaped found hf := by
    obtain ⟨position, hp⟩ := List.mem_iff_getElem?.mp hf
    show (m.push ins).Shaped found
    rcases instruction?_push_eq_some.mp hp with ⟨_, ho⟩ | ⟨_, rfl⟩
    · exact (h.shaped found (List.mem_of_getElem? ho)).push (h.readable ho) ins
    · exact hs.push hr _

/-- The case of an instruction that is no result. -/
theorem WellFormed.push [Signature Op] {m : Module Op} (h : m.WellFormed) (hopen : m.returnAt = none)
    {ins : Instruction Op} (hr : m.Readable ins.inputs) (hs : m.Shaped ins)
    (hn : ∀ name, ins.kind = .parameter name → m.parameterShape? name = none)
    (hk : ins.kind ≠ .result) : (m.push ins).WellFormed := by
  refine h.grow hopen hr hs hn fun position => ?_
  show m.returnAt = some position ↔ _
  rw [hopen]
  exact ⟨nofun, fun he => absurd he.1 hk⟩

/-! ## 6. Replacing an operator -/

/-- Setting what looks the same through `f` is not seen through `f`. -/
theorem map_set_of_same {α β : Type} {l : List α} {position : Nat} {a b : α} {f : α → β}
    (ha : l[position]? = some a) (hf : f b = f a) : (l.set position b).map f = l.map f := by
  obtain ⟨hlt, rfl⟩ := List.getElem?_eq_some_iff.mp ha
  rw [List.map_set, hf, ← List.getElem_map f (h := by simpa using hlt), List.set_getElem_self]

section Replacing

variable {m : Module Op} {position : Nat} {ins : Instruction Op} {old op : Op}

theorem instruction?_replace (hi : m.instruction? position = some ins) (op : Op) (i : Nat) :
    (m.replace position ins op).instruction? i =
      if i = position then some { ins with kind := .operation op } else m.instruction? i := by
  unfold instruction? replace at *
  have hlt := (List.getElem?_eq_some_iff.mp hi).1
  rw [List.getElem?_set]
  by_cases h : position = i
  · rw [if_pos h, if_pos h.symm, if_pos hlt]
  · rw [if_neg h, if_neg (Ne.symm h)]

/-- **Replacing an operator changes no shape.** -/
theorem shapesOf_replace (hi : m.instruction? position = some ins) (inputs : List Nat) :
    (m.replace position ins op).shapesOf inputs = m.shapesOf inputs := by
  refine shapesOf_congr fun i _ => ?_
  rw [instruction?_replace hi]
  by_cases h : i = position
  · rw [if_pos h, h, hi]; rfl
  · rw [if_neg h]

theorem parameters_replace (hi : m.instruction? position = some ins)
    (hk : ins.kind = .operation old) : (m.replace position ins op).parameters = m.parameters := by
  have hsame := map_set_of_same (a := ins) (b := { ins with kind := .operation op })
    (f := fun ins => ins.kind.parameterName?.map fun name => (name, ins.shape)) hi (by rw [hk]; rfl)
  have hid : ∀ l : List (Instruction Op), l.filterMap
      (fun ins => ins.kind.parameterName?.map fun name => (name, ins.shape)) =
      (l.map fun ins => ins.kind.parameterName?.map fun name => (name, ins.shape)).filterMap id :=
    fun l => by rw [List.filterMap_map]; rfl
  unfold parameters replace
  rw [hid, hsame, ← hid]

/-- **A module in which an operator is replaced by one that infers the same shape stays
    well-formed.** -/
theorem WellFormed.replace [Signature Op] (h : m.WellFormed)
    (hi : m.instruction? position = some ins) (hk : ins.kind = .operation old)
    (hs : Signature.infer op (m.shapesOf ins.inputs) = .ok ins.shape) :
    (m.replace position ins op).WellFormed where
  reads i found hf := by
    rw [instruction?_replace hi] at hf
    by_cases hp : i = position
    · rw [if_pos hp] at hf
      cases hf
      exact hp ▸ h.reads position ins hi
    · rw [if_neg hp] at hf
      exact h.reads i found hf
  sealed i := by
    show m.returnAt = some i ↔ _
    rw [h.sealed i, instruction?_replace hi]
    by_cases hp : i = position
    · subst hp
      simp [hi, hk]
    · rw [if_neg hp]
  last i he := by
    have hlast : i + 1 = m.size := h.last i he
    simpa [Module.replace, size] using hlast
  distinct := by
    rw [parameters_replace hi hk]
    exact h.distinct
  shaped found hf := by
    obtain ⟨i, hp⟩ := List.mem_iff_getElem?.mp hf
    have hfound : (m.replace position ins op).instruction? i = some found := hp
    have hkeep : m.Shaped found → (m.replace position ins op).Shaped found := by
      unfold Shaped returnShape
      rw [shapesOf_replace hi]
      exact id
    apply hkeep
    rw [instruction?_replace hi] at hfound
    by_cases hq : i = position
    · rw [if_pos hq] at hfound
      cases hfound
      exact hs
    · rw [if_neg hq] at hfound
      exact h.shaped found (List.mem_of_getElem? hfound)

end Replacing

/-! ## 7. Every history -/

section Histories

variable [Signature Op]

theorem wellFormed_new (name : String) : (Module.new name : Module Op).WellFormed where
  reads _ _ hf := nomatch hf
  sealed _ := ⟨nofun, fun ⟨_, hf, _⟩ => nomatch hf⟩
  last _ he := nomatch he
  distinct := List.nodup_nil
  shaped _ hf := nomatch hf

/-- **A successful call keeps a module well-formed.** -/
theorem WellFormed.apply {m after : Module Op} (h : m.WellFormed) {call : Call Op}
    (ha : m.apply call = .ok after) : after.WellFormed := by
  have hnil : m.Readable [] := fun _ hi => nomatch hi
  cases call with
  | parameter name shape =>
    obtain ⟨hopen, hfree, rfl⟩ := (addParameter_eq_ok m after name shape).mp ha
    refine h.push hopen hnil trivial (fun other hk => ?_) nofun
    cases hk
    exact hfree
  | literal value =>
    obtain ⟨hopen, hdata, rfl⟩ := (addLiteral_eq_ok m after value).mp ha
    exact h.push hopen hnil ⟨hdata, rfl⟩ nofun nofun
  | instruction op inputs =>
    obtain ⟨hopen, hr, shape, hs, rfl⟩ := (addInstruction_eq_ok m after op inputs).mp ha
    exact h.push hopen hr hs nofun nofun
  | result outputs =>
    obtain ⟨hopen, hr, rfl⟩ := (addReturn_eq_ok m after outputs).mp ha
    have hs : m.Shaped ⟨.result, outputs, m.returnShape outputs⟩ := rfl
    refine h.grow hopen hr hs nofun fun position => ?_
    simp [eq_comm]
  | replacement position op =>
    obtain ⟨ins, old, hi, hk, _, hs, rfl⟩ := (replaceOperation_eq_ok m after position op).mp ha
    exact h.replace hi hk hs

theorem step_of_ok {m after : Module Op} {call : Call Op} (h : m.apply call = .ok after) :
    m.step call = after := by
  unfold step
  rw [h]

theorem step_of_error {m : Module Op} {call : Call Op} {f : Failure} (h : m.apply call = .error f) :
    m.step call = m := by
  unfold step
  rw [h]

theorem WellFormed.step {m : Module Op} (h : m.WellFormed) (call : Call Op) :
    (m.step call).WellFormed := by
  unfold Module.step
  cases ha : m.apply call with
  | error f => exact h
  | ok after => exact h.apply ha

theorem WellFormed.run {m : Module Op} (h : m.WellFormed) (calls : List (Call Op)) :
    (m.run calls).WellFormed := by
  induction calls generalizing m with
  | nil => exact h
  | cons call rest ih => exact ih (h.step call)

/-- **Every module that is built by calls is well-formed.** -/
theorem wellFormed_run (name : String) (calls : List (Call Op)) :
    ((Module.new name).run calls).WellFormed :=
  (wellFormed_new name).run calls

/-- **No call changes the name of a module.** -/
theorem name_step (m : Module Op) (call : Call Op) : (m.step call).name = m.name := by
  unfold step
  cases ha : m.apply call with
  | error f => rfl
  | ok after =>
    dsimp only
    cases call with
    | parameter name shape =>
      obtain ⟨_, _, rfl⟩ := (addParameter_eq_ok m after name shape).mp ha
      rfl
    | literal value =>
      obtain ⟨_, _, rfl⟩ := (addLiteral_eq_ok m after value).mp ha
      rfl
    | instruction op inputs =>
      obtain ⟨_, _, _, _, rfl⟩ := (addInstruction_eq_ok m after op inputs).mp ha
      rfl
    | result outputs =>
      obtain ⟨_, _, rfl⟩ := (addReturn_eq_ok m after outputs).mp ha
      rfl
    | replacement position op =>
      obtain ⟨_, _, _, _, _, _, rfl⟩ := (replaceOperation_eq_ok m after position op).mp ha
      rfl

/-- What the instruction is that a call adds or changes. -/
def kindOf : Call Op → InstructionKind Op
  | .parameter name _ => .parameter name
  | .literal value => .literal value
  | .instruction op _ => .operation op
  | .result _ => .result
  | .replacement _ op => .operation op

/-- An instruction after a call is what it was before, or comes of the call. -/
theorem kind_of_step {m : Module Op} {call : Call Op} {ins : Instruction Op}
    (h : ins ∈ (m.step call).instructions) :
    (∃ old ∈ m.instructions, ins.kind = old.kind) ∨ ins.kind = kindOf call := by
  have hpush : ∀ new : Instruction Op, ins ∈ (m.push new).instructions → new.kind = kindOf call →
      (∃ old ∈ m.instructions, ins.kind = old.kind) ∨ ins.kind = kindOf call := by
    intro new hm hk
    rcases List.mem_append.mp hm with hold | hnew
    · exact Or.inl ⟨ins, hold, rfl⟩
    · rw [List.mem_singleton.mp hnew]
      exact Or.inr hk
  unfold Module.step at h
  cases ha : m.apply call with
  | error f =>
    rw [ha] at h
    exact Or.inl ⟨ins, h, rfl⟩
  | ok after =>
    rw [ha] at h
    cases call with
    | parameter name shape =>
      obtain ⟨_, _, rfl⟩ := (addParameter_eq_ok m after name shape).mp ha
      exact hpush _ h rfl
    | literal value =>
      obtain ⟨_, _, rfl⟩ := (addLiteral_eq_ok m after value).mp ha
      exact hpush _ h rfl
    | instruction op inputs =>
      obtain ⟨_, _, _, _, rfl⟩ := (addInstruction_eq_ok m after op inputs).mp ha
      exact hpush _ h rfl
    | result outputs =>
      obtain ⟨_, _, rfl⟩ := (addReturn_eq_ok m after outputs).mp ha
      exact hpush _ h rfl
    | replacement position op =>
      obtain ⟨old, _, _, _, _, _, rfl⟩ := (replaceOperation_eq_ok m after position op).mp ha
      rcases List.mem_or_eq_of_mem_set h with hold | hnew
      · exact Or.inl ⟨ins, hold, rfl⟩
      · rw [hnew]
        exact Or.inr rfl

/-- **Every instruction comes of a call.** -/
theorem kind_of_run {name : String} {calls : List (Call Op)} {ins : Instruction Op}
    (h : ins ∈ ((Module.new name).run calls).instructions) : ∃ call ∈ calls, ins.kind = kindOf call := by
  have hall : ∀ (m : Module Op) (calls : List (Call Op)) ins, ins ∈ (m.run calls).instructions →
      (∃ old ∈ m.instructions, ins.kind = old.kind) ∨ ∃ call ∈ calls, ins.kind = kindOf call := by
    intro m calls
    induction calls generalizing m with
    | nil => exact fun ins hm => Or.inl ⟨ins, hm, rfl⟩
    | cons call rest ih =>
      intro ins hm
      rcases ih (m.step call) ins hm with ⟨old, hold, hk⟩ | ⟨later, hlater, hk⟩
      · rcases kind_of_step hold with ⟨older, holder, hk'⟩ | hk'
        · exact Or.inl ⟨older, holder, hk.trans hk'⟩
        · exact Or.inr ⟨call, List.mem_cons_self, hk.trans hk'⟩
      · exact Or.inr ⟨later, List.mem_cons_of_mem _ hlater, hk⟩
  rcases hall _ calls ins h with ⟨_, hold, _⟩ | hcall
  · cases hold
  · exact hcall

/-- Every constant was put in by a call. -/
theorem literal_mem_of_run {name : String} {calls : List (Call Op)} {ins : Instruction Op} {v : Tensor}
    (h : ins ∈ ((Module.new name).run calls).instructions) (hv : ins.kind = .literal v) :
    Call.literal v ∈ calls := by
  obtain ⟨call, hcall, hkind⟩ := kind_of_run h
  rw [hv] at hkind
  -- of all calls only one that adds a constant makes a constant
  cases call with
  | literal value =>
    cases hkind
    exact hcall
  | parameter name shape => cases hkind
  | instruction op inputs => cases hkind
  | result outputs => cases hkind
  | replacement position op => cases hkind

end Histories

/-! ## 8. Completeness -/

theorem checkReads_eq_ok (m : Module Op) (reader : Nat) (inputs : List Nat) :
    m.checkReads reader inputs = .ok () ↔ ∀ i ∈ inputs, i < reader ∧ m.returnAt ≠ some i := by
  induction inputs with
  | nil => simp [checkReads]
  | cons i rest ih =>
    rw [checkReads, Outcome.check_eq_ok, ih, List.forall_mem_cons, not_or, Nat.not_le]

theorem checkOrder_eq_ok (m : Module Op) (position : Nat) (instructions : List (Instruction Op)) :
    m.checkOrder position instructions = .ok () ↔
      ∀ k ins, instructions[k]? = some ins →
        ∀ i ∈ ins.inputs, i < position + k ∧ m.returnAt ≠ some i := by
  induction instructions generalizing position with
  | nil => simp [checkOrder]
  | cons ins rest ih =>
    rw [checkOrder, Outcome.then_eq_ok, checkReads_eq_ok, ih]
    constructor
    · intro h k found hf
      obtain ⟨hfirst, hrest⟩ := h
      cases k with
      | zero => cases hf; exact hfirst
      | succ k =>
        have hlater := hrest k found hf
        rwa [Nat.add_right_comm, Nat.add_assoc] at hlater
    · intro h
      refine ⟨h 0 ins rfl, fun k found hf => ?_⟩
      rw [Nat.add_right_comm, Nat.add_assoc]
      exact h (k + 1) found hf

/-- A complete module has a return. -/
theorem returnAt_ne_none_of_validate {m : Module Op} (h : m.validate = .ok ()) :
    m.returnAt ≠ none := by
  intro hr
  unfold validate at h
  rw [hr] at h
  cases h

/-- **A well-formed module is complete as soon as it has its return**, since it never reads but what is
    earlier. -/
theorem WellFormed.validate_eq_ok_iff_sealed [Signature Op] {m : Module Op} (h : m.WellFormed) :
    m.validate = .ok () ↔ m.returnAt ≠ none := by
  refine ⟨returnAt_ne_none_of_validate, fun hsealed => ?_⟩
  obtain ⟨r, hr⟩ := Option.ne_none_iff_exists'.mp hsealed
  unfold validate
  rw [hr]
  simp only [checkOrder_eq_ok, Nat.zero_add]
  exact fun k ins hi => h.reads k ins hi

/-- **A well-formed module is complete exactly when it has a return instruction.** -/
theorem WellFormed.validate_eq_ok [Signature Op] {m : Module Op} (h : m.WellFormed) :
    m.validate = .ok () ↔ ∃ ins ∈ m.instructions, ins.kind = .result := by
  rw [h.validate_eq_ok_iff_sealed, Option.ne_none_iff_exists']
  constructor
  · intro hsealed
    obtain ⟨r, hr⟩ := hsealed
    obtain ⟨ins, hi, hk⟩ := (h.sealed r).mp hr
    exact ⟨ins, List.mem_of_getElem? hi, hk⟩
  · intro hresult
    obtain ⟨ins, hm, hk⟩ := hresult
    obtain ⟨r, hr⟩ := List.mem_iff_getElem?.mp hm
    exact ⟨r, (h.sealed r).mpr ⟨ins, hr, hk⟩⟩

/-- **The invariant of modules.** Whatever calls were made on a module that began empty, and
    whichever of them failed: the module is well-formed, a further call that fails leaves it as it
    is, and it is complete exactly when a return instruction was added. -/
theorem invariant_of_history [Signature Op] (name : String) (calls : List (Call Op)) :
    let m := (Module.new name).run calls
    m.WellFormed ∧
      (∀ call f, m.apply call = .error f →
        (m.step call).instructions = m.instructions ∧ (m.step call).returnAt = m.returnAt) ∧
      (m.validate = .ok () ↔ ∃ ins ∈ m.instructions, ins.kind = .result) := by
  intro m
  have hm : m.WellFormed := wellFormed_run name calls
  refine ⟨hm, fun call f he => ?_, hm.validate_eq_ok⟩
  unfold step
  rw [he]
  exact ⟨rfl, rfl⟩

end TensorGraph.Module
