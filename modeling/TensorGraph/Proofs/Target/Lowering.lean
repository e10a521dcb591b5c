import Mathlib.Data.List.Forall2
import TensorGraph.Proofs.Module.Invariant
import TensorGraph.Target.Cpu

/-!
# Lowering for the CPU

Lowering is a sequence of calls on a module, and what it makes of the module is said at once: every
arithmetic operator has become its kernel, and nothing else has changed (`Cpu.lower_eq_ok`). The
calls are ordinary replacements, so the lowered module is well-formed where the module was.

* `Cpu.lowered` -- an instruction with a kernel in the place of arithmetic;
* `Report.bind_eq_ok`, `Report.bind_eq_error` -- a sequence of reports succeeds if both parts do, and
  fails where one of them does;
* `Target.lowerAll_eq_ok`, `Program.compile_eq_ok_iff` -- when modules are lowered and programs
  compiled, and what becomes of them;
* `Program.compile_eq_ok` -- the main module of a compiled program is the lowered one.
-/

namespace TensorGraph

/-! ## 1. Reports -/

/-- A sequence of reports succeeds where both parts do, whatever they tell. -/
theorem Report.bind_eq_ok {α β : Type} {r : Report α} {next : α → Report β} {b : β} :
    (r >>= next).outcome = .ok b ↔ ∃ a, r.outcome = .ok a ∧ (next a).outcome = .ok b := by
  rw [outcome_bind]
  exact Outcome.bind_eq_ok

/-- A sequence of reports fails where its first part does, or the second after the first. -/
theorem Report.bind_eq_error {α β : Type} {r : Report α} {next : α → Report β} {f : Failure} :
    (r >>= next).outcome = .error f ↔
      r.outcome = .error f ∨ ∃ a, r.outcome = .ok a ∧ (next a).outcome = .error f := by
  rw [outcome_bind]
  exact Outcome.bind_eq_error

theorem Module.perform_eq_ok {Op : Type} [Signature Op] {m after : Module Op} {call : Call Op} :
    (m.perform call).outcome = .ok after ↔ m.apply call = .ok after := by
  unfold perform
  rw [Report.bind_eq_ok]
  constructor
  · intro h
    obtain ⟨found, ha, h⟩ := h
    obtain ⟨_, _, h⟩ := Report.bind_eq_ok.mp h
    cases h
    exact ha
  · intro h
    exact ⟨after, h, rfl⟩

/-! ## 2. Kernels in the place of arithmetic -/

namespace Cpu

/-- The instruction with a kernel in the place of arithmetic. -/
def lowered (ins : Instruction Operation) : Instruction Operation :=
  match ins.kind with
  | .operation (.catalog (.binary b)) => { ins with kind := .operation (.kernel b) }
  | _ => ins

@[simp] theorem inputs_lowered (ins : Instruction Operation) :
    (lowered ins).inputs = ins.inputs := by
  unfold lowered
  split <;> rfl

@[simp] theorem shape_lowered (ins : Instruction Operation) : (lowered ins).shape = ins.shape := by
  unfold lowered
  split <;> rfl

/-- An instruction that is no arithmetic is left alone. -/
theorem lowered_of_ne {ins : Instruction Operation}
    (h : ∀ b, ins.kind ≠ .operation (.catalog (.binary b))) : lowered ins = ins := by
  unfold lowered
  split
  · rename_i b hk
    exact absurd hk (h b)
  · rfl

theorem lowered_of_binary {ins : Instruction Operation} {b : Binary}
    (h : ins.kind = .operation (.catalog (.binary b))) :
    lowered ins = { ins with kind := .operation (.kernel b) } := by
  unfold lowered
  rw [h]

/-- For every arithmetic operator there is one call, and for other instructions there is none. -/
theorem kernelCall?_cases (position : Nat) (ins : Instruction Operation) :
    (kernelCall? position ins = none ∧ ∀ b, ins.kind ≠ .operation (.catalog (.binary b))) ∨
      ∃ b, kernelCall? position ins = some (.replacement position (.kernel b)) ∧
        ins.kind = .operation (.catalog (.binary b)) := by
  unfold kernelCall?
  split
  · rename_i b hk
    exact Or.inr ⟨b, rfl, hk⟩
  · rename_i hne
    exact Or.inl ⟨rfl, hne⟩

/-- The instruction that is found after the front is the first of the rest. -/
theorem instruction?_after_front {front rest : List (Instruction Operation)}
    {ins : Instruction Operation} {m : Module Operation} (hm : m.instructions = front ++ ins :: rest) :
    m.instruction? front.length = some ins := by
  rw [Module.instruction?, hm, List.getElem?_append_right (Nat.le_refl _), Nat.sub_self]
  rfl

/-- A replacement by the kernel lowers the first instruction after the front. -/
theorem replace_after_front {front rest : List (Instruction Operation)} {ins : Instruction Operation}
    {m : Module Operation} {b : Binary} (hm : m.instructions = front ++ ins :: rest)
    (hk : ins.kind = .operation (.catalog (.binary b))) :
    (m.replace front.length ins (.kernel b)).instructions = (front ++ [lowered ins]) ++ rest := by
  rw [Module.replace, hm, ← lowered_of_binary hk, List.set_append_right _ _ (Nat.le_refl _),
    Nat.sub_self, List.append_assoc]
  rfl

/-- The calls for the instructions that are left, after those in front were lowered. -/
theorem performAll_kernelCalls (front : List (Instruction Operation))
    {rest : List (Instruction Operation)} {m after : Module Operation}
    (hm : m.instructions = front ++ rest)
    (h : (m.performAll (kernelCalls front.length rest)).outcome = .ok after) :
    after.instructions = front ++ rest.map lowered ∧ after.returnAt = m.returnAt ∧
      (m.WellFormed → after.WellFormed) := by
  induction rest generalizing front m with
  | nil =>
    cases h
    exact ⟨hm, rfl, id⟩
  | cons ins rest ih =>
    rw [kernelCalls] at h
    have hlen : ∀ found : Instruction Operation, (front ++ [found]).length = front.length + 1 :=
      fun _ => List.length_append
    rcases kernelCall?_cases front.length ins with ⟨hnone, hne⟩ | ⟨b, hsome, hk⟩
    · rw [hnone, ← hlen ins] at h
      have hsplit : m.instructions = (front ++ [ins]) ++ rest := by
        rw [hm, List.append_assoc]
        rfl
      obtain ⟨hi, hr, hw⟩ := ih (front ++ [ins]) hsplit h
      refine ⟨?_, hr, hw⟩
      rw [hi, List.map_cons, lowered_of_ne hne, List.append_assoc]
      rfl
    · rw [hsome, ← hlen (lowered ins)] at h
      obtain ⟨next, hp, h⟩ := Report.bind_eq_ok.mp h
      have happly := Module.perform_eq_ok.mp hp
      obtain ⟨found, old, hf, _, _, _, hnext⟩ :=
        (Module.replaceOperation_eq_ok m next front.length (.kernel b)).mp happly
      have hfound : found = ins := Option.some.inj (hf.symm.trans (instruction?_after_front hm))
      have hstep : next.instructions = (front ++ [lowered ins]) ++ rest := by
        rw [hnext, hfound]
        exact replace_after_front hm hk
      have hreturn : next.returnAt = m.returnAt := by
        rw [hnext]
        rfl
      obtain ⟨hi, hr, hw⟩ := ih (front ++ [lowered ins]) hstep h
      refine ⟨?_, hr.trans hreturn, fun hwell => hw (hwell.apply happly)⟩
      rw [hi, List.map_cons, List.append_assoc]
      rfl

/-- **Lowering puts kernels in the place of arithmetic and changes nothing else.** -/
theorem lower_eq_ok {m after : Module Operation} (h : (lower m).outcome = .ok after) :
    after.instructions = m.instructions.map lowered ∧ after.returnAt = m.returnAt ∧
      (m.WellFormed → after.WellFormed) :=
  performAll_kernelCalls [] rfl h

end Cpu

/-! ## 3. Compiled programs -/

section Compiling

variable {Op Ctx : Type}

/-- **Modules are lowered one by one, each complete before and after.** -/
theorem Target.lowerAll_eq_ok {t : Target Op Ctx} {modules lowered : List (Module Op)} :
    (t.lowerAll modules).outcome = .ok lowered ↔
      List.Forall₂ (fun m after => m.validate = .ok () ∧ (t.lower m).outcome = .ok after ∧
        after.validate = .ok ()) modules lowered := by
  induction modules generalizing lowered with
  | nil =>
    rw [List.forall₂_nil_left_iff]
    constructor
    · intro h
      cases h
      rfl
    · intro h
      rw [h]
      rfl
  | cons m rest ih =>
    rw [List.forall₂_cons_left_iff, lowerAll]
    constructor
    · intro h
      obtain ⟨_, hbefore, h⟩ := Report.bind_eq_ok.mp h
      obtain ⟨after, hlower, h⟩ := Report.bind_eq_ok.mp h
      obtain ⟨_, hafter, h⟩ := Report.bind_eq_ok.mp h
      obtain ⟨others, hothers, h⟩ := Report.bind_eq_ok.mp h
      cases h
      exact ⟨after, others, ⟨hbefore, hlower, hafter⟩, ih.mp hothers, rfl⟩
    · intro h
      obtain ⟨after, others, ⟨hbefore, hlower, hafter⟩, hothers, rfl⟩ := h
      refine Report.bind_eq_ok.mpr ⟨(), hbefore, ?_⟩
      refine Report.bind_eq_ok.mpr ⟨after, hlower, ?_⟩
      refine Report.bind_eq_ok.mpr ⟨(), hafter, ?_⟩
      exact Report.bind_eq_ok.mpr ⟨others, ih.mpr hothers, rfl⟩

/-- What a success makes of a program: every module lowered, and the target with its context. -/
theorem Program.compile_eq_ok_iff {p compiled : Program Op Ctx} {t : Target Op Ctx} :
    (p.compile t).outcome = .ok compiled ↔ p.target = none ∧
      ∃ lowered, (t.lowerAll p.modules).outcome = .ok lowered ∧
        compiled = { p.withModules lowered with target := some t.name, context := t.context } := by
  unfold compile
  cases p.target with
  | some current => exact ⟨nofun, nofun⟩
  | none =>
    constructor
    · intro h
      obtain ⟨_, _, h⟩ := Report.bind_eq_ok.mp h
      obtain ⟨lowered, hl, h⟩ := Report.bind_eq_ok.mp h
      obtain ⟨_, _, h⟩ := Report.bind_eq_ok.mp h
      cases h
      exact ⟨rfl, lowered, hl, rfl⟩
    · intro h
      obtain ⟨_, lowered, hl, rfl⟩ := h
      refine Report.bind_eq_ok.mpr ⟨(), rfl, ?_⟩
      refine Report.bind_eq_ok.mpr ⟨lowered, hl, ?_⟩
      exact Report.bind_eq_ok.mpr ⟨(), rfl, rfl⟩

/-- **The main module of a compiled program is the lowered one**, and it runs in the target's
    context. -/
theorem Program.compile_eq_ok {p compiled : Program Op Ctx} {t : Target Op Ctx}
    (h : (p.compile t).outcome = .ok compiled) :
    (t.lower p.main).outcome = .ok compiled.main ∧ compiled.config = p.config ∧
      compiled.context = t.context := by
  obtain ⟨_, lowered, hl, rfl⟩ := compile_eq_ok_iff.mp h
  obtain ⟨main, others, ⟨_, hmain, _⟩, _, rfl⟩ :=
    List.forall₂_cons_left_iff.mp (Target.lowerAll_eq_ok.mp hl)
  exact ⟨hmain, rfl, rfl⟩

end Compiling

end TensorGraph
