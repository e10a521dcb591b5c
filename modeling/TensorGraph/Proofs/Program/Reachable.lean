import Mathlib.Data.List.Nodup
import TensorGraph.Proofs.Evaluation.Steps
import TensorGraph.Proofs.Target.Compilation

/-!
# Reachable programs

What becomes of a program that began empty: modules are added and built by calls, the program is compiled
for targets that act by calls, and evaluated, all in any order and as often as one likes. What fails
leaves the program as it was, and is no step.

* `Program.Step` -- one step, and `Program.Reachable` -- any number of them;
* `Program.CompiledFor` -- the programs that were once compiled for a target, which they stay compiled
  for;
* `Program.Step.modules_cases` -- what a step can do to the modules, from which all that follows;
* `Program.Reachable.wellFormed` -- every module of a reachable program is well-formed;
* `Program.Reachable.names` -- its first module is named `main`, and no two have one name.
-/

namespace TensorGraph.Program

variable {Op Ctx : Type} [Dialect Op Ctx]

/-! ## 1. Steps -/

/-- When a module is added, and the program after it. -/
theorem addModule_eq_ok {Op Ctx : Type} {p after : Program Op Ctx} {name : String} :
    p.addModule name = .ok after ↔
      p.module? name = none ∧ after = { p with others := p.others ++ [Module.new name] } := by
  unfold addModule
  rw [Outcome.check_eq_ok, Option.isSome_iff_ne_none, Decidable.not_not, Except.ok.injEq,
    eq_comm (b := after)]

/-- What can be done to a program. -/
inductive Step : Program Op Ctx → Program Op Ctx → Prop where
  | configure (p : Program Op Ctx) (config : Config) : Step p (p.withConfig config)
  | addModule {p after : Program Op Ctx} {name : String} :
      p.addModule name = .ok after → Step p after
  /-- A call on the main module. -/
  | main (p : Program Op Ctx) (call : Call Op) : Step p { p with main := p.main.step call }
  /-- A call on another module. -/
  | other {p : Program Op Ctx} {front back : List (Module Op)} {m : Module Op} (call : Call Op) :
      p.others = front ++ m :: back → Step p { p with others := front ++ m.step call :: back }
  | compile {p compiled : Program Op Ctx} {t : Target Op Ctx} :
      t.ByCalls → (p.compile t).outcome = .ok compiled → Step p compiled
  | eval (p : Program Op Ctx) (bindings : Bindings) (firstBuffer : Nat) :
      Step p (p.eval bindings firstBuffer).program

/-- What becomes of an empty program by any number of steps. -/
inductive Reachable [Inhabited Ctx] : Program Op Ctx → Prop where
  | new (config : Config) : Reachable (Program.new config)
  | step {p after : Program Op Ctx} : Reachable p → p.Step after → Reachable after

/-- What becomes of a reachable program that was compiled for a target. -/
inductive CompiledFor [Inhabited Ctx] (t : Target Op Ctx) : Program Op Ctx → Prop where
  | compile {p compiled : Program Op Ctx} :
      p.Reachable → (p.compile t).outcome = .ok compiled → CompiledFor t compiled
  | step {p after : Program Op Ctx} : CompiledFor t p → p.Step after → CompiledFor t after

theorem CompiledFor.reachable [Inhabited Ctx] {t : Target Op Ctx} (ht : t.ByCalls)
    {p : Program Op Ctx} (h : p.CompiledFor t) : p.Reachable := by
  induction h with
  | compile hp hc => exact hp.step (.compile ht hc)
  | step _ hs ih => exact ih.step hs

/-- Any calls on the main module. -/
theorem Reachable.run [Inhabited Ctx] {p : Program Op Ctx} (h : p.Reachable) (calls : List (Call Op)) :
    ({ p with main := p.main.run calls } : Program Op Ctx).Reachable := by
  induction calls generalizing p with
  | nil => exact h
  | cons call rest ih => exact ih (h.step (.main p call))

/-- Any calls on another module. -/
theorem Reachable.run_other [Inhabited Ctx] {p : Program Op Ctx} (h : p.Reachable)
    {front back : List (Module Op)} {m : Module Op} (hm : p.others = front ++ m :: back)
    (calls : List (Call Op)) :
    ({ p with others := front ++ m.run calls :: back } : Program Op Ctx).Reachable := by
  induction calls generalizing p m with
  | nil =>
    rw [Module.run, ← hm]
    exact h
  | cons call rest ih => exact ih (h.step (.other call hm)) rfl

/-- A program stays compiled for its target. -/
theorem Step.target {p after : Program Op Ctx} {name : String} (h : p.Step after)
    (ht : p.target = some name) : after.target = some name := by
  cases h with
  | configure | main | other => exact ht
  | addModule h =>
    obtain ⟨_, rfl⟩ := addModule_eq_ok.mp h
    exact ht
  | compile _ h =>
    obtain ⟨hnone, _⟩ := compile_eq_ok_iff.mp h
    cases ht.symm.trans hnone
  | eval bindings firstBuffer =>
    rw [program_eval]
    exact ht

theorem CompiledFor.target [Inhabited Ctx] {t : Target Op Ctx} {p : Program Op Ctx}
    (h : p.CompiledFor t) : p.target = some t.name := by
  induction h with
  | compile _ h =>
    obtain ⟨_, lowered, _, rfl⟩ := compile_eq_ok_iff.mp h
    rfl
  | step _ hs ih => exact hs.target ih

/-! ## 2. Modules -/

/-- Lowering by calls keeps modules well-formed. -/
theorem wellFormed_of_lowerAll {t : Target Op Ctx} (ht : t.ByCalls) {modules lowered : List (Module Op)}
    (h : (t.lowerAll modules).outcome = .ok lowered) (hw : ∀ m ∈ modules, m.WellFormed) :
    ∀ m ∈ lowered, m.WellFormed := by
  have hsteps := Target.lowerAll_eq_ok.mp h
  clear h
  induction hsteps with
  | nil => exact hw
  | cons hstep _ ih =>
    obtain ⟨hfirst, hrest⟩ := List.forall_mem_cons.mp hw
    obtain ⟨calls, rfl⟩ := ht _ _ hstep.2.1
    exact List.forall_mem_cons.mpr ⟨hfirst.run calls, ih hrest⟩

/-- **What a step makes of the modules**: it keeps them, adds an empty one under a new name, makes a call on
    one of them, or lowers all of them, which is only done to a program that is not compiled. -/
theorem Step.modules_cases {p after : Program Op Ctx} (h : p.Step after) :
    after.modules = p.modules ∨
    (∃ name, p.module? name = none ∧ after.modules = p.modules ++ [Module.new name]) ∨
    (∃ front m back call, p.modules = front ++ m :: back ∧
      after.modules = front ++ m.step call :: back) ∨
    (p.target = none ∧ ∃ t : Target Op Ctx, t.ByCalls ∧
      (t.lowerAll p.modules).outcome = .ok after.modules) := by
  cases h with
  | configure => exact .inl rfl
  | @addModule _ name h =>
    obtain ⟨hnew, rfl⟩ := addModule_eq_ok.mp h
    exact .inr (.inl ⟨name, hnew, rfl⟩)
  | main call => exact .inr (.inr (.inl ⟨[], p.main, p.others, call, rfl, rfl⟩))
  | @other front back m call h =>
    refine .inr (.inr (.inl ⟨p.main :: front, m, back, call, ?_, rfl⟩))
    unfold modules
    rw [h, List.cons_append]
  | @compile _ t ht h =>
    obtain ⟨hnone, lowered, hl, rfl⟩ := compile_eq_ok_iff.mp h
    have hmodules : (p.withModules lowered).modules = lowered :=
      modules_withModules (Target.lowerAll_eq_ok.mp hl).length_eq.symm
    refine .inr (.inr (.inr ⟨hnone, t, ht, ?_⟩))
    rw [hl]
    exact congrArg Except.ok hmodules.symm
  | eval bindings firstBuffer =>
    rw [program_eval]
    exact .inl rfl

/-- **No step leaves a module that is not well-formed.** -/
theorem Step.wellFormed {p after : Program Op Ctx} (h : p.Step after)
    (hw : ∀ m ∈ p.modules, m.WellFormed) : ∀ m ∈ after.modules, m.WellFormed := by
  rcases h.modules_cases with hkept | ⟨name, _, hadded⟩ | ⟨front, m, back, call, hbefore, hafter⟩ |
    ⟨_, t, ht, hlowered⟩
  · rw [hkept]
    exact hw
  · rw [hadded]
    refine List.forall_mem_append.mpr ⟨hw, List.forall_mem_singleton.mpr ?_⟩
    exact Module.wellFormed_new name
  · rw [hbefore] at hw
    rw [hafter]
    obtain ⟨hfront, hback⟩ := List.forall_mem_append.mp hw
    obtain ⟨hm, hback⟩ := List.forall_mem_cons.mp hback
    exact List.forall_mem_append.mpr ⟨hfront, List.forall_mem_cons.mpr ⟨hm.step call, hback⟩⟩
  · exact wellFormed_of_lowerAll ht hlowered hw

/-- **Every module of a reachable program is well-formed.** -/
theorem Reachable.wellFormed [Inhabited Ctx] {p : Program Op Ctx} (h : p.Reachable) :
    ∀ m ∈ p.modules, m.WellFormed := by
  induction h with
  | new config => exact List.forall_mem_singleton.mpr (Module.wellFormed_new mainName)
  | step _ hs ih => exact hs.wellFormed ih

/-! ## 3. Names -/

theorem module?_eq_none_iff {Op Ctx : Type} {p : Program Op Ctx} {name : String} :
    p.module? name = none ↔ name ∉ p.modules.map Module.name := by
  unfold module?
  rw [List.find?_eq_none, List.mem_map, not_exists]
  refine forall_congr' fun m => ?_
  rw [beq_iff_eq, not_and]

/-- Steps keep the names of the modules, and what they add is a new one. -/
theorem Step.names_cases {p after : Program Op Ctx} (h : p.Step after) :
    after.modules.map Module.name = p.modules.map Module.name ∨
    ∃ name, name ∉ p.modules.map Module.name ∧
      after.modules.map Module.name = p.modules.map Module.name ++ [name] := by
  rcases h.modules_cases with hkept | ⟨name, hnew, hadded⟩ | ⟨front, m, back, call, hbefore, hafter⟩ |
    ⟨_, t, ht, hlowered⟩
  · rw [hkept]
    exact .inl rfl
  · refine .inr ⟨name, module?_eq_none_iff.mp hnew, ?_⟩
    rw [hadded, List.map_append]
    rfl
  · left
    rw [hbefore, hafter, List.map_append, List.map_append, List.map_cons, List.map_cons,
      Module.name_step]
  · left
    have hgraphs := congrArg (List.map Module.name) (graphs_of_lowerAll ht hlowered)
    rw [List.map_map, List.map_map] at hgraphs
    exact hgraphs

/-- **The first module is the main one, and no two modules have one name.** -/
theorem Reachable.names [Inhabited Ctx] {p : Program Op Ctx} (h : p.Reachable) :
    p.main.name = mainName ∧ (p.modules.map Module.name).Nodup := by
  induction h with
  | new config => exact ⟨rfl, List.nodup_singleton mainName⟩
  | step _ hs ih =>
    obtain ⟨hmain, hnodup⟩ := ih
    rcases hs.names_cases with hkept | ⟨name, hnew, hadded⟩
    · exact ⟨(List.cons.inj hkept).1.trans hmain, hkept ▸ hnodup⟩
    · refine ⟨(List.cons.inj hadded).1.trans hmain, ?_⟩
      rw [hadded]
      exact hnodup.append (List.nodup_singleton name) (List.disjoint_singleton.mpr hnew)

end TensorGraph.Program
