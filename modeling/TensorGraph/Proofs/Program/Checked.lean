import TensorGraph.Number.Nearest
import TensorGraph.Proofs.Program.Reachable

/-!
# What compiling has checked

To compile is to check every module: it has to be complete before it is lowered and after. The return
that makes a module complete also seals it, so whatever is done to a compiled program, the modules that
were compiled stay the graphs they were (`Program.CompiledFrom.graphs`) and stay complete.

A module that is added later is in no one's care. A program is compiled once, so the module is neither
checked nor lowered, and nothing refuses it (`Program.late_module_unchecked`). It is complete from the
time when it has got its return, and so the modules of a compiled program are all complete exactly when
those have one that were added since (`Program.compiled_modules_complete`).
-/

namespace TensorGraph.Program

variable {Op Ctx : Type} [Dialect Op Ctx]

/-! ## 1. Since a program was compiled -/

/-- What becomes of a program that is compiled for a target that acts by calls, by any steps since. -/
inductive CompiledFrom (before : Program Op Ctx) : Program Op Ctx → Prop where
  | compile {t : Target Op Ctx} {compiled : Program Op Ctx} :
      t.ByCalls → (before.compile t).outcome = .ok compiled → CompiledFrom before compiled
  | step {p after : Program Op Ctx} :
      CompiledFrom before p → p.Step after → CompiledFrom before after

theorem CompiledFrom.reachable [Inhabited Ctx] {before p : Program Op Ctx} (h : CompiledFrom before p)
    (hbefore : before.Reachable) : p.Reachable := by
  induction h with
  | compile ht h => exact hbefore.step (.compile ht h)
  | step _ hs ih => exact ih.step hs

/-- No step makes a compiled program one that is not. -/
theorem Step.target_ne_none {p after : Program Op Ctx} (h : p.Step after) (hp : p.target ≠ none) :
    after.target ≠ none := by
  obtain ⟨name, hname⟩ := Option.ne_none_iff_exists'.mp hp
  rw [h.target hname]
  nofun

theorem CompiledFrom.target_ne_none {before p : Program Op Ctx} (h : CompiledFrom before p) :
    p.target ≠ none := by
  induction h with
  | compile _ h =>
    obtain ⟨_, lowered, _, rfl⟩ := compile_eq_ok_iff.mp h
    nofun
  | step _ hs ih => exact hs.target_ne_none ih

/-- The step after which a program has a target is that it was compiled. -/
theorem Step.compile_of_target {p after : Program Op Ctx} (h : p.Step after) (hp : p.target = none)
    (hafter : after.target ≠ none) :
    ∃ t : Target Op Ctx, t.ByCalls ∧ (p.compile t).outcome = .ok after := by
  cases h with
  | configure | main | other => exact absurd hp hafter
  | addModule h =>
    obtain ⟨_, rfl⟩ := addModule_eq_ok.mp h
    exact absurd hp hafter
  | compile ht h => exact ⟨_, ht, h⟩
  | eval bindings firstBuffer =>
    rw [program_eval] at hafter
    exact absurd hp hafter

/-- **A reachable program that is compiled was compiled from a reachable one.** -/
theorem Reachable.exists_compiledFrom [Inhabited Ctx] {p : Program Op Ctx} (h : p.Reachable)
    (hp : p.target ≠ none) : ∃ before, before.Reachable ∧ CompiledFrom before p := by
  induction h with
  | new config => exact absurd rfl hp
  | @step p after hr hs ih =>
    by_cases hbefore : p.target = none
    · obtain ⟨t, ht, hc⟩ := hs.compile_of_target hbefore hp
      exact ⟨p, hr, .compile ht hc⟩
    · obtain ⟨before, hreach, hfrom⟩ := ih hbefore
      exact ⟨before, hreach, hfrom.step hs⟩

/-! ## 2. The modules that were compiled -/

/-- What is lowered was complete. -/
theorem validate_of_lowerAll {Op Ctx : Type} {t : Target Op Ctx} {modules lowered : List (Module Op)}
    (h : (t.lowerAll modules).outcome = .ok lowered) : ∀ m ∈ modules, m.validate = .ok () := by
  have hsteps := Target.lowerAll_eq_ok.mp h
  clear h
  induction hsteps with
  | nil => exact nofun
  | cons hstep _ ih => exact List.forall_mem_cons.mpr ⟨hstep.1, ih⟩

theorem CompiledFrom.validate {before p : Program Op Ctx} (h : CompiledFrom before p) :
    ∀ m ∈ before.modules, m.validate = .ok () := by
  induction h with
  | compile _ h =>
    obtain ⟨_, _, hl, _⟩ := compile_eq_ok_iff.mp h
    exact validate_of_lowerAll hl
  | step _ _ ih => exact ih

/-- What a list begins with ends before one of its members, or has it. -/
theorem prefix_or_mem {α : Type} {l front back : List α} {a : α} (h : l <+: front ++ a :: back) :
    l <+: front ∨ a ∈ l := by
  obtain ⟨rest, hrest⟩ := h
  rcases List.append_eq_append_iff.mp hrest with ⟨between, rfl, _⟩ | ⟨between, rfl, hback⟩
  · exact .inl (List.prefix_append l between)
  · cases between with
    | nil =>
      rw [List.append_nil]
      exact .inl List.prefix_rfl
    | cons b between =>
      cases hback
      exact .inr (List.mem_append_right front List.mem_cons_self)

/-- **No step changes the graphs of sealed modules** with which a compiled program begins. -/
theorem Step.graphs {p after : Program Op Ctx} (h : p.Step after) (hp : p.target ≠ none)
    {graphs : List (Module Unit)} (hgraphs : graphs <+: p.modules.map Module.graph)
    (hsealed : ∀ g ∈ graphs, g.returnAt ≠ none) : graphs <+: after.modules.map Module.graph := by
  rcases h.modules_cases with hkept | ⟨name, _, hadded⟩ | ⟨front, m, back, call, hbefore, hafter⟩ |
    ⟨hnone, _⟩
  · rw [hkept]
    exact hgraphs
  · rw [hadded, List.map_append]
    exact hgraphs.trans (List.prefix_append _ _)
  · rw [hbefore, List.map_append, List.map_cons] at hgraphs
    rw [hafter, List.map_append, List.map_cons]
    -- a module without its return is none of those, so they stand in front of it
    cases hr : m.returnAt with
    | some r =>
      rw [Module.graph_step_of_sealed hr]
      exact hgraphs
    | none =>
      rcases prefix_or_mem hgraphs with hfront | hmem
      · exact hfront.trans (List.prefix_append _ _)
      · exact absurd hr (hsealed m.graph hmem)
  · exact absurd hnone hp

/-- **The modules that were compiled stay the graphs they were**, in their places. -/
theorem CompiledFrom.graphs {before p : Program Op Ctx} (h : CompiledFrom before p) :
    before.modules.map Module.graph <+: p.modules.map Module.graph := by
  have hsealed : ∀ g ∈ before.modules.map Module.graph, g.returnAt ≠ none := by
    intro g hg
    obtain ⟨m, hm, rfl⟩ := List.mem_map.mp hg
    have hreturn := Module.returnAt_ne_none_of_validate (h.validate m hm)
    exact hreturn
  induction h with
  | compile ht h => exact graph_of_compile ht h ▸ List.prefix_rfl
  | step hfrom hs ih => exact hs.graphs hfrom.target_ne_none ih hsealed

/-! ## 3. All modules -/

/-- **A compiled program has checked the modules that it was compiled from, and no others.** In any
    reachable program the first module is named `main` and names are distinct. It is compiled if it comes
    of a reachable program that was compiled. From then on the modules of that program keep their graphs,
    and they are complete; and all modules are complete if those added since have their returns. -/
theorem compiled_modules_complete [Inhabited Ctx] {p : Program Op Ctx} (h : p.Reachable) :
    p.main.name = mainName ∧
    (p.modules.map Module.name).Nodup ∧
    (p.isCompiled = true ↔ ∃ before : Program Op Ctx, before.Reachable ∧ CompiledFrom before p) ∧
    ∀ before, CompiledFrom before p →
      (p.modules.take before.modules.length).map Module.graph = before.modules.map Module.graph ∧
      (∀ m ∈ p.modules.take before.modules.length, m.validate = .ok ()) ∧
      ((∀ m ∈ p.modules, m.validate = .ok ()) ↔
        ∀ m ∈ p.modules.drop before.modules.length, m.returnAt ≠ none) := by
  have hcompiled : p.isCompiled = true ↔ p.target ≠ none := Option.isSome_iff_ne_none
  refine ⟨h.names.1, h.names.2, hcompiled.trans ⟨h.exists_compiledFrom, fun hfrom => ?_⟩, ?_⟩
  · obtain ⟨before, _, hfrom⟩ := hfrom
    exact hfrom.target_ne_none
  · intro before hfrom
    have hgraphs : (p.modules.take before.modules.length).map Module.graph =
        before.modules.map Module.graph := by
      have htake := List.prefix_iff_eq_take.mp hfrom.graphs
      rw [List.length_map] at htake
      rw [List.map_take, ← htake]
    have hchecked : ∀ m ∈ p.modules.take before.modules.length, m.validate = .ok () := by
      intro m hm
      have hmem : m.graph ∈ before.modules.map Module.graph := hgraphs ▸ List.mem_map_of_mem hm
      obtain ⟨old, hold, hsame⟩ := List.mem_map.mp hmem
      have hreturn : old.returnAt = m.returnAt :=
        congrArg (fun g : Module Unit => g.returnAt) hsame
      refine (h.wellFormed m (List.mem_of_mem_take hm)).validate_eq_ok_iff_sealed.mpr ?_
      rw [← hreturn]
      exact Module.returnAt_ne_none_of_validate (hfrom.validate old hold)
    refine ⟨hgraphs, hchecked, ?_⟩
    constructor
    · intro hall m hm
      exact Module.returnAt_ne_none_of_validate (hall m (List.mem_of_mem_drop hm))
    · intro hlater m hm
      rw [← List.take_append_drop before.modules.length p.modules] at hm
      rcases List.mem_append.mp hm with hm | hm
      · exact hchecked m hm
      · exact (h.wellFormed m (List.mem_of_mem_drop hm)).validate_eq_ok_iff_sealed.mpr (hlater m hm)

/-- A program whose main module returns nothing. -/
def idle : Program Operation Context :=
  { Program.new default with main := (Module.new mainName).step (.result []) }

/-- The program compiled for the CPU, beside another module. -/
def idleBeside (others : List (Module Operation)) : Program Operation Context :=
  ⟨idle.main, others, idle.config, some Cpu.target.name, Cpu.target.context⟩

theorem idle_reachable [ShortFloats] : idle.Reachable := (Reachable.new default).step (.main _ (.result []))

/-- Once it is compiled, the program takes another module. -/
theorem compiledFrom_idle [ShortFloats] : CompiledFrom idle (idleBeside [Module.new "late"]) := by
  have hcompile : (idle.compile Cpu.target).outcome = .ok (idleBeside []) := rfl
  have hadd : (idleBeside []).addModule "late" = .ok (idleBeside [Module.new "late"]) := rfl
  exact (CompiledFrom.compile Cpu.target_byCalls hcompile).step (.addModule hadd)

/-- **A compiled program may have a module that is not complete**: one that was added since. -/
theorem late_module_unchecked :
    (idleBeside [Module.new "late"]).Reachable ∧
      (idleBeside [Module.new "late"]).isCompiled = true ∧
      ∃ m ∈ (idleBeside [Module.new "late"]).modules, m.validate ≠ .ok () := by
  refine ⟨compiledFrom_idle.reachable idle_reachable, rfl, Module.new "late", ?_, nofun⟩
  exact List.mem_cons_of_mem _ List.mem_cons_self

/-- With its return the late module is complete, and so are all. -/
theorem late_module_completed :
    let late : Module Operation := (Module.new "late").step (.result [])
    (idleBeside [late]).Reachable ∧ (idleBeside [late]).isCompiled = true ∧
      ∀ m ∈ (idleBeside [late]).modules, m.validate = .ok () := by
  intro late
  have hothers : (idleBeside [Module.new "late"]).others = [] ++ Module.new "late" :: [] := rfl
  have hfrom : CompiledFrom idle (idleBeside [late]) :=
    compiledFrom_idle.step (.other (.result []) hothers)
  have hreach : (idleBeside [late]).Reachable := hfrom.reachable idle_reachable
  obtain ⟨_, _, hcompiled, hsince⟩ := compiled_modules_complete hreach
  obtain ⟨_, _, hall⟩ := hsince idle hfrom
  refine ⟨hreach, hcompiled.mpr ⟨idle, idle_reachable, hfrom⟩, hall.mpr ?_⟩
  exact List.forall_mem_singleton.mpr nofun

end TensorGraph.Program
