import TensorGraph.Proofs.Module.Sealed
import TensorGraph.Proofs.Target.Lowering
import TensorGraph.Target.Plan

/-!
# Compiling is all or nothing

To compile, the modules of a program are copied, and the copies are validated, lowered and validated
again, one after the other and each in place. A lowering that fails may leave its copy half rewritten.
The program itself is written when every copy is done, and not before.

* `Target.lowerInPlace`, `Program.attempt` -- compiling with the copies and the program as they are at
  each end, also after a failure;
* `Program.attempt_eq` -- it comes to what `Program.compile` comes to, and a failure leaves the program;
* `Target.ByCalls` -- a target that acts on a module through calls alone, as all targets do that are
  given by a plan (`Plan.target_byCalls`);
* `Program.compile_all_or_nothing` -- a compiled program has the graphs that it had.
-/

namespace TensorGraph

variable {Op Ctx : Type}

/-! ## 1. Lowering in place -/

/-- Lowers copies in place up to the first that fails, and hands all of them back. A lowering that
    fails makes `left m` of a copy `m`. -/
def Target.lowerInPlace (t : Target Op Ctx) (left : Module Op → Module Op) :
    List (Module Op) → Outcome Unit × List (Module Op)
  | [] => (.ok (), [])
  | m :: rest =>
    match m.validate, (t.lower m).outcome with
    | .error f, _ => (.error f, m :: rest)
    | .ok (), .error f => (.error f, left m :: rest)
    | .ok (), .ok after =>
      match after.validate with
      | .error f => (.error f, after :: rest)
      | .ok () => ((t.lowerInPlace left rest).1, after :: (t.lowerInPlace left rest).2)

/-- What an attempt to compile a program came to, and the program after it. -/
def Program.attempt (p : Program Op Ctx) (t : Target Op Ctx) (left : Module Op → Module Op) :
    Outcome Unit × Program Op Ctx :=
  match p.target with
  | some current => (Outcome.fail (.alreadyCompiled current), p)
  | none =>
    match t.lowerInPlace left p.modules with
    | (.error f, _) => (.error f, p)
    | (.ok (), copies) =>
      (.ok (), { p.withModules copies with target := some t.name, context := t.context })

section InPlace

variable {t : Target Op Ctx} {left : Module Op → Module Op}

/-- Lowering in place succeeds where lowering does, with the same modules. -/
theorem Target.lowerInPlace_of_ok {modules lowered : List (Module Op)}
    (h : (t.lowerAll modules).outcome = .ok lowered) :
    t.lowerInPlace left modules = (.ok (), lowered) := by
  have hsteps := Target.lowerAll_eq_ok.mp h
  clear h
  induction hsteps with
  | nil => rfl
  | cons hstep _ ih =>
    obtain ⟨hbefore, hlower, hafter⟩ := hstep
    rw [lowerInPlace, hbefore, hlower]
    dsimp only
    rw [hafter, ih]

/-- Lowering in place fails where lowering does, in the same way. -/
theorem Target.lowerInPlace_of_error {modules : List (Module Op)} {f : Failure}
    (h : (t.lowerAll modules).outcome = .error f) :
    (t.lowerInPlace left modules).1 = .error f := by
  induction modules with
  | nil => cases h
  | cons m rest ih =>
    rw [lowerAll] at h
    rw [lowerInPlace]
    rcases Report.bind_eq_error.mp h with hbefore | ⟨_, hbefore, h⟩
    · have hvalidate : m.validate = .error f := hbefore
      rw [hvalidate]
    have hvalidate : m.validate = .ok () := hbefore
    rw [hvalidate]
    rcases Report.bind_eq_error.mp h with hlower | ⟨after, hlower, h⟩
    · rw [hlower]
    rw [hlower]
    dsimp only
    rcases Report.bind_eq_error.mp h with hafter | ⟨_, hafter, h⟩
    · have hvalidate' : after.validate = .error f := hafter
      rw [hvalidate']
    have hvalidate' : after.validate = .ok () := hafter
    rw [hvalidate']
    rcases Report.bind_eq_error.mp h with hrest | ⟨_, _, h⟩
    · exact ih hrest
    · cases h

end InPlace

/-! ## 2. Attempts -/

namespace Program

variable {p : Program Op Ctx} {t : Target Op Ctx} {left : Module Op → Module Op}

theorem compile_eq_error {f : Failure} (hn : p.target = none)
    (h : (p.compile t).outcome = .error f) : (t.lowerAll p.modules).outcome = .error f := by
  unfold compile at h
  rw [hn] at h
  rcases Report.bind_eq_error.mp h with h | ⟨_, _, h⟩
  · cases h
  rcases Report.bind_eq_error.mp h with h | ⟨_, _, h⟩
  · exact h
  rcases Report.bind_eq_error.mp h with h | ⟨_, _, h⟩
  · cases h
  · cases h

/-- **An attempt comes to what compiling comes to, and one that fails leaves the program.** -/
theorem attempt_eq (p : Program Op Ctx) (t : Target Op Ctx) (left : Module Op → Module Op) :
    p.attempt t left =
      match (p.compile t).outcome with
      | .ok compiled => (.ok (), compiled)
      | .error f => (.error f, p) := by
  unfold attempt
  cases hp : p.target with
  | some current =>
    unfold compile
    rw [hp]
    rfl
  | none =>
    cases hc : (p.compile t).outcome with
    | ok compiled =>
      obtain ⟨_, lowered, hl, rfl⟩ := compile_eq_ok_iff.mp hc
      dsimp only
      rw [Target.lowerInPlace_of_ok hl]
    | error f =>
      -- the copies that were lowered before the failure go with the others
      have hfails : (t.lowerInPlace left p.modules).1 = .error f :=
        Target.lowerInPlace_of_error (compile_eq_error hp hc)
      obtain ⟨copies, hcopies⟩ : ∃ copies, t.lowerInPlace left p.modules = (.error f, copies) :=
        ⟨_, Prod.ext hfails rfl⟩
      dsimp only
      rw [hcopies]

/-- The program after attempts to compile it, one after the other. -/
def attempts (p : Program Op Ctx) : List (Target Op Ctx × (Module Op → Module Op)) → Program Op Ctx
  | [] => p
  | (t, left) :: rest => (p.attempt t left).2.attempts rest

theorem attempt_of_error {f : Failure} (h : (p.compile t).outcome = .error f) :
    p.attempt t left = (.error f, p) := by
  rw [attempt_eq, h]

theorem attempt_of_ok {compiled : Program Op Ctx} (h : (p.compile t).outcome = .ok compiled) :
    p.attempt t left = (.ok (), compiled) := by
  rw [attempt_eq, h]

/-- **Attempts that all fail leave the program**, however many there are. -/
theorem attempts_of_errors {tries : List (Target Op Ctx × (Module Op → Module Op))}
    (h : ∀ a ∈ tries, ∃ f, (p.compile a.1).outcome = .error f) : p.attempts tries = p := by
  induction tries with
  | nil => rfl
  | cons a rest ih =>
    obtain ⟨f, hf⟩ := h a List.mem_cons_self
    rw [attempts, attempt_of_error hf]
    exact ih fun b hb => h b (List.mem_cons_of_mem a hb)

end Program

/-! ## 3. Targets that act by calls -/

/-- What lowering makes of a module is what some calls make of it, of which some may fail. -/
def Target.ByCalls [Signature Op] (t : Target Op Ctx) : Prop :=
  ∀ m after, (t.lower m).outcome = .ok after → ∃ calls, after = m.run calls

namespace Module

variable [Signature Op]

theorem run_append (m : Module Op) (calls others : List (Call Op)) :
    m.run (calls ++ others) = (m.run calls).run others := by
  induction calls generalizing m with
  | nil => rfl
  | cons call rest ih => exact ih (m.step call)

/-- Calls of which none fails. -/
theorem run_of_performAll {m after : Module Op} {calls : List (Call Op)}
    (h : (m.performAll calls).outcome = .ok after) : after = m.run calls := by
  induction calls generalizing m with
  | nil =>
    cases h
    rfl
  | cons call rest ih =>
    obtain ⟨next, hp, h⟩ := Report.bind_eq_ok.mp h
    rw [run, step_of_ok (perform_eq_ok.mp hp)]
    exact ih h

end Module

/-- The CPU target acts by calls. -/
theorem Cpu.target_byCalls : Cpu.target.ByCalls := fun _ _ h => ⟨_, Module.run_of_performAll h⟩

theorem Plan.run_of_replaceAll {m after : Module Operation} {replacements : List Replacement}
    (h : (replaceAll m replacements).outcome = .ok after) : ∃ calls, after = m.run calls := by
  induction replacements generalizing m with
  | nil =>
    cases h
    exact ⟨[], rfl⟩
  | cons r rest ih =>
    unfold replaceAll at h
    by_cases hn : r.moduleName = m.name
    · rw [if_pos hn] at h
      obtain ⟨op, _, h⟩ := Report.bind_eq_ok.mp h
      obtain ⟨next, hp, h⟩ := Report.bind_eq_ok.mp h
      obtain ⟨calls, rfl⟩ := ih h
      refine ⟨.replacement r.position op :: calls, ?_⟩
      rw [Module.run, Module.step_of_ok (Module.perform_eq_ok.mp hp)]
    · rw [if_neg hn] at h
      exact ih h

/-- **Targets that are given by a plan act by calls.** -/
theorem Plan.target_byCalls (p : Plan) : p.target.ByCalls := by
  intro m after hlower
  have hrest : ∀ lowered : Module Operation,
      (do
        let replaced ← replaceAll lowered p.replacements
        if p.refused = some m.name then
          Report.ofOutcome (Outcome.fail (.loweringRefused m.name))
        else return replaced).outcome = .ok after → ∃ calls, after = lowered.run calls := by
    intro lowered h
    obtain ⟨replaced, hr, h⟩ := Report.bind_eq_ok.mp h
    by_cases hname : p.refused = some m.name
    · rw [if_pos hname] at h
      cases h
    · rw [if_neg hname] at h
      cases h
      exact run_of_replaceAll hr
  have h : (p.lower m).outcome = .ok after := hlower
  unfold lower at h
  cases hk : p.kernels with
  | false =>
    rw [hk] at h
    exact hrest m h
  | true =>
    rw [hk] at h
    obtain ⟨lowered, hl, h⟩ := Report.bind_eq_ok.mp h
    obtain ⟨calls, rfl⟩ : ∃ calls, lowered = m.run calls := ⟨_, Module.run_of_performAll hl⟩
    obtain ⟨others, rfl⟩ := hrest _ h
    exact ⟨calls ++ others, (Module.run_append m calls others).symm⟩

/-! ## 4. All or nothing -/

namespace Program

/-- Lowering by calls keeps the graph of a module that is complete. -/
theorem graph_of_lower [Signature Op] {t : Target Op Ctx} (ht : t.ByCalls) {m after : Module Op}
    (hm : m.validate = .ok ()) (h : (t.lower m).outcome = .ok after) : after.graph = m.graph := by
  obtain ⟨calls, rfl⟩ := ht m after h
  obtain ⟨r, hr⟩ := Option.ne_none_iff_exists'.mp (Module.returnAt_ne_none_of_validate hm)
  exact Module.graph_run_of_sealed hr calls

theorem modules_withModules {p : Program Op Ctx} {modules : List (Module Op)}
    (h : modules.length = p.modules.length) : (p.withModules modules).modules = modules := by
  cases modules with
  | nil => cases h
  | cons main others => rfl

/-- Modules that are lowered by calls keep their graphs, and their order. -/
theorem graphs_of_lowerAll [Signature Op] {t : Target Op Ctx} (ht : t.ByCalls)
    {modules lowered : List (Module Op)} (h : (t.lowerAll modules).outcome = .ok lowered) :
    lowered.map Module.graph = modules.map Module.graph := by
  have hsteps := Target.lowerAll_eq_ok.mp h
  clear h
  induction hsteps with
  | nil => rfl
  | cons hstep _ ih =>
    have hgraph := graph_of_lower ht hstep.1 hstep.2.1
    rw [List.map_cons, List.map_cons, hgraph, ih]

/-- **A program that was compiled by calls has the graphs that it had**, under the same names. -/
theorem graph_of_compile [Signature Op] {p compiled : Program Op Ctx} {t : Target Op Ctx}
    (ht : t.ByCalls) (h : (p.compile t).outcome = .ok compiled) :
    compiled.modules.map Module.graph = p.modules.map Module.graph := by
  obtain ⟨_, lowered, hl, rfl⟩ := compile_eq_ok_iff.mp h
  have hmodules : (p.withModules lowered).modules = lowered :=
    modules_withModules (Target.lowerAll_eq_ok.mp hl).length_eq.symm
  rw [← graphs_of_lowerAll ht hl]
  exact congrArg (List.map Module.graph) hmodules

/-- **Compiling is all or nothing, and keeps every graph.** Attempts that fail, wherever they do and
    whatever they left of the copies, leave the program as it was, and from then on it is compiled as
    it would have been without them. An attempt that succeeds, for a target that acts on modules by
    calls, keeps the graph of every module -- its name, what its instructions are and read, their
    shapes, parameter names and constants, and its return -- and the settings; all else that it writes
    is the target's name and its context. -/
theorem compile_all_or_nothing [Signature Op] (p : Program Op Ctx) :
    (∀ tries : List (Target Op Ctx × (Module Op → Module Op)),
      (∀ a ∈ tries, ∃ f, (p.compile a.1).outcome = .error f) →
        (∀ a ∈ tries, (p.attempt a.1 a.2).2 = p) ∧ p.attempts tries = p ∧
          ∀ t, (p.attempts tries).compile t = p.compile t) ∧
    ∀ t left compiled, t.ByCalls → (p.compile t).outcome = .ok compiled →
      p.attempt t left = (.ok (), compiled) ∧
      compiled.modules.map Module.graph = p.modules.map Module.graph ∧
      compiled.config = p.config ∧
      compiled.target = some t.name ∧
      compiled.context = t.context := by
  constructor
  · intro tries hfail
    have hsame : p.attempts tries = p := attempts_of_errors hfail
    refine ⟨?_, hsame, ?_⟩
    · intro a ha
      obtain ⟨f, hf⟩ := hfail a ha
      rw [attempt_of_error hf]
    · intro t
      rw [hsame]
  · intro t left compiled ht h
    refine ⟨attempt_of_ok h, graph_of_compile ht h, ?_⟩
    obtain ⟨_, lowered, _, rfl⟩ := compile_eq_ok_iff.mp h
    refine ⟨?_, rfl, rfl⟩
    cases lowered <;> rfl

/-- Calls that give the squares of a parameter back. -/
def squareCalls : List (Call Operation) :=
  [.parameter "x" (.standard .f32 [2]), .instruction (.catalog (.binary ⟨.mul, none⟩)) [0, 0],
    .result [1]]

/-- A main module and an auxiliary one, which are alike. -/
def squares : Program Operation Context where
  main := (Module.new mainName).run squareCalls
  others := [(Module.new "aux").run squareCalls]
  config := default
  target := none
  context := default

/-- The CPU target, except that a module named `aux` is refused when it has its kernels. -/
def refusingAuxiliary : Plan := ⟨"picky", true, [], some "aux", .cpu 0⟩

/-- Refused at the auxiliary module, after the main one was lowered, the program is what it was, and it
    is compiled for the CPU as if it had never been refused. -/
theorem compiled_after_refusal :
    ∃ compiled : Program Operation Context,
      squares.attempts [(refusingAuxiliary.target, id)] = squares ∧
      ((squares.attempts [(refusingAuxiliary.target, id)]).compile Cpu.target).outcome =
        .ok compiled ∧
      compiled.modules.map Module.graph = squares.modules.map Module.graph ∧
      (compiled.main.instruction? 1).map Instruction.kind =
        some (.operation (.kernel ⟨.mul, none⟩)) := by
  have hrefused : ∀ a ∈ [(refusingAuxiliary.target, (id : Module Operation → Module Operation))],
      ∃ f, (squares.compile a.1).outcome = .error f := by
    intro a ha
    cases List.mem_singleton.mp ha
    exact ⟨_, rfl⟩
  obtain ⟨hfail, hsuccess⟩ := compile_all_or_nothing squares
  obtain ⟨_, hsame, hlater⟩ := hfail _ hrefused
  have hcalls : Cpu.target.ByCalls := fun _ _ h => ⟨_, Module.run_of_performAll h⟩
  obtain ⟨compiled, hcompile⟩ : ∃ compiled, (squares.compile Cpu.target).outcome = .ok compiled :=
    ⟨_, rfl⟩
  obtain ⟨_, hgraphs, _⟩ := hsuccess Cpu.target id compiled hcalls hcompile
  refine ⟨compiled, hsame, ?_, hgraphs, ?_⟩
  · rw [hlater]
    exact hcompile
  · cases hcompile
    rfl

end Program

end TensorGraph
