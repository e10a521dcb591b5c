import TensorGraph.Number.Nearest
import TensorGraph.Proofs.Program.Reachable

/-!
# What compiling for the CPU does

The CPU target first notes all arithmetic of a module, and then replaces it, one operator after the other.
Each replacement is a call that may be refused. On a well-formed module none is: a kernel infers what its
arithmetic infers, and a well-formed module keeps for each instruction the shape that is inferred of it now.

* `Cpu.loweredModule` -- a module with kernels in the place of arithmetic, and nothing else changed;
* `Cpu.lower_of_wellFormed`, `Cpu.kernelCalls_accepted` -- lowering a well-formed module gives this, and no
  call is refused on the way;
* `Cpu.lower_loweredModule` -- a lowered module has no arithmetic left, so lowering it again is no call;
* `Program.cpu_lowering_exact` -- hence what compiling a reachable program for the CPU comes to.
-/

namespace TensorGraph

/-! ## 1. Calls none of which fails -/

namespace Module

variable {Op : Type} [Signature Op] {m after : Module Op}

theorem name_run (m : Module Op) (calls : List (Call Op)) : (m.run calls).name = m.name := by
  induction calls generalizing m with
  | nil => rfl
  | cons call rest ih => exact (ih (m.step call)).trans (m.name_step call)

/-- Where calls succeed together, each of them succeeds on what those before it made of the module. -/
theorem apply_of_performAll {front back : List (Call Op)} {call : Call Op}
    (h : (m.performAll (front ++ call :: back)).outcome = .ok after) :
    (m.run front).apply call = .ok ((m.run front).step call) := by
  induction front generalizing m with
  | nil =>
    obtain ⟨next, hp, _⟩ := Report.bind_eq_ok.mp h
    have happly : m.apply call = .ok next := perform_eq_ok.mp hp
    show m.apply call = .ok (m.step call)
    rw [step_of_ok happly, happly]
  | cons first rest ih =>
    obtain ⟨next, hp, h⟩ := Report.bind_eq_ok.mp h
    rw [run, step_of_ok (perform_eq_ok.mp hp)]
    exact ih h

end Module

/-! ## 2. Lowering a well-formed module -/

namespace Cpu

variable {m : Module Operation}

/-- The module with kernels in the place of arithmetic. -/
def loweredModule (m : Module Operation) : Module Operation :=
  { m with instructions := m.instructions.map lowered }

/-- **A kernel is accepted in the place of its arithmetic**, since it infers the same. -/
theorem kernel_accepted (h : m.WellFormed) {position : Nat} {ins : Instruction Operation} {b : Binary}
    (hi : m.instruction? position = some ins) (hk : ins.kind = .operation (.catalog (.binary b))) :
    m.apply (.replacement position (.kernel b)) = .ok (m.replace position ins (.kernel b)) := by
  have hinfer : Operation.infer (.catalog (.binary b)) (m.shapesOf ins.inputs) = .ok ins.shape :=
    h.infer_eq (List.mem_of_getElem? hi) hk
  exact (Module.replaceOperation_eq_ok m _ position (.kernel b)).mpr
    ⟨ins, _, hi, hk, h.readable hi, hinfer, rfl⟩

/-- The calls for the instructions that are left succeed, after those in front were lowered. -/
theorem performAll_kernelCalls_succeeds (h : m.WellFormed) (front : List (Instruction Operation))
    {rest : List (Instruction Operation)} (hm : m.instructions = front ++ rest) :
    ∃ after, (m.performAll (kernelCalls front.length rest)).outcome = .ok after := by
  induction rest generalizing front m with
  | nil => exact ⟨m, rfl⟩
  | cons ins rest ih =>
    have hlen : ∀ found : Instruction Operation, (front ++ [found]).length = front.length + 1 :=
      fun _ => List.length_append
    rw [kernelCalls]
    rcases kernelCall?_cases front.length ins with ⟨hnone, _⟩ | ⟨b, hsome, hk⟩
    · rw [hnone, ← hlen ins]
      exact ih h (front ++ [ins]) (by rw [hm, List.append_assoc]; rfl)
    · rw [hsome, ← hlen (lowered ins)]
      have happly := kernel_accepted h (instruction?_after_front hm) hk
      obtain ⟨after, hafter⟩ := ih (h.apply happly) (front ++ [lowered ins]) (replace_after_front hm hk)
      exact ⟨after, Report.bind_eq_ok.mpr ⟨_, Module.perform_eq_ok.mpr happly, hafter⟩⟩

/-- **Lowering a well-formed module puts kernels in the place of its arithmetic.** -/
theorem lower_of_wellFormed (h : m.WellFormed) : (lower m).outcome = .ok (loweredModule m) := by
  obtain ⟨after, hafter⟩ := performAll_kernelCalls_succeeds h [] (m.instructions.nil_append.symm)
  have hlower : (lower m).outcome = .ok after := hafter
  obtain ⟨hinstructions, hreturn, _⟩ := lower_eq_ok hlower
  have hname : after.name = m.name := by
    rw [Module.run_of_performAll hlower, Module.name_run]
  have hmodule : after = loweredModule m := by
    cases after
    cases hinstructions
    cases hreturn
    cases hname
    rfl
  rw [hlower, hmodule]

/-- **No replacement is refused**, on the module as the replacements before it left it. -/
theorem kernelCalls_accepted (h : m.WellFormed) {front back : List (Call Operation)}
    {call : Call Operation} (hcalls : kernelCalls 0 m.instructions = front ++ call :: back) :
    (m.run front).apply call = .ok ((m.run front).step call) := by
  have hlower := lower_of_wellFormed h
  unfold lower at hlower
  rw [hcalls] at hlower
  exact Module.apply_of_performAll hlower

/-! ## 3. Lowering again -/

/-- Lowering leaves no arithmetic. -/
theorem kernelCalls_lowered (position : Nat) (instructions : List (Instruction Operation)) :
    kernelCalls position (instructions.map lowered) = [] := by
  induction instructions generalizing position with
  | nil => rfl
  | cons ins rest ih =>
    have hnone : kernelCall? position (lowered ins) = none := by
      rcases kernelCall?_cases position ins with ⟨hnone, hne⟩ | ⟨b, _, hk⟩
      · rw [lowered_of_ne hne, hnone]
      · rw [lowered_of_binary hk]
        rfl
    rw [List.map_cons, kernelCalls, hnone, ih]
    rfl

/-- **Lowering a lowered module is no call**, so it changes nothing and tells nothing. -/
theorem lower_loweredModule (m : Module Operation) : lower (loweredModule m) = pure (loweredModule m) := by
  unfold lower
  rw [show kernelCalls 0 (loweredModule m).instructions = [] from kernelCalls_lowered 0 m.instructions]
  rfl

/-- A lowered module has a return where the module has one. -/
theorem result_mem_loweredModule :
    (∃ ins ∈ (loweredModule m).instructions, ins.kind = .result) ↔
      ∃ ins ∈ m.instructions, ins.kind = .result := by
  have hkind : ∀ ins : Instruction Operation, (lowered ins).kind = .result ↔ ins.kind = .result := by
    intro ins
    rcases kernelCall?_cases 0 ins with ⟨_, hne⟩ | ⟨b, _, hk⟩
    · rw [lowered_of_ne hne]
    · rw [lowered_of_binary hk, hk]
      exact ⟨nofun, nofun⟩
  show (∃ ins ∈ m.instructions.map lowered, ins.kind = .result) ↔ _
  simp only [List.mem_map, exists_exists_and_eq_and, hkind]

end Cpu

/-! ## 4. Compiling for the CPU -/

namespace Program

/-- **Well-formed modules are lowered for the CPU if each has a return**, and then they are the lowered
    modules. -/
theorem lowerAll_cpu {modules lowered : List (Module Operation)} (hw : ∀ m ∈ modules, m.WellFormed) :
    (Cpu.target.lowerAll modules).outcome = .ok lowered ↔
      (∀ m ∈ modules, ∃ ins ∈ m.instructions, ins.kind = .result) ∧
        lowered = modules.map Cpu.loweredModule := by
  rw [Target.lowerAll_eq_ok]
  induction modules generalizing lowered with
  | nil =>
    rw [List.forall₂_nil_left_iff]
    exact ⟨fun h => ⟨nofun, h⟩, fun h => h.2⟩
  | cons m rest ih =>
    obtain ⟨hm, hrest⟩ := List.forall_mem_cons.mp hw
    have hlower : (Cpu.target.lower m).outcome = .ok (Cpu.loweredModule m) := Cpu.lower_of_wellFormed hm
    have hlowered : (Cpu.loweredModule m).WellFormed := (Cpu.lower_eq_ok hlower).2.2 hm
    rw [List.forall₂_cons_left_iff, List.forall_mem_cons, List.map_cons]
    constructor
    · intro h
      obtain ⟨after, others, ⟨hbefore, hafter, _⟩, hothers, rfl⟩ := h
      obtain ⟨hresults, rfl⟩ := (ih hrest).mp hothers
      refine ⟨⟨hm.validate_eq_ok.mp hbefore, hresults⟩, ?_⟩
      rw [Except.ok.inj (hafter.symm.trans hlower)]
    · intro h
      obtain ⟨⟨hresult, hresults⟩, rfl⟩ := h
      refine ⟨_, _, ⟨hm.validate_eq_ok.mpr hresult, hlower, ?_⟩, (ih hrest).mpr ⟨hresults, rfl⟩, rfl⟩
      exact hlowered.validate_eq_ok.mpr (Cpu.result_mem_loweredModule.mpr hresult)

/-- **What compiling for the CPU does.** A reachable program that is not compiled can be compiled for the CPU
    exactly when every module has a return. Compiled, it has the same modules with kernels in the place of
    arithmetic, and nothing else is new but the target and a context that has counted nothing. Whether
    compiled or not, each module can be lowered: no kernel is refused in the place of its arithmetic. And
    a lowered module is lowered to itself, without a call. -/
theorem cpu_lowering_exact [ShortFloats] {p : Program Operation Context} (hp : p.Reachable)
    (hn : p.target = none) :
    ((∃ compiled, (p.compile Cpu.target).outcome = .ok compiled) ↔
      ∀ m ∈ p.modules, ∃ ins ∈ m.instructions, ins.kind = .result) ∧
    (∀ compiled, (p.compile Cpu.target).outcome = .ok compiled →
      compiled.modules = p.modules.map Cpu.loweredModule ∧ compiled.config = p.config ∧
      compiled.target = some "cpu" ∧ compiled.context = .cpu 0) ∧
    ∀ m ∈ p.modules,
      (∀ front call back, Cpu.kernelCalls 0 m.instructions = front ++ call :: back →
        ∃ after, (m.run front).apply call = .ok after) ∧
      (Cpu.lower m).outcome = .ok (Cpu.loweredModule m) ∧
      Cpu.lower (Cpu.loweredModule m) = pure (Cpu.loweredModule m) := by
  have hw : ∀ m ∈ p.modules, m.WellFormed := hp.wellFormed
  refine ⟨⟨fun h => ?_, fun h => ?_⟩, fun compiled h => ?_, fun m hm => ⟨?_, ?_, ?_⟩⟩
  · obtain ⟨compiled, h⟩ := h
    obtain ⟨_, lowered, hl, _⟩ := compile_eq_ok_iff.mp h
    exact ((lowerAll_cpu hw).mp hl).1
  · exact ⟨_, compile_eq_ok_iff.mpr ⟨hn, _, (lowerAll_cpu hw).mpr ⟨h, rfl⟩, rfl⟩⟩
  · obtain ⟨_, lowered, hl, rfl⟩ := compile_eq_ok_iff.mp h
    obtain ⟨_, rfl⟩ := (lowerAll_cpu hw).mp hl
    exact ⟨modules_withModules (List.length_map _), rfl, rfl, rfl⟩
  · exact fun front call back hcalls => ⟨_, Cpu.kernelCalls_accepted (hw m hm) hcalls⟩
  · exact Cpu.lower_of_wellFormed (hw m hm)
  · exact Cpu.lower_loweredModule m

/-- Calls that add a bias to the rows of a matrix, check the context, and give the sum back. -/
def biasCalls : List (Call Operation) :=
  [.parameter "x" (.standard .f32 [2, 3]), .parameter "bias" (.standard .f32 [3]),
    .instruction (.catalog (.binary ⟨.add, some 1⟩)) [0, 1], .instruction (.checkContext .cpu) [2],
    .result [2, 3]]

/-- A main module that adds a bias, and an auxiliary one that squares. -/
def biased : Program Operation Context := { squares with main := (Module.new mainName).run biasCalls }

/-- The sum and the square become kernels, and nothing else changes. As long as the auxiliary module is
    empty, the program is not compiled. -/
theorem biased_lowered :
    biased.Reachable ∧
    (∃ compiled, (biased.compile Cpu.target).outcome = .ok compiled ∧
      compiled.main.instructions = biased.main.instructions.set 2
        ⟨.operation (.kernel ⟨.add, some 1⟩), [0, 1], .standard .f32 [2, 3]⟩ ∧
      compiled.modules = biased.modules.map Cpu.loweredModule ∧ compiled.context = .cpu 0) ∧
    ¬ ∃ compiled, (({ biased with others := [Module.new "aux"] } : Program Operation Context).compile
      Cpu.target).outcome = .ok compiled := by
  have hadded : (Program.new default : Program Operation Context).addModule "aux" =
      .ok { (Program.new default : Program Operation Context) with others := [Module.new "aux"] } := rfl
  have hempty : ({ biased with others := [Module.new "aux"] } : Program Operation Context).Reachable :=
    ((Reachable.new default).step (.addModule hadded)).run biasCalls
  have hothers : [Module.new "aux"] = [] ++ (Module.new "aux" : Module Operation) :: [] := rfl
  have hreachable : biased.Reachable := hempty.run_other hothers squareCalls
  have hresults : ∀ m ∈ biased.modules, ∃ ins ∈ m.instructions, ins.kind = .result := by
    refine List.forall_mem_cons.mpr ⟨?_, List.forall_mem_singleton.mpr ?_⟩
    · exact ⟨_, List.mem_of_getElem? (rfl : biased.main.instructions[4]? = some _), rfl⟩
    · exact ⟨_, List.mem_of_getElem?
        (rfl : ((Module.new "aux").run squareCalls).instructions[2]? = some _), rfl⟩
  obtain ⟨hiff, hlowered, _⟩ := cpu_lowering_exact hreachable rfl
  obtain ⟨compiled, hcompiled⟩ := hiff.mpr hresults
  obtain ⟨hmodules, _, _, hcontext⟩ := hlowered compiled hcompiled
  have hmain : compiled.main = Cpu.loweredModule biased.main := (List.cons.inj hmodules).1
  refine ⟨hreachable, ⟨compiled, hcompiled, ?_, hmodules, hcontext⟩, fun h => ?_⟩
  · rw [hmain]
    rfl
  · obtain ⟨_, hin, _⟩ := (cpu_lowering_exact hempty rfl).1.mp h (Module.new "aux") (by simp [modules])
    cases hin

end Program

end TensorGraph
