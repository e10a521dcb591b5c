import TensorGraph.Config
import TensorGraph.Target

/-!
# Programs

A program is a main module and further modules under names of their own, together with the switches
of its evaluation, the target it was compiled for, if any, and the context its operators run in.

* `Program.new` -- one empty module named `main`, compiled for nothing;
* `Program.addModule` -- one more empty module under a new name;
* `Program.compile` -- lowers every module for a target. It can be done once, and it is all or
  nothing: a program that could not be compiled is what it was.
-/

namespace TensorGraph

/-- Modules with what it takes to evaluate the main one. -/
structure Program (Op Ctx : Type) where
  main : Module Op
  /-- The modules beside the main one, in the order in which they were added. -/
  others : List (Module Op)
  config : Config
  /-- The name of the target the program was compiled for. -/
  target : Option String
  context : Ctx

namespace Program

variable {Op Ctx : Type}

/-- The name of the module that is evaluated. -/
def mainName : String := "main"

/-- A program with an empty main module. -/
def new [Inhabited Ctx] (config : Config) : Program Op Ctx :=
  ⟨Module.new mainName, [], config, none, default⟩

/-- The program under other switches. -/
def withConfig (p : Program Op Ctx) (config : Config) : Program Op Ctx := { p with config }

/-- All modules, the main one first. -/
def modules (p : Program Op Ctx) : List (Module Op) := p.main :: p.others

/-- The module of a name. -/
def module? (p : Program Op Ctx) (name : String) : Option (Module Op) :=
  p.modules.find? fun m => m.name == name

/-- Adds an empty module. Its name is new to the program. -/
def addModule (p : Program Op Ctx) (name : String) : Outcome (Program Op Ctx) :=
  if (p.module? name).isSome then Outcome.fail (.moduleExists name)
  else .ok { p with others := p.others ++ [Module.new name] }

/-- The program with other modules in the place of its own. -/
def withModules (p : Program Op Ctx) : List (Module Op) → Program Op Ctx
  | [] => p
  | main :: others => { p with main, others }

/-- Whether the program was compiled. -/
def isCompiled (p : Program Op Ctx) : Bool := p.target.isSome

/-- The program compiled for a target: every module lowered, and the target's context. -/
def compile (p : Program Op Ctx) (t : Target Op Ctx) : Report (Program Op Ctx) :=
  match p.target with
  | some current => Report.ofOutcome (Outcome.fail (.alreadyCompiled current))
  | none => do
    Report.emit .info s!"compiling {p.modules.length} module(s) for target '{t.name}'"
    let lowered ← t.lowerAll p.modules
    Report.emit .info s!"compiled for target '{t.name}'"
    return { p.withModules lowered with target := some t.name, context := t.context }

/-- The listing of a program: each module under a line with its name. -/
def text [Signature Op] (p : Program Op Ctx) : String :=
  String.join (p.modules.map fun m => "module " ++ m.name ++ ":\n" ++ m.text)

end Program

end TensorGraph
