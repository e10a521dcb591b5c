import TensorGraph.Error

/-!
# Contexts

A context is what a target hands to the kernels of its operators. A program that was compiled for
no target runs with the null context. An operator that needs a context of a certain type asks for
it by type, and gets an error instead of a wrong context.

* `Context.kind` -- the type of a context, and `ContextKind.typeName` the name errors give it;
* `Context.expect` -- nothing if the context has the expected type, else an error in the name of
  the operator that asked;
* `Context.countKernel` -- one more kernel has run on the CPU.
-/

namespace TensorGraph

/-- The types of contexts. -/
inductive ContextKind where
  | null
  | cpu
  | int
  deriving DecidableEq, Repr

/-- A context. -/
inductive Context where
  | null
  /-- The CPU, with the number of kernels it has run. -/
  | cpu (kernelsRun : Nat)
  /-- A bare number. -/
  | int (value : Int)
  deriving DecidableEq, Repr

/-- The name under which texts know a context type. -/
def ContextKind.typeName : ContextKind → String
  | null => "lynx_core::context::NullContext"
  | cpu => "lynx_driver::common::CpuContext"
  | int => "i32"

namespace Context

/-- A program that is not compiled runs with the null context. -/
instance : Inhabited Context := ⟨.null⟩

/-- The type of a context. -/
def kind : Context → ContextKind
  | null => .null
  | cpu _ => .cpu
  | int _ => .int

/-- The text of a context: its type. -/
def text (c : Context) : String := "Context(" ++ c.kind.typeName ++ ")"

/-- The number of kernels the CPU has run; no other context runs any. -/
def kernelsRun : Context → Nat
  | cpu n => n
  | _ => 0

/-- The bare number of a context, zero if it is none. -/
def number : Context → Int
  | int value => value
  | _ => 0

/-- The context has the expected type, or the operator that asked gets an error. -/
def expect (c : Context) (expected : ContextKind) (operator : String) : Outcome Unit :=
  if c.kind = expected then .ok ()
  else Outcome.failIn operator (.contextType expected.typeName c.kind.typeName)

/-- The CPU context after one more kernel; any other context is an error of the operator. -/
def countKernel (c : Context) (operator : String) : Outcome Context :=
  match c with
  | cpu n => .ok (cpu (n + 1))
  | _ => Outcome.failIn operator (.contextType ContextKind.cpu.typeName c.kind.typeName)

/-- A bare number changed by `change`; any other context is an error of the operator. -/
def changeInt (c : Context) (change : Int → Int) (operator : String) : Outcome Context :=
  match c with
  | int value => .ok (int (change value))
  | _ => Outcome.failIn operator (.contextType ContextKind.int.typeName c.kind.typeName)

end Context

end TensorGraph
