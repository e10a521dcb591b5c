import TensorGraph.Error

/-!
# Reports

Some computations tell an observer what they do. Each message is a record with a level; the
records of a computation are part of its result and are kept when it fails, in the order in which
they were emitted.

`Report` is an outcome with its records. It is a monad, and what follows a failure is not done,
so a report reads like an outcome: **the outcome of a sequence of steps does not depend on the
records** (`Report.outcome_bind`).
-/

namespace TensorGraph

/-- The levels of records. -/
inductive Level where
  | debug
  | info
  | trace
  deriving DecidableEq, Repr

/-- The name of a level. -/
def Level.name : Level → String
  | debug => "DEBUG"
  | info => "INFO"
  | trace => "TRACE"

/-- A message to an observer. -/
structure Record where
  level : Level
  message : String
  deriving DecidableEq, Repr

/-- The level and the message of a record. -/
def Record.text (r : Record) : String := r.level.name ++ " " ++ r.message

/-- An outcome with the records emitted on the way. -/
structure Report (α : Type) where
  outcome : Outcome α
  records : List Record

namespace Report

variable {α β : Type}

/-- An outcome that emits nothing. -/
def ofOutcome (outcome : Outcome α) : Report α := ⟨outcome, []⟩

/-- Emits one record. -/
def emit (level : Level) (message : String) : Report Unit := ⟨.ok (), [⟨level, message⟩]⟩

/-- Goes on with the value, unless there is none. -/
def bind (r : Report α) (next : α → Report β) : Report β :=
  match r.outcome with
  | .ok a => ⟨(next a).outcome, r.records ++ (next a).records⟩
  | .error f => ⟨.error f, r.records⟩

/-- Steps of a report follow one another by `bind`. -/
instance : Monad Report where
  pure a := ofOutcome (.ok a)
  bind := bind

/-- An outcome is a report that emits nothing. -/
instance : MonadLift Outcome Report := ⟨ofOutcome⟩

@[simp] theorem outcome_pure (a : α) : (pure a : Report α).outcome = .ok a := rfl

@[simp] theorem records_pure (a : α) : (pure a : Report α).records = [] := rfl

@[simp] theorem outcome_ofOutcome (o : Outcome α) : (ofOutcome o).outcome = o := rfl

@[simp] theorem outcome_emit (level : Level) (message : String) :
    (emit level message).outcome = .ok () := rfl

/-- **The outcome of a sequence of steps does not depend on the records.** -/
theorem outcome_bind (r : Report α) (next : α → Report β) :
    (r >>= next).outcome = r.outcome.bind fun a => (next a).outcome := by
  change (Report.bind r next).outcome = _
  cases h : r.outcome <;> simp [Report.bind, h, Except.bind]

end Report

end TensorGraph
