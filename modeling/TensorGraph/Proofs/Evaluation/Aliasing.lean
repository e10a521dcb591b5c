import TensorGraph.Number.Nearest
import TensorGraph.Proofs.Evaluation.Operators
import TensorGraph.Proofs.Evaluation.Steps

/-!
# Which values share a buffer

The values of an evaluation share buffers with each other and with what was there before, and which do can
be told from the graph alone. Each instruction has a source:

    x    parameter            the argument it is bound to
    t    transpose(x)         the same
    c    contiguous(t)        a buffer of its own
    b    broadcast(c, k)      the constant k
    o    outline              nothing

An evaluation that succeeds bears this out: a value has data if its source has, and values share a buffer
if their sources do.

* `Source`, `Place` -- sources, and the buffers they stand for, of which those that an evaluation makes are
  known by the position of the instruction that makes them;
* `Module.sources` -- the sources of the instructions of a module;
* `Tensor.Carries` -- a tensor has the data of a source;
* `Operator.run_carries`, `runInstruction_carries`, `evaluate_carries` -- an operator, an instruction and
  an evaluation give tensors that have the data of their sources;
* `Program.values_alias_sources` -- what this says of an evaluation.

The buffers that an evaluation makes have the identities from `firstBuffer` on. That they are new is an
assumption on whoever chooses it: nothing that was there before has such an identity.
-/

namespace TensorGraph

open Outcome

/-! ## 1. Sources -/

/-- Where data lies. -/
inductive Place where
  /-- A buffer that was there before the evaluation. -/
  | old (identity : Nat)
  /-- The buffer that the instruction at a position makes. -/
  | new (position : Nat)
  deriving DecidableEq

/-- Where a value has its data from. -/
inductive Source where
  /-- A tensor that was there before: an argument or a constant. -/
  | given (value : Tensor)
  /-- The instruction at a position, which makes a buffer. -/
  | made (position : Nat)
  /-- Nowhere: the value has no data. -/
  | nothing

namespace Source

/-- The place of the data, if there is any. -/
def place? : Source → Option Place
  | given value => value.buffer.map fun buffer => .old buffer.identity
  | made position => some (.new position)
  | nothing => none

/-- There is data at the source. -/
def hasData (s : Source) : Bool := s.place?.isSome

/-- The sources have their data in one buffer. -/
def sharesBuffer (s t : Source) : Bool := s.hasData && decide (s.place? = t.place?)

end Source

/-- The source of an operator's result, from those of its operands: the operand that is viewed or handed on,
    or the buffer that the instruction at the position makes. -/
def Operator.source (position : Nat) : Operator → List Source → Source
  | transpose _, [s] | reshape _, [s] | unary .identity, [s] => s
  | broadcast _, [_, s] => s
  | contiguous, _ => .made position
  | _, _ => .nothing

/-- The source of an operation's result. A kernel makes a buffer, and a check of the context gives no
    data. -/
def Operation.source (position : Nat) : Operation → List Source → Source
  | catalog o, sources => o.source position sources
  | kernel _, _ => .made position
  | checkContext _, _ => .nothing

/-- The source of an instruction, from those of the instructions before it. -/
def Instruction.source (bindings : Bindings) (sources : List Source) (ins : Instruction Operation) :
    Source :=
  match ins.kind with
  | .parameter name => ((bindings name).map Source.given).getD .nothing
  | .literal value => .given value
  | .operation op => op.source sources.length (ins.inputs.filterMap (sources[·]?))
  | .result => .nothing

/-- The sources of instructions, one after the other, after the sources that are given. -/
def sourcesAfter (bindings : Bindings) : List Source → List (Instruction Operation) → List Source
  | sources, [] => sources
  | sources, ins :: rest => sourcesAfter bindings (sources ++ [ins.source bindings sources]) rest

/-- The sources of a module's instructions. -/
def Module.sources (m : Module Operation) (bindings : Bindings) : List Source :=
  sourcesAfter bindings [] m.instructions

/-- Each source is that of its instruction over the sources before it. -/
theorem sourcesAfter_steps (bindings : Bindings) (sources : List Source)
    (instructions : List (Instruction Operation)) :
    ∃ later, sourcesAfter bindings sources instructions = sources ++ later ∧
      later.length = instructions.length ∧
      ∀ (k : Nat) (ins : Instruction Operation), instructions[k]? = some ins →
        later[k]? = some (ins.source bindings (sources ++ later.take k)) :=
  steps_of_collected (fun _ => rfl) (fun _ _ _ => rfl) sources instructions

/-! ## 2. Tensors with the data of a source -/

/-- The identity of the buffer at a place. -/
def Place.identity (firstBuffer : Nat) : Place → Nat
  | old identity => identity
  | new position => firstBuffer + position

namespace Tensor

/-- The tensor was there before the buffers from `firstBuffer` on. -/
def Precedes (x : Tensor) (firstBuffer : Nat) : Prop :=
  ∀ buffer, x.buffer = some buffer → buffer.identity < firstBuffer

/-- The tensor has the data of the source: it reads the buffer at its place, and it has none if there is
    none. What was there before has an identity below `firstBuffer`. -/
structure Carries (firstBuffer : Nat) (x : Tensor) (s : Source) : Prop where
  identity : x.buffer.map Buffer.identity = s.place?.map (Place.identity firstBuffer)
  old : ∀ identity, s.place? = some (.old identity) → identity < firstBuffer

variable {firstBuffer : Nat} {x y : Tensor} {s t : Source}

theorem carries_given (h : x.Precedes firstBuffer) : x.Carries firstBuffer (.given x) where
  identity := by
    unfold Source.place?
    rw [Option.map_map]
    rfl
  old := by
    intro identity hi
    obtain ⟨buffer, hb, he⟩ := Option.map_eq_some_iff.mp hi
    cases he
    exact h buffer hb

theorem carries_made {position : Nat} {buffer : Buffer} (hb : x.buffer = some buffer)
    (h : buffer.identity = firstBuffer + position) : x.Carries firstBuffer (.made position) where
  identity := by
    rw [hb, Option.map_some, h]
    rfl
  old := nofun

theorem carries_nothing (h : x.buffer = none) : x.Carries firstBuffer .nothing where
  identity := by
    rw [h]
    rfl
  old := nofun

/-- Another tensor over the same buffer has the same source. -/
theorem Carries.of_buffer (h : x.Carries firstBuffer s) (hb : y.buffer = x.buffer) :
    y.Carries firstBuffer s where
  identity := by
    rw [hb]
    exact h.identity
  old := h.old

/-- **A tensor has data if its source has.** -/
theorem Carries.hasData_eq (h : x.Carries firstBuffer s) : x.hasData = s.hasData := by
  have hsome := congrArg Option.isSome h.identity
  rwa [Option.isSome_map, Option.isSome_map] at hsome

/-- What was there before and what is made lie in different buffers, so the identity tells the place. -/
theorem place_eq_of_identity {a b : Place} (ha : ∀ identity, a = .old identity → identity < firstBuffer)
    (hb : ∀ identity, b = .old identity → identity < firstBuffer)
    (h : a.identity firstBuffer = b.identity firstBuffer) : a = b := by
  cases a with
  | old identity =>
    have hlt := ha identity rfl
    cases b with
    | old other => exact congrArg Place.old h
    | new position =>
      change identity = firstBuffer + position at h
      omega
  | new position =>
    cases b with
    | old identity =>
      have hlt := hb identity rfl
      change firstBuffer + position = identity at h
      omega
    | new other => exact congrArg Place.new (Nat.add_left_cancel h)

/-- **Tensors share a buffer if their sources do.** -/
theorem Carries.sharesBuffer_eq (hx : x.Carries firstBuffer s) (hy : y.Carries firstBuffer t) :
    x.sharesBuffer y = s.sharesBuffer t := by
  have hdx := hx.hasData_eq
  have hdy := hy.hasData_eq
  have hix := hx.identity
  have hiy := hy.identity
  unfold Tensor.sharesBuffer Source.sharesBuffer
  unfold Tensor.hasData Source.hasData at hdx hdy
  unfold Source.hasData
  cases hs : s.place? with
  | none =>
    rw [hs, Option.isSome_none, Option.isSome_eq_false_iff, Option.isNone_iff_eq_none] at hdx
    rw [hdx]
    rfl
  | some a =>
    rw [hs] at hix
    obtain ⟨buffer, hb, ha⟩ := Option.map_eq_some_iff.mp hix
    rw [hb]
    cases ht : t.place? with
    | none =>
      rw [ht, Option.isSome_none, Option.isSome_eq_false_iff, Option.isNone_iff_eq_none] at hdy
      rw [hdy]
      rfl
    | some b =>
      rw [ht] at hiy
      obtain ⟨other, ho, hb'⟩ := Option.map_eq_some_iff.mp hiy
      rw [ho]
      show (buffer.identity == other.identity) = decide (some a = some b)
      rw [ha, hb', Bool.eq_iff_iff, beq_iff_eq, decide_eq_true_iff, Option.some.injEq]
      exact ⟨place_eq_of_identity (fun i h => hx.old i (hs.trans (congrArg some h)))
        fun i h => hy.old i (ht.trans (congrArg some h)), congrArg _⟩

end Tensor

/-! ## 3. Operations -/

section Operations

variable {firstBuffer position : Nat} {args : List Tensor} {sources : List Source} {y : Tensor}
  {output : Shape}

/-- **An operator gives a tensor with the data of its source.** -/
theorem Operator.run_carries {o : Operator} (h : List.Forall₂ (Tensor.Carries firstBuffer) args sources)
    (hr : o.run output args (firstBuffer + position) = .ok y) :
    y.Carries firstBuffer (o.source position sources) := by
  cases o with
  | convolution c => cases hr
  | pooling p => cases hr
  | gemm => cases hr
  | activation mode => cases hr
  | binary b => cases hr
  | unary f =>
    obtain ⟨rfl, rfl⟩ := UnaryFunction.run_eq_ok.mp hr
    obtain ⟨s, _, hs, hnil, rfl⟩ := List.forall₂_cons_left_iff.mp h
    cases hnil
    exact hs
  | transpose dims =>
    obtain ⟨x, hx, hv⟩ := bind_eq_ok.mp hr
    cases oneArgument_eq_ok.mp hx
    obtain ⟨rfl, _⟩ := Tensor.view_eq_ok.mp hv
    obtain ⟨s, _, hs, hnil, rfl⟩ := List.forall₂_cons_left_iff.mp h
    cases hnil
    exact hs.of_buffer rfl
  | contiguous =>
    obtain ⟨x, _, hc⟩ := bind_eq_ok.mp hr
    obtain ⟨storage, _, hb⟩ := bind_eq_ok.mp (withOperator_eq_ok.mp hc)
    obtain ⟨rfl, _⟩ := Tensor.ofBuffer_eq_ok.mp hb
    exact Tensor.carries_made rfl rfl
  | reshape dims =>
    obtain ⟨x, hx, hv⟩ := bind_eq_ok.mp hr
    cases oneArgument_eq_ok.mp hx
    simp only [failIn_bind, checkIn_eq_ok] at hv
    obtain ⟨rfl, _⟩ := Tensor.view_eq_ok.mp hv.2
    obtain ⟨s, _, hs, hnil, rfl⟩ := List.forall₂_cons_left_iff.mp h
    cases hnil
    exact hs.of_buffer rfl
  | broadcast axis =>
    obtain ⟨target, x, rfl, hv⟩ := Alignment.run_eq_ok.mp hr
    obtain ⟨rfl, _⟩ := Tensor.view_eq_ok.mp hv
    obtain ⟨_, _, _, hrest, rfl⟩ := List.forall₂_cons_left_iff.mp h
    obtain ⟨s, _, hs, hnil, rfl⟩ := List.forall₂_cons_left_iff.mp hrest
    cases hnil
    exact hs.of_buffer rfl
  | outline shape =>
    cases hr
    exact Tensor.carries_nothing rfl

/-- A kernel gives a tensor over a buffer that it makes. -/
theorem Kernel.compute_carries [ShortFloats] {b : Binary}
    (hr : Kernel.compute b output args (firstBuffer + position) = .ok y) :
    y.Carries firstBuffer (.made position) := by
  unfold compute at hr
  split at hr
  · obtain ⟨_, _, hr⟩ := bind_eq_ok.mp hr
    obtain ⟨_, _, hr⟩ := bind_eq_ok.mp hr
    obtain ⟨_, _, hr⟩ := bind_eq_ok.mp hr
    obtain ⟨rfl, _⟩ := Tensor.ofBuffer_eq_ok.mp hr
    exact Tensor.carries_made rfl rfl
  · cases hr

/-- **An operation gives a tensor with the data of its source.** -/
theorem Operation.run_carries [ShortFloats] {op : Operation} {before after : Context}
    (h : List.Forall₂ (Tensor.Carries firstBuffer) args sources)
    (hr : op.run output args (firstBuffer + position) before = (.ok y, after)) :
    y.Carries firstBuffer (op.source position sources) := by
  cases op with
  | catalog o => exact Operator.run_carries h (congrArg Prod.fst hr)
  | kernel b =>
    change Kernel.run b output args (firstBuffer + position) before = (.ok y, after) at hr
    unfold Kernel.run at hr
    split at hr
    · cases hr
    · exact Kernel.compute_carries (congrArg Prod.fst hr)
  | checkContext expected =>
    have hcheck : (before.expect expected (checkContext expected).name >>= fun _ => pure Tensor.empty) =
        .ok y := congrArg Prod.fst hr
    obtain ⟨_, _, hy⟩ := bind_eq_ok.mp hcheck
    cases hy
    exact Tensor.carries_nothing rfl

end Operations

/-! ## 4. Instructions -/

section Instructions

variable {config : Config} {bindings : Bindings} {firstBuffer : Nat} {values : List Tensor}
  {sources : List Source}

/-- The operands have the data of the sources at their positions. -/
theorem operandValues_carries (h : List.Forall₂ (Tensor.Carries firstBuffer) values sources)
    {inputs : List Nat} {args : List Tensor} (ha : operandValues values inputs = .ok args) :
    List.Forall₂ (Tensor.Carries firstBuffer) args (inputs.filterMap (sources[·]?)) := by
  unfold operandValues at ha
  induction inputs generalizing args with
  | nil =>
    cases ha
    exact .nil
  | cons i rest ih =>
    rw [List.mapM_cons] at ha
    obtain ⟨x, hx, ha⟩ := bind_eq_ok.mp ha
    obtain ⟨others, ho, ha⟩ := bind_eq_ok.mp ha
    cases ha
    obtain ⟨hlt, hx⟩ := List.getElem?_eq_some_iff.mp (ofOption_eq_ok.mp hx)
    have hs : i < sources.length := h.length_eq ▸ hlt
    have hcarries : x.Carries firstBuffer sources[i] := hx ▸ h.get hlt hs
    rw [List.filterMap_cons, List.getElem?_eq_getElem hs]
    exact .cons hcarries (ih ho)

/-- **An instruction gives a value with the data of its source**, if the values before it are of this
    kind. -/
theorem runInstruction_carries [ShortFloats]
    (hbound : ∀ name x, bindings name = some x → x.Precedes firstBuffer)
    {ins : Instruction Operation} (hliteral : ∀ x, ins.kind = .literal x → x.Precedes firstBuffer)
    (h : List.Forall₂ (Tensor.Carries firstBuffer) values sources) {before after : Context}
    {value : Tensor}
    (hr : runInstruction config bindings firstBuffer values ins before = (.ok value, after)) :
    value.Carries firstBuffer (ins.source bindings sources) := by
  unfold runInstruction at hr
  unfold Instruction.source
  cases hk : ins.kind with
  | parameter name =>
    rw [hk] at hr
    dsimp only at hr ⊢
    cases hb : bindings name with
    | none =>
      rw [hb] at hr
      cases hr
    | some bound =>
      rw [hb] at hr
      cases hr
      exact Tensor.carries_given (hbound name value hb)
  | literal constant =>
    rw [hk] at hr
    cases hr
    exact Tensor.carries_given (hliteral value hk)
  | result =>
    rw [hk] at hr
    cases hr
    exact Tensor.carries_nothing rfl
  | operation op =>
    rw [hk] at hr
    obtain ⟨args, ha, hrun, _⟩ := runOperation_eq_ok.mp hr
    rw [h.length_eq] at hrun
    exact Operation.run_carries (operandValues_carries h ha) hrun

/-- **So does an evaluation, instruction by instruction.** -/
theorem evaluate_carries [ShortFloats]
    (hbound : ∀ name x, bindings name = some x → x.Precedes firstBuffer)
    {instructions : List (Instruction Operation)}
    (hliterals : ∀ ins ∈ instructions, ∀ x, ins.kind = .literal x → x.Precedes firstBuffer)
    (h : List.Forall₂ (Tensor.Carries firstBuffer) values sources) {ctx : Context}
    (hok : (evaluate config bindings firstBuffer instructions values ctx).outcome = .ok ()) :
    List.Forall₂ (Tensor.Carries firstBuffer)
      (evaluate config bindings firstBuffer instructions values ctx).values
      (sourcesAfter bindings sources instructions) := by
  induction instructions generalizing values sources ctx with
  | nil => exact h
  | cons ins rest ih =>
    rw [evaluate] at hok ⊢
    rcases hr : runInstruction config bindings firstBuffer values ins ctx with ⟨outcome, after⟩
    obtain ⟨hfirst, hrest⟩ := List.forall_mem_cons.mp hliterals
    cases outcome with
    | error f =>
      rw [hr] at hok
      cases hok
    | ok value =>
      rw [hr] at hok
      have hvalue := runInstruction_carries hbound hfirst h hr
      exact ih hrest (List.rel_append h (.cons hvalue .nil)) hok

end Instructions

/-! ## 5. Programs -/

namespace Program

/-- **Values share buffers as their sources do.** Let the evaluation of a program succeed, where the tensors
    that the parameters are bound to and the constants of the main module were there before it. Then every
    instruction has a value and a source, which is the argument of a parameter, the constant of a constant,
    the source of the operand of a transpose, a reshape or an identity, that of the second operand of a
    broadcast, a buffer of its own for a copy and for a kernel, and nothing for all else. A value has data
    exactly if its source has. It shares a buffer with another value exactly if their sources do, and with
    an argument or a constant exactly if its source does. The results are the values that the return
    reads. -/
theorem values_alias_sources [ShortFloats] {p : Program Operation Context} {bindings : Bindings}
    {firstBuffer : Nat}
    {outs : List Tensor} (hbound : ∀ name x, bindings name = some x → x.Precedes firstBuffer)
    (hliterals : ∀ ins ∈ p.main.instructions, ∀ x, ins.kind = .literal x → x.Precedes firstBuffer)
    (heval : (p.eval bindings firstBuffer).outcome = .ok outs) :
    let values := p.values bindings firstBuffer
    let sources := p.main.sources bindings
    values.length = p.main.size ∧
    (∀ i ins, p.main.instruction? i = some ins →
      sources[i]? = some (ins.source bindings (sources.take i))) ∧
    (∀ (i : Nat) (x : Tensor) (s : Source), values[i]? = some x → sources[i]? = some s →
      x.hasData = s.hasData ∧
      (∀ (j : Nat) (y : Tensor) (t : Source), values[j]? = some y → sources[j]? = some t →
        x.sharesBuffer y = s.sharesBuffer t) ∧
      (∀ name y, bindings name = some y → x.sharesBuffer y = s.sharesBuffer (.given y)) ∧
      ∀ ins ∈ p.main.instructions, ∀ y, ins.kind = .literal y →
        x.sharesBuffer y = s.sharesBuffer (.given y)) ∧
    ∃ position, p.main.returnAt = some position ∧ p.results position values = .ok outs := by
  intro values sources
  obtain ⟨position, hreturn, _, he, hresults⟩ := eval_eq_ok.mp heval
  obtain ⟨later, hsources, hlength, hsteps⟩ := sourcesAfter_steps bindings [] p.main.instructions
  have hlater : sources = later := hsources
  have hcarries : List.Forall₂ (Tensor.Carries firstBuffer) values sources :=
    evaluate_carries hbound hliterals .nil he
  have hat : ∀ {i : Nat} {x : Tensor} {s : Source}, values[i]? = some x → sources[i]? = some s → x.Carries firstBuffer s := by
    intro i x s hx hs
    obtain ⟨hi, rfl⟩ := List.getElem?_eq_some_iff.mp hx
    obtain ⟨hj, rfl⟩ := List.getElem?_eq_some_iff.mp hs
    exact hcarries.get hi hj
  refine ⟨?_, ?_, fun i x s hx hs => ?_, position, hreturn, hresults⟩
  · rw [hcarries.length_eq, hlater]
    exact hlength
  · rw [hlater]
    exact hsteps
  · have hxs := hat hx hs
    refine ⟨hxs.hasData_eq, fun j y t hy ht => ?_, fun name y hy => ?_, fun ins hins y hy => ?_⟩
    · exact hxs.sharesBuffer_eq (hat hy ht)
    · exact hxs.sharesBuffer_eq (Tensor.carries_given (hbound name y hy))
    · exact hxs.sharesBuffer_eq (Tensor.carries_given (hliterals ins hins y hy))

/-- A matrix of two rows. -/
def twoRows : Tensor := ⟨.standard .u8 [2, 3], some ⟨4, .ofPatterns .u8 [0, 1, 2, 3, 4, 5]⟩⟩

/-- A constant of one element. -/
def oneCell : Tensor := ⟨.standard .u8 [1], some ⟨5, .ofPatterns .u8 [9]⟩⟩

/-- Calls that transpose a matrix, copy that, and lay a constant over the copy. -/
def copyingOverCalls : List (Call Operation) :=
  [.parameter "x" twoRows.shape, .parameter "y" twoRows.shape,
    .instruction (.catalog (.transpose [1, 0])) [0], .instruction (.catalog .contiguous) [2],
    .literal oneCell, .instruction (.catalog (.broadcast 0)) [3, 4],
    .instruction (.catalog (.unary .identity)) [5],
    .instruction (.catalog (.outline twoRows.shape)) [], .result [2, 3, 6, 7]]

/-- The program of these calls. -/
def copyingOver : Program Operation Context :=
  { Program.new default with main := (Module.new mainName).run copyingOverCalls }

theorem values_copyingOver : copyingOver.values (fun _ => some twoRows) 6 =
    [twoRows, twoRows, ⟨⟨.u8, [⟨3, 1⟩, ⟨2, 3⟩]⟩, twoRows.buffer⟩,
      ⟨.standard .u8 [3, 2], some ⟨9, .ofPatterns .u8 [0, 3, 1, 4, 2, 5]⟩⟩, oneCell,
      ⟨⟨.u8, [⟨3, 0⟩, ⟨2, 0⟩]⟩, oneCell.buffer⟩, ⟨⟨.u8, [⟨3, 0⟩, ⟨2, 0⟩]⟩, oneCell.buffer⟩,
      .placeholder twoRows.shape, .empty] := rfl

theorem sources_copyingOver : copyingOver.main.sources (fun _ => some twoRows) =
    [.given twoRows, .given twoRows, .given twoRows, .made 3, .given oneCell, .given oneCell,
      .given oneCell, .nothing, .nothing] := rfl

theorem eval_copyingOver : (copyingOver.eval (fun _ => some twoRows) 6).outcome =
    .ok [⟨⟨.u8, [⟨3, 1⟩, ⟨2, 3⟩]⟩, twoRows.buffer⟩,
      ⟨.standard .u8 [3, 2], some ⟨9, .ofPatterns .u8 [0, 3, 1, 4, 2, 5]⟩⟩,
      ⟨⟨.u8, [⟨3, 0⟩, ⟨2, 0⟩]⟩, oneCell.buffer⟩, .placeholder twoRows.shape] := rfl

/-- Both parameters are bound to one matrix. What is transposed shares the buffer of the other parameter, the
    copy shares none with it, what is laid over the copy shares that of the constant, and the outline has
    no data. -/
theorem matrix_copied_over :
    (∀ name x, (fun _ => some twoRows : Bindings) name = some x → x.Precedes 6) ∧
    (∀ ins ∈ copyingOver.main.instructions, ∀ x, ins.kind = .literal x → x.Precedes 6) ∧
    ∃ transposed copied laid outline : Tensor,
      (copyingOver.eval (fun _ => some twoRows) 6).outcome =
        .ok [transposed, copied, laid, outline] ∧
      transposed.sharesBuffer twoRows = true ∧ copied.sharesBuffer transposed = false ∧
      laid.sharesBuffer copied = false ∧ laid.sharesBuffer oneCell = true ∧
      outline.hasData = false := by
  have hbound : ∀ name x, (fun _ => some twoRows : Bindings) name = some x → x.Precedes 6 := by
    intro _ x h buffer hb
    cases h
    cases hb
    decide
  have hliterals : ∀ ins ∈ copyingOver.main.instructions, ∀ x, ins.kind = .literal x →
      x.Precedes 6 := by
    intro ins hins x hk buffer hb
    have hmem := Module.literal_mem_of_run (show ins ∈ Module.instructions (.run _ _) from hins) hk
    have hx : x = oneCell := by simpa [copyingOverCalls] using hmem
    rw [hx] at hb
    cases hb
    decide
  obtain ⟨_, _, hshares, _⟩ := values_alias_sources hbound hliterals eval_copyingOver
  rw [values_copyingOver, sources_copyingOver] at hshares
  have htransposed := hshares 2 _ _ rfl rfl
  have hcopied := hshares 3 _ _ rfl rfl
  have hlaid := hshares 6 _ _ rfl rfl
  exact ⟨hbound, hliterals, _, _, _, _, eval_copyingOver, htransposed.2.2.1 "y" twoRows rfl,
    hcopied.2.1 2 _ _ rfl rfl, hlaid.2.1 3 _ _ rfl rfl, hlaid.2.1 4 _ _ rfl rfl,
    (hshares 7 _ _ rfl rfl).1⟩

end Program

end TensorGraph
