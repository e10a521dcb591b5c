import TensorGraph.Proofs.Evaluation.Soundness
import TensorGraph.Proofs.Tensor.Reading

/-!
# Shapes are inferred once

Shapes are checked while a module is built, and an evaluation has nothing more to find out about them.
Where the parameters are bound to tensors of their shapes, each operation is given arguments of the
shapes that inference saw, so their number and their axes are right; and a view reaches no further than
the tensor that it views, so the buffer is always long enough.

What is left are refusals (`Operation.Refuses`): an operator without a kernel, a reshape of a tensor that
is not row-major, a copy of a placeholder, and a context of another type.

* `Operator.fits_of_viewed` -- the shape inferred for a view fits what is viewed;
* `Operation.run_or_refuses` -- an operation gives a backed tensor of its shape, or refuses;
* `Module.Ready.runInstruction`, `Module.Ready.evaluate` -- so does an instruction after values that are
  right, and hence the first instruction that fails is one that refuses;
* `Program.evaluation_progress` -- an evaluation gives results, or ends at an operation that refuses.

Of a shape only the elements have to be counted in a word, with every partial product of the lengths from
the left. Where they are, the reach of a view is a word too, for the tensor that is viewed was compared with
its buffer.
-/

namespace TensorGraph

open Outcome

/-! ## 1. Views that fit -/

/-- The argument that an operator views through the inferred shape. A reshape views it only if it is
    row-major. -/
def Operator.viewed? : Operator → List Tensor → Option Tensor
  | transpose _, [x] => some x
  | reshape _, [x] => if x.shape.isStandard then some x else none
  | broadcast _, [_, x] => some x
  | _, _ => none

/-- What is viewed is the only argument of a transpose, or of a reshape if it is row-major, or the second
    argument of a broadcast. -/
theorem Operator.viewed_cases {o : Operator} {args : List Tensor} {x : Tensor}
    (h : o.viewed? args = some x) :
    (∃ dims, o = .transpose dims ∧ args = [x]) ∨
      (∃ dims, o = .reshape dims ∧ args = [x] ∧ x.shape.isStandard = true) ∨
      ∃ axis target, o = .broadcast axis ∧ args = [target, x] := by
  unfold viewed? at h
  split at h
  · cases h
    exact Or.inl ⟨_, rfl, rfl⟩
  · split at h
    · rename_i hs
      cases h
      exact Or.inr (Or.inl ⟨_, rfl, rfl, hs⟩)
    · cases h
  · cases h
    exact Or.inr (Or.inr ⟨_, _, rfl, rfl⟩)
  · cases h

theorem Operator.mem_of_viewed {o : Operator} {args : List Tensor} {x : Tensor}
    (h : o.viewed? args = some x) : x ∈ args := by
  rcases viewed_cases h with ⟨_, _, rfl⟩ | ⟨_, _, rfl, _⟩ | ⟨_, target, _, rfl⟩
  · exact List.mem_cons_self
  · exact List.mem_cons_self
  · exact List.mem_cons_of_mem target List.mem_cons_self

/-- To run an operator that views an argument is to view it. -/
theorem Operator.run_of_viewed {o : Operator} {args : List Tensor} {x : Tensor}
    (h : o.viewed? args = some x) (output : Shape) (identity : Nat) :
    o.run output args identity = x.view output := by
  rcases viewed_cases h with ⟨_, rfl, rfl⟩ | ⟨_, rfl, rfl, hs⟩ | ⟨_, _, rfl, rfl⟩
  · rfl
  · exact (Reshape.run_one output x).trans (if_pos hs)
  · rfl

/-- **The shape inferred for a view fits what is viewed**: the element type is the same; a transposed
    tensor reaches as far as before, and so does a reshaped one; a broadcast reaches no further than the
    operand. -/
theorem Operator.fits_of_viewed {o : Operator} {args : List Tensor} {x : Tensor} {output : Shape}
    (hi : o.infer (args.map Tensor.shape) = .ok output) (h : o.viewed? args = some x) :
    output.elementType = x.shape.elementType ∧ output.bufferReach ≤ x.shape.bufferReach := by
  rcases viewed_cases h with ⟨dims, rfl, rfl⟩ | ⟨dims, rfl, rfl, hs⟩ | ⟨axis, target, rfl, rfl⟩
  · obtain ⟨_, he, hl, hp, rfl⟩ := Transpose.infer_eq_ok.mp hi
    cases he
    exact ⟨rfl, Nat.le_of_eq (Transpose.bufferReach_permuted hp hl)⟩
  · exact ⟨(Reshape.kept_of_infer hi).1, Nat.le_of_eq (Reshape.bufferReach_of_infer hi hs)⟩
  · obtain ⟨_, _, he, hbroadcast⟩ := Alignment.infer_eq_ok.mp hi
    cases he
    exact ⟨(Shape.kept_of_broadcast hbroadcast).2, Shape.bufferReach_le_of_broadcast hbroadcast⟩

/-- **A view never fails where the inferred shape has a word of elements.** -/
theorem Operator.view_of_viewed {o : Operator} {args : List Tensor} {x : Tensor} {output : Shape}
    (hi : o.infer (args.map Tensor.shape) = .ok output) (hc : Word.Countable output.lengths)
    (h : o.viewed? args = some x) (hx : x.Backed) :
    x.view output = .ok ⟨output, x.buffer⟩ := by
  obtain ⟨ht, hr⟩ := fits_of_viewed hi h
  exact hx.view_eq ht hc hr

/-! ## 2. Refusals -/

/-- The operator can be computed without a target. -/
def Operator.hasKernel : Operator → Bool
  | transpose _ | contiguous | reshape _ | broadcast _ | outline _ => true
  | unary f => decide (f = .identity)
  | _ => false

/-- Why an operation that is no kernel gives no value, although its arguments have the right shapes. -/
inductive Operation.Refuses (args : List Tensor) (ctx : Context) : Operation → Cause → Prop where
  | noKernel {o : Operator} : o.hasKernel = false → Refuses args ctx (.catalog o) .noKernel
  | strided {dims : List Int} {x : Tensor} : args = [x] → x.shape.isStandard = false →
      Refuses args ctx (.catalog (.reshape dims)) .noKernel
  | noData {x : Tensor} : args = [x] → x.hasData = false →
      Refuses args ctx (.catalog .contiguous) (.noData x.shape)
  | otherContext {expected : ContextKind} : ctx.kind ≠ expected →
      Refuses args ctx (.checkContext expected) (.contextType expected.typeName ctx.kind.typeName)

section Refusals

variable {args : List Tensor} {ctx : Context} {output : Shape}

/-- No refusal is about shapes, attributes or the structure of a graph. -/
theorem Operation.Refuses.kind {op : Operation} {cause : Cause} (h : op.Refuses args ctx cause) :
    cause.kind = .notComputable ∨ cause.kind = .contextTypeMismatch ∨ cause.kind = .other := by
  cases h with
  | noKernel _ => exact Or.inl rfl
  | strided _ _ => exact Or.inl rfl
  | noData _ _ => exact Or.inr (Or.inr rfl)
  | otherContext _ => exact Or.inr (Or.inl rfl)

/-- No function of one operand but the identity has a kernel. -/
theorem UnaryFunction.run_of_ne {f : UnaryFunction} (hf : f ≠ .identity) (args : List Tensor) :
    f.run args = failIn f.name .noKernel := by
  unfold run
  split
  · exact absurd rfl hf
  · rfl

/-- A copy is there, or there are no data to copy. -/
theorem Contiguous.run_or_refuses {x : Tensor} (hx : x.Backed) (identity : Nat) :
    (∃ y, Contiguous.run [x] identity = .ok y) ∨
      x.hasData = false ∧ Contiguous.run [x] identity = failIn name (.noData x.shape) := by
  have hrun : Contiguous.run [x] identity = (x.contiguous identity).withOperator name := rfl
  rw [hrun]
  cases hb : x.buffer with
  | some buffer =>
    obtain ⟨y, hy⟩ := hx.exists_contiguous hb identity
    exact Or.inl ⟨y, withOperator_eq_ok.mpr hy⟩
  | none =>
    have hcontiguous : x.contiguous identity = fail (.noData x.shape) := by
      unfold Tensor.contiguous Tensor.gathered Tensor.storage
      rw [hb]
      rfl
    refine Or.inr ⟨?_, ?_⟩
    · unfold Tensor.hasData
      rw [hb]
      rfl
    · rw [hcontiguous]
      rfl

/-- **An operator of the catalog gives a value, or refuses in its own name.** -/
theorem Operator.run_or_refuses {o : Operator} (hb : ∀ x ∈ args, x.Backed)
    (hi : o.infer (args.map Tensor.shape) = .ok output) (hc : Word.Countable output.lengths)
    (identity : Nat) (ctx : Context) :
    (∃ y, o.run output args identity = .ok y) ∨
      ∃ cause, (Operation.catalog o).Refuses args ctx cause ∧
        o.run output args identity = failIn o.name cause := by
  have hview : ∀ x, o.viewed? args = some x → ∃ y, o.run output args identity = .ok y := by
    intro x hx
    rw [run_of_viewed hx]
    exact ⟨_, view_of_viewed hi hc hx (hb x (mem_of_viewed hx))⟩
  cases o with
  | convolution c => exact Or.inr ⟨_, .noKernel rfl, rfl⟩
  | pooling p => exact Or.inr ⟨_, .noKernel rfl, rfl⟩
  | gemm => exact Or.inr ⟨_, .noKernel rfl, rfl⟩
  | activation mode => exact Or.inr ⟨_, .noKernel rfl, rfl⟩
  | binary b => exact Or.inr ⟨_, .noKernel rfl, rfl⟩
  | outline shape => exact Or.inl ⟨_, rfl⟩
  | unary f =>
    have hone : args.map Tensor.shape = [output] := (Operands.one_eq_ok _ _).mp hi
    obtain ⟨x, rfl, _⟩ := List.map_eq_singleton_iff.mp hone
    by_cases hf : f = .identity
    · exact Or.inl ⟨x, by rw [hf]; rfl⟩
    · have hkernel : (unary f).hasKernel = false := decide_eq_false hf
      exact Or.inr ⟨.noKernel, .noKernel hkernel, UnaryFunction.run_of_ne hf _⟩
  | transpose dims =>
    obtain ⟨_, hone, _⟩ := Transpose.infer_eq_ok.mp hi
    obtain ⟨x, rfl, _⟩ := List.map_eq_singleton_iff.mp hone
    exact Or.inl (hview x rfl)
  | contiguous =>
    obtain ⟨_, hone, _⟩ := Contiguous.infer_eq_ok.mp hi
    obtain ⟨x, rfl, _⟩ := List.map_eq_singleton_iff.mp hone
    rcases Contiguous.run_or_refuses (hb x List.mem_cons_self) identity with hy | ⟨hd, hf⟩
    · exact Or.inl hy
    · exact Or.inr ⟨_, .noData rfl hd, hf⟩
  | reshape dims =>
    obtain ⟨_, hone, _⟩ := Reshape.infer_eq_ok.mp hi
    obtain ⟨x, rfl, _⟩ := List.map_eq_singleton_iff.mp hone
    cases hs : x.shape.isStandard with
    | true => exact Or.inl (hview x (if_pos hs))
    | false =>
      have hrun := Reshape.run_one output x
      rw [if_neg (ne_true_of_eq_false hs)] at hrun
      exact Or.inr ⟨.noKernel, .strided rfl hs, hrun⟩
  | broadcast axis =>
    obtain ⟨⟨t, s⟩, hts, _⟩ := bind_eq_ok.mp hi
    have hpair : args.map Tensor.shape = [t, s] := (Operands.two_eq_ok _ _).mp hts
    obtain ⟨target, rest, rfl, _, hrest⟩ := List.map_eq_cons_iff.mp hpair
    obtain ⟨x, rfl, _⟩ := List.map_eq_singleton_iff.mp hrest
    exact Or.inl (hview x rfl)

/-- **An operation that is no kernel gives a backed tensor of its shape, or refuses in its own name**,
    and leaves the context. -/
theorem Operation.run_or_refuses [ShortFloats] {op : Operation} (hk : ∀ b, op ≠ .kernel b)
    (hb : ∀ x ∈ args, x.Backed) (hi : op.infer (args.map Tensor.shape) = .ok output)
    (hc : Word.Countable output.lengths) (identity : Nat) (ctx : Context) :
    (∃ y, op.run output args identity ctx = (.ok y, ctx) ∧ y.Backed ∧ y.shape = output) ∨
      ∃ cause, op.Refuses args ctx cause ∧
        op.run output args identity ctx = (failIn op.name cause, ctx) := by
  cases op with
  | kernel b => exact absurd rfl (hk b)
  | catalog o =>
    rcases Operator.run_or_refuses hb hi hc identity ctx with ⟨y, hy⟩ | ⟨cause, hr, hf⟩
    · have hreal := Operator.run_realizes hb hi hy
      exact Or.inl ⟨y, Prod.ext hy rfl, hreal.backed, hreal.shape⟩
    · exact Or.inr ⟨cause, hr, Prod.ext hf rfl⟩
  | checkContext expected =>
    cases hi
    have hrun : (checkContext expected).run default args identity ctx =
        (ctx.expect expected (checkContext expected).name >>= fun _ => pure Tensor.empty, ctx) := rfl
    rw [hrun]
    by_cases hx : ctx.kind = expected
    · have hexpect : ctx.expect expected (checkContext expected).name = .ok () := if_pos hx
      rw [hexpect]
      exact Or.inl ⟨Tensor.empty, rfl, Tensor.backed_placeholder _, rfl⟩
    · have hexpect : ctx.expect expected (checkContext expected).name =
          failIn (checkContext expected).name
            (.contextType expected.typeName ctx.kind.typeName) := if_neg hx
      rw [hexpect]
      exact Or.inr ⟨_, .otherContext hx, rfl⟩

end Refusals

/-! ## 3. Instructions -/

namespace Module

/-- What an evaluation takes: a module without kernels, whose shapes have as few elements as a word can
    count, whose constants are backed, and whose parameters are bound to backed tensors of their
    shapes. -/
structure Ready (m : Module Operation) (bindings : Bindings) : Prop where
  wellFormed : m.WellFormed
  operators : ∀ ins ∈ m.instructions, ∀ op, ins.kind = .operation op → ∀ b, op ≠ .kernel b
  literals : ∀ ins ∈ m.instructions, ∀ value, ins.kind = .literal value → value.Backed
  countable : ∀ ins ∈ m.instructions, Word.Countable ins.shape.lengths
  parameters : ∀ p ∈ m.parameters, ∃ value, bindings p.1 = some value ∧ value.Backed ∧
    value.shape = p.2

/-- The values of a module's first instructions are backed, and of the inferred shapes, that of the return
    apart. -/
structure Reached (m : Module Operation) (values : List Tensor) : Prop where
  size : values.length ≤ m.size
  backed : ∀ x ∈ values, x.Backed
  shapes : ∀ i ins value, m.instruction? i = some ins → values[i]? = some value →
    ins.kind ≠ .result → value.shape = ins.shape

/-- The instruction after the values is an operation that refuses its arguments with the error. -/
def RefusesAfter (m : Module Operation) (values : List Tensor) (ctx : Context) (e : Error) : Prop :=
  ∃ ins op args cause, m.instruction? values.length = some ins ∧ ins.kind = .operation op ∧
    operandValues values ins.inputs = .ok args ∧ op.Refuses args ctx cause ∧
    e = ⟨some op.name, cause⟩

variable {m : Module Operation} {bindings : Bindings} {values : List Tensor}

/-- Nothing is reached before the first instruction. -/
theorem Reached.nil (m : Module Operation) : m.Reached [] where
  size := Nat.zero_le _
  backed _ hx := absurd hx List.not_mem_nil
  shapes _ _ _ _ hv _ := nomatch hv

/-- One more value that is right. -/
theorem Reached.push (h : m.Reached values) {ins : Instruction Operation} {value : Tensor}
    (hi : m.instruction? values.length = some ins) (hb : value.Backed)
    (hs : ins.kind ≠ .result → value.shape = ins.shape) : m.Reached (values ++ [value]) where
  size := by
    have hlt : values.length < m.size := (List.getElem?_eq_some_iff.mp hi).1
    rw [List.length_append, List.length_singleton]
    exact hlt
  backed x hx := by
    rcases List.mem_append.mp hx with hold | hnew
    · exact h.backed x hold
    · rw [List.mem_singleton.mp hnew]
      exact hb
  shapes i found v hf hv hne := by
    rw [List.getElem?_append] at hv
    by_cases hlt : i < values.length
    · rw [if_pos hlt] at hv
      exact h.shapes i found v hf hv hne
    · rw [if_neg hlt, List.getElem?_singleton] at hv
      split at hv
      · have hlast : i = values.length := by omega
        rw [hlast, hi] at hf
        cases hf
        cases hv
        exact hs hne
      · cases hv

/-- **Operands that can be read have values of the shapes that inference saw.** -/
theorem Reached.operands (h : m.Reached values) (hw : m.WellFormed) {i : Nat}
    {ins : Instruction Operation} (hi : m.instruction? i = some ins) {args : List Tensor}
    (ha : operandValues values ins.inputs = .ok args) :
    (∀ x ∈ args, x.Backed) ∧ args.map Tensor.shape = m.shapesOf ins.inputs := by
  constructor
  · intro x hx
    exact h.backed x (mem_of_operandValues ha hx)
  · refine map_operandValues ha fun j hj v hv => ?_
    have hlt : j < values.length := (List.getElem?_eq_some_iff.mp hv).1
    have hf : m.instruction? j = some _ := List.getElem?_eq_getElem (Nat.lt_of_lt_of_le hlt h.size)
    -- the value of a return has another shape than the return, but nothing reads it
    have hne := hw.not_result_of_read hi hj hf
    rw [hf, Option.map_some, h.shapes j _ v hf hv hne]

namespace Ready

variable {config : Config} {firstBuffer : Nat} {ctx : Context}

/-- The shape of an operation is what it infers for the arguments. -/
theorem infer_args (hm : m.Ready bindings) (h : m.Reached values) {i : Nat}
    {ins : Instruction Operation} (hi : m.instruction? i = some ins) {op : Operation}
    (hk : ins.kind = .operation op) {args : List Tensor}
    (ha : operandValues values ins.inputs = .ok args) :
    op.infer (args.map Tensor.shape) = .ok ins.shape := by
  rw [(h.operands hm.wellFormed hi ha).2]
  exact hm.wellFormed.infer_eq (List.mem_of_getElem? hi) hk

/-- **An instruction after values that are right gives one more, or refuses.** -/
theorem runInstruction [ShortFloats] (hm : m.Ready bindings) (h : m.Reached values)
    {ins : Instruction Operation} (hi : m.instruction? values.length = some ins) :
    (∃ value, TensorGraph.runInstruction config bindings firstBuffer values ins ctx = (.ok value, ctx) ∧
        m.Reached (values ++ [value])) ∨
      ∃ e, m.RefusesAfter values ctx e ∧
        TensorGraph.runInstruction config bindings firstBuffer values ins ctx =
          (.error (.error e), ctx) := by
  have hmem := List.mem_of_getElem? hi
  unfold TensorGraph.runInstruction
  cases hk : ins.kind with
  | parameter name =>
    obtain ⟨value, hb, hbacked, hs⟩ := hm.parameters _ (Module.mem_parameters hmem hk)
    refine Or.inl ⟨value, ?_, h.push hi hbacked fun _ => hs⟩
    dsimp only at hb ⊢
    rw [hb]
  | literal value =>
    obtain ⟨_, hs⟩ := hm.wellFormed.literal hmem hk
    exact Or.inl ⟨value, rfl, h.push hi (hm.literals ins hmem value hk) fun _ => hs.symm⟩
  | result =>
    exact Or.inl ⟨_, rfl, h.push hi (Tensor.backed_placeholder _) fun hne => absurd hk hne⟩
  | operation op =>
    obtain ⟨args, ha⟩ := hm.wellFormed.exists_operands hi (Nat.le_refl _)
    have hbacked := (h.operands hm.wellFormed hi ha).1
    have hinfer := hm.infer_args h hi hk ha
    rcases Operation.run_or_refuses (hm.operators ins hmem op hk) hbacked hinfer
      (hm.countable ins hmem) (firstBuffer + values.length) ctx with ⟨y, hy, hb, hs⟩ | ⟨cause, hr, hf⟩
    · exact Or.inl ⟨y, runOperation_eq_ok.mpr ⟨args, ha, hy, fun _ => hs⟩, h.push hi hb fun _ => hs⟩
    · refine Or.inr ⟨_, ⟨ins, op, args, cause, hi, hk, ha, hr, rfl⟩, ?_⟩
      exact runOperation_of_failIn ha hf

/-! ## 4. Evaluations -/

/-- **The first instruction that fails is an operation that refuses.** All values before it are right, and
    the context is what it was. -/
theorem evaluate [ShortFloats] (hm : m.Ready bindings) (config : Config) (firstBuffer : Nat) (ctx : Context)
    (h : m.Reached values) {rest : List (Instruction Operation)}
    (hrest : m.instructions.drop values.length = rest) :
    let e := TensorGraph.evaluate config bindings firstBuffer rest values ctx
    m.Reached e.values ∧ e.context = ctx ∧
      (e.outcome = .ok () ∧ e.values.length = m.size ∨
        ∃ error, e.outcome = .error (.error error) ∧ m.RefusesAfter e.values ctx error) := by
  -- over the instructions that are left; what carries it is that the values so far are right
  induction rest generalizing values with
  | nil =>
    have hall : m.size ≤ values.length := List.drop_eq_nil_iff.mp hrest
    exact ⟨h, rfl, Or.inl ⟨rfl, Nat.le_antisymm h.size hall⟩⟩
  | cons ins rest ih =>
    obtain ⟨hi, hnext⟩ := next_of_drop hrest
    have hlater : ∀ value, m.instructions.drop (values ++ [value]).length = rest := by
      intro value
      rwa [List.length_append, List.length_singleton]
    rw [TensorGraph.evaluate]
    rcases hm.runInstruction h hi with ⟨value, hv, hreached⟩ | ⟨e, hr, he⟩
    · rw [hv]
      exact ih hreached (hlater value)
    · rw [he]
      exact ⟨h, rfl, Or.inr ⟨e, rfl, hr⟩⟩

end Ready

/-- **A module that was built without kernels is ready** once its parameters are bound. -/
theorem SourceCalls.ready {calls : List (Call Operation)} (h : SourceCalls calls) {name : String}
    (hm : m = (Module.new name).run calls)
    (hc : ∀ ins ∈ m.instructions, ∃ n, ins.shape.elementCount? = .ok n)
    (hp : ∀ p ∈ m.parameters, ∃ value, bindings p.1 = some value ∧ value.Backed ∧
      value.shape = p.2) : m.Ready bindings where
  wellFormed := by
    rw [hm]
    exact wellFormed_run name calls
  operators := by
    rw [hm]
    exact h.operations
  literals := by
    rw [hm]
    exact h.literals
  countable ins hins := by
    obtain ⟨n, hn⟩ := hc ins hins
    exact (Shape.elementCount?_eq_ok.mp hn).1
  parameters := hp

end Module

/-! ## 5. Programs -/

namespace Program

section Evaluation

variable [ShortFloats] {p : Program Operation Context} {bindings : Bindings}

/-- **An evaluation gives results, or ends at an operation that refuses.** -/
theorem eval_of_ready (hm : p.main.Ready bindings) {r : Nat} (hr : p.main.returnAt = some r)
    (firstBuffer : Nat) :
    p.main.Reached (p.values bindings firstBuffer) ∧
      ((∃ outs, (p.eval bindings firstBuffer).outcome = .ok outs) ∨
        ∃ e, (p.eval bindings firstBuffer).outcome = .error (.error e) ∧
          p.main.RefusesAfter (p.values bindings firstBuffer) p.context e) := by
  have hbindings : checkBindings bindings p.main.parameters = .ok () := by
    refine checkBindings_eq_ok.mpr fun q hq => ?_
    obtain ⟨value, hb, _, hs⟩ := hm.parameters q hq
    exact ⟨value, hb, hs⟩
  obtain ⟨hreached, _, hend⟩ := hm.evaluate p.config firstBuffer p.context (.nil p.main) rfl
  refine ⟨hreached, ?_⟩
  rw [eval_of_called (checkCall_eq_ok.mpr ⟨hr, hbindings⟩)]
  rcases hend with ⟨hok, hsize⟩ | ⟨e, he, hrefuses⟩
  · left
    obtain ⟨ret, hret, _⟩ := (hm.wellFormed.sealed r).mp hr
    have hle : r ≤ (p.values bindings firstBuffer).length := by
      have hlast := hm.wellFormed.last r hr
      have hvalues : (p.values bindings firstBuffer).length = p.main.size := hsize
      omega
    obtain ⟨outs, houts⟩ := hm.wellFormed.exists_operands hret hle
    refine ⟨outs, then_eq_ok.mpr ⟨hok, ?_⟩⟩
    unfold results
    rw [hret]
    exact houts
  · right
    exact ⟨e, bind_eq_error.mpr (Or.inl he), hrefuses⟩

/-- **Shapes are inferred once.** Take a program whose main module was built of parameters, backed
    constants and operators that are no kernels, that has a return, and whose shapes have as few elements
    as a word can count; and bind its parameters to tensors of their shapes, with or without data. Its
    evaluation gives results, or fails at the first operation that refuses its arguments: for lack of a
    kernel or of data, or for another context. It never faults, and never fails over a shape, an attribute
    or the graph. In particular every transpose, reshape and broadcast that is reached gives the view of
    its operand's buffer. -/
theorem evaluation_progress {name : String} {calls : List (Call Operation)}
    (hmain : p.main = (Module.new name).run calls) (hcalls : Module.SourceCalls calls) {r : Nat}
    (hreturn : p.main.returnAt = some r)
    (hcount : ∀ ins ∈ p.main.instructions, ∃ n, ins.shape.elementCount? = .ok n)
    (hbound : ∀ q ∈ p.main.parameters, ∃ value, bindings q.1 = some value ∧ value.Backed ∧
      value.shape = q.2) (firstBuffer : Nat) :
    ((∃ outs, (p.eval bindings firstBuffer).outcome = .ok outs) ∨
      ∃ e, (p.eval bindings firstBuffer).outcome = .error (.error e) ∧
        p.main.RefusesAfter (p.values bindings firstBuffer) p.context e ∧
        (e.kind = .notComputable ∨ e.kind = .contextTypeMismatch ∨ e.kind = .other)) ∧
    ∀ i ins o args x, p.main.instruction? i = some ins → ins.kind = .operation (.catalog o) →
      operandValues (p.values bindings firstBuffer) ins.inputs = .ok args →
      o.viewed? args = some x → x.view ins.shape = .ok ⟨ins.shape, x.buffer⟩ := by
  have hready : p.main.Ready bindings := hcalls.ready hmain hcount hbound
  obtain ⟨hreached, hend⟩ := eval_of_ready hready hreturn firstBuffer
  constructor
  · refine hend.imp id ?_
    intro h
    obtain ⟨e, he, hrefuses⟩ := h
    refine ⟨e, he, hrefuses, ?_⟩
    obtain ⟨_, _, _, _, _, _, _, hr, rfl⟩ := hrefuses
    exact hr.kind
  · intro i ins o args x hi hk ha hx
    have hinfer := hready.infer_args hreached hi hk ha
    obtain ⟨hbacked, _⟩ := hreached.operands hready.wellFormed hi ha
    have hcountable := hready.countable ins (List.mem_of_getElem? hi)
    exact Operator.view_of_viewed hinfer hcountable hx (hbacked x (Operator.mem_of_viewed hx))

end Evaluation

/-- Calls that take a matrix `x`, transpose it, and copy that into row-major order. -/
def copyingCalls : List (Call Operation) :=
  [.parameter "x" (.standard .f32 [2, 3]), .instruction (.catalog (.transpose [1, 0])) [0],
    .instruction (.catalog .contiguous) [1], .result [2]]

theorem sourceCalls_copying : Module.SourceCalls copyingCalls :=
  Module.SourceCalls.nil.result.instruction.instruction.parameter

/-- The program of these calls. -/
def copying : Program Operation Context :=
  { Program.new default with main := (Module.new mainName).run copyingCalls }

/-- A placeholder is transposed, and then there is nothing to copy. -/
theorem copying_placeholder_refused :
    let bindings : Bindings := fun _ => some (Tensor.placeholder (.standard .f32 [2, 3]))
    let e : Error := ⟨some "contiguous", .noData ⟨.f32, [⟨3, 1⟩, ⟨2, 3⟩]⟩⟩
    (copying.eval bindings 7).outcome = .error (.error e) ∧
      copying.main.RefusesAfter (copying.values bindings 7) .null e := by
  intro bindings e
  have hmain : copying.main = (Module.new mainName).run copyingCalls := rfl
  have hcount : ∀ ins ∈ copying.main.instructions, ∃ n, ins.shape.elementCount? = .ok n := by
    have hsix : ∀ ins ∈ copying.main.instructions, Word.product? ins.shape.lengths = some 6 := by
      decide
    intro ins hins
    refine ⟨6, ?_⟩
    unfold Shape.elementCount?
    rw [hsix ins hins]
  have hbound : ∀ q ∈ copying.main.parameters, ∃ value, bindings q.1 = some value ∧ value.Backed ∧
      value.shape = q.2 := by
    intro q hq
    cases List.mem_singleton.mp hq
    exact ⟨_, rfl, Tensor.backed_placeholder _, rfl⟩
  have heval : (copying.eval bindings 7).outcome = .error (.error e) := rfl
  have hprogress := (evaluation_progress hmain sourceCalls_copying rfl hcount hbound 7).1
  rw [heval] at hprogress
  rcases hprogress with ⟨_, h⟩ | ⟨_, h, hrefuses, _⟩
  · cases h
  · cases h
    exact ⟨rfl, hrefuses⟩

end Program

end TensorGraph
