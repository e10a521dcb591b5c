import TensorGraph.Operator.Catalog
import TensorGraph.Proofs.Outcome

/-!
# What inference reports

Shape inference may refuse its operands or the attributes of its operator, and then says so: the
error is a mismatch of shapes or an invalid parameter, never one of the other kinds, and it names the
operator or, where it comes from a helper that does not know the operator, nobody. What inference must
not do is to fault, for a fault reaches nobody.

* `Outcome.ErrorsAre` -- every error with which a computation fails has a property;
* `Outcome.Reported` -- a result, or an error about operands or attributes;
* `Outcome.Blames` -- the part of it that is about errors: a computation is reported exactly when it
  blames and does not fault (`reported_iff`);
* `Error.Refuses` -- an error about operands or attributes that names no other operator;
* `Operator.infer_errors`, `Operator.infer_blames` -- no operator of the catalog fails with any other
  error.

`ErrorsAre` follows the sequence of checks of an operator step by step, so each operator is a list of
steps of which every one has only such errors.
-/

namespace TensorGraph

/-- The kinds of errors that are about the operands or the attributes of an operator. -/
def ErrorKind.AboutInput (k : ErrorKind) : Prop := k = .shapeMismatch ∨ k = .invalidParameter

namespace Outcome

variable {α β : Type}

/-! ## 1. Reporting -/

/-- There is a result, or an error about operands or attributes. -/
def Reported (x : Outcome α) : Prop :=
  (∃ a, x = .ok a) ∨ ∃ e, x = .error (.error e) ∧ e.kind.AboutInput

/-- If there is an error, it is about operands or attributes. -/
def Blames (x : Outcome α) : Prop := ∀ e, x = .error (.error e) → e.kind.AboutInput

theorem reported_iff {x : Outcome α} : x.Reported ↔ x.Blames ∧ x ≠ .error .fault := by
  constructor
  · intro h
    rcases h with ⟨a, rfl⟩ | ⟨e, rfl, hk⟩
    · refine ⟨?_, nofun⟩
      intro e h
      cases h
    · refine ⟨?_, nofun⟩
      intro e' h
      cases h
      exact hk
  · intro h
    obtain ⟨hb, hf⟩ := h
    cases x with
    | ok a => exact Or.inl ⟨a, rfl⟩
    | error f =>
      cases f with
      | error e => exact Or.inr ⟨e, rfl, hb e rfl⟩
      | fault => exact absurd rfl hf

/-! ## 2. Errors step by step -/

/-- If there is an error, it has the property. -/
def ErrorsAre (P : Error → Prop) (x : Outcome α) : Prop := ∀ e, x = .error (.error e) → P e

variable {P Q : Error → Prop}

theorem errorsAre_ok (a : α) : ErrorsAre P (.ok a) := by
  intro e h
  cases h

theorem errorsAre_pure (a : α) : (pure a : Outcome α).ErrorsAre P := errorsAre_ok a

theorem errorsAre_fault : ErrorsAre P (.error .fault : Outcome α) := by
  intro e h
  cases h

theorem errorsAre_failFor {name : Option String} {cause : Cause} (h : P ⟨name, cause⟩) :
    (failFor name cause : Outcome α).ErrorsAre P := by
  intro e he
  cases he
  exact h

theorem errorsAre_fail {cause : Cause} (h : P ⟨none, cause⟩) : (fail cause : Outcome α).ErrorsAre P :=
  errorsAre_failFor h

theorem errorsAre_failIn {name : String} {cause : Cause} (h : P ⟨some name, cause⟩) :
    (failIn name cause : Outcome α).ErrorsAre P := errorsAre_failFor h

theorem ErrorsAre.bind {x : Outcome α} {next : α → Outcome β} (hx : x.ErrorsAre P)
    (hn : ∀ a, (next a).ErrorsAre P) : (x >>= next).ErrorsAre P := by
  cases x with
  | ok a => exact hn a
  | error f =>
    intro e h
    cases h
    exact hx e rfl

theorem ErrorsAre.check {c : Prop} [Decidable c] {x y : Outcome α} (hx : x.ErrorsAre P)
    (hy : y.ErrorsAre P) : (if c then x else y).ErrorsAre P := by
  by_cases h : c
  · rwa [if_pos h]
  · rwa [if_neg h]

/-- To name an operator is all that is done to an error. -/
theorem ErrorsAre.withOperator {x : Outcome α} {name : String} (hx : x.ErrorsAre P)
    (hPQ : ∀ e, P e → Q (e.withOperator name)) : (x.withOperator name).ErrorsAre Q := by
  cases x with
  | ok a => exact errorsAre_ok a
  | error f =>
    cases f with
    | fault => exact errorsAre_fault
    | error e =>
      intro e' h
      cases h
      exact hPQ e (hx e rfl)

theorem ErrorsAre.discard {x : Outcome α} (hx : x.ErrorsAre P) : (discard x).ErrorsAre P :=
  hx.bind fun _ => errorsAre_ok ()

theorem ErrorsAre.mapM {f : α → Outcome β} (hf : ∀ a, (f a).ErrorsAre P) (l : List α) :
    (l.mapM f).ErrorsAre P := by
  induction l with
  | nil => exact errorsAre_pure []
  | cons a rest ih =>
    rw [List.mapM_cons]
    exact (hf a).bind fun _ => ih.bind fun _ => errorsAre_pure _

theorem errorsAre_ofOption (x : Option α) : (ofOption x).ErrorsAre P := by
  cases x with
  | none => exact errorsAre_fault
  | some a => exact errorsAre_ok a

theorem errorsAre_word (n : Nat) : (word n).ErrorsAre P :=
  ErrorsAre.check (errorsAre_ok n) errorsAre_fault

theorem errorsAre_signedWord (i : Int) : (signedWord i).ErrorsAre P :=
  ErrorsAre.check (errorsAre_ok i) errorsAre_fault

end Outcome

open Outcome

/-! ## 3. Errors of an operator -/

namespace Error

/-- The error names the operator or nobody. -/
def NamesAtMost (name : String) (e : Error) : Prop := e.operator = none ∨ e.operator = some name

/-- The error is about operands or attributes, and names the operator or nobody. -/
def Refuses (name : String) (e : Error) : Prop := e.kind.AboutInput ∧ e.NamesAtMost name

theorem namesAtMost_unnamed (name : String) (cause : Cause) : NamesAtMost name ⟨none, cause⟩ := .inl rfl

theorem namesAtMost_named (name : String) (cause : Cause) : NamesAtMost name ⟨some name, cause⟩ :=
  .inr rfl

theorem NamesAtMost.withOperator {name : String} {e : Error} (h : e.NamesAtMost name) :
    (e.withOperator name).operator = some name := by
  rw [operator_withOperator]
  rcases h with h | h <;> rw [h] <;> rfl

theorem refuses_unnamed {name : String} {cause : Cause} (h : cause.kind.AboutInput) :
    Refuses name ⟨none, cause⟩ := ⟨h, namesAtMost_unnamed name cause⟩

theorem refuses_named {name : String} {cause : Cause} (h : cause.kind.AboutInput) :
    Refuses name ⟨some name, cause⟩ := ⟨h, namesAtMost_named name cause⟩

theorem Refuses.withOperator {name : String} (e : Error) (h : e.Refuses name) :
    (e.withOperator name).Refuses name := ⟨h.1, .inr h.2.withOperator⟩

end Error

open Error

/-! ## 4. Requirements and broadcasting -/

namespace Operands

variable {P : Error → Prop}

theorem require_errors (o : Operands) (holds : Bool) {cause : Cause} (h : P ⟨o.operator, cause⟩) :
    (o.require holds cause).ErrorsAre P :=
  ErrorsAre.check (errorsAre_ok ()) (errorsAre_failFor h)

theorem one_errors (name : String) (shapes : List Shape) :
    (Operands.mk (some name) shapes).one.ErrorsAre (Refuses name) := by
  unfold one
  split
  · exact errorsAre_ok _
  · exact errorsAre_failFor (refuses_named (.inl rfl))

theorem two_errors (name : String) (shapes : List Shape) :
    (Operands.mk (some name) shapes).two.ErrorsAre (Refuses name) := by
  unfold two
  split
  · exact errorsAre_ok _
  · exact errorsAre_failFor (refuses_named (.inl rfl))

end Operands

/-- Broadcasting names nobody, so its errors are those of any operator that uses it. -/
theorem Shape.broadcast_errors (name : String) (target operand : Shape) (axis : Nat) :
    (Shape.broadcast target operand axis).ErrorsAre (Refuses name) := by
  refine ErrorsAre.check ?_ ((errorsAre_word _).bind fun runEnd => ?_)
  · exact ErrorsAre.check (errorsAre_fail (refuses_unnamed (.inl rfl))) (errorsAre_ok _)
  · exact ErrorsAre.check (errorsAre_fail (refuses_unnamed (.inl rfl)))
      (ErrorsAre.check (errorsAre_fail (refuses_unnamed (.inl rfl))) (errorsAre_ok _))

theorem Shape.elementCount?_errors (name : String) (s : Shape) :
    s.elementCount?.ErrorsAre (Refuses name) := by
  unfold elementCount?
  split
  · exact errorsAre_ok _
  · exact errorsAre_fail (refuses_unnamed (.inr rfl))

/-! ## 5. Operators over images -/

theorem Convolution.outputLength_errors (mode : PaddingMode)
    (padding stride dilation input kernel : Nat) :
    (outputLength mode padding stride dilation input kernel).ErrorsAre (Refuses name) := by
  cases mode with
  | explicit =>
    show (explicitLength padding stride dilation input kernel).ErrorsAre _
    unfold explicitLength
    repeat refine (errorsAre_signedWord _).bind fun _ => ?_
    exact errorsAre_pure _
  | same => exact errorsAre_ok _
  | valid =>
    exact ErrorsAre.check (errorsAre_failIn (refuses_named (.inr rfl)))
      ((errorsAre_word _).bind fun _ => errorsAre_pure _)

theorem Convolution.infer_errors (c : Convolution) (shapes : List Shape) :
    (c.infer shapes).ErrorsAre (Refuses name) := by
  refine (Operands.two_errors name shapes).bind fun p => ?_
  refine (Operands.require_errors _ _ (refuses_named (.inl rfl))).bind fun _ => ?_
  refine (Operands.require_errors _ _ (refuses_named (.inl rfl))).bind fun _ => ?_
  refine (Operands.require_errors _ _ (refuses_named (.inl rfl))).bind fun _ => ?_
  refine ErrorsAre.check ((errorsAre_failIn (refuses_named (.inr rfl))).bind fun _ => ?_) ?_ <;>
  · split
    · refine (outputLength_errors _ _ _ _ _ _).bind fun _ => ?_
      exact (outputLength_errors _ _ _ _ _ _).bind fun _ => errorsAre_pure _
    · exact errorsAre_failIn (refuses_named (.inl rfl))

theorem Pooling.windowCount_errors (axis padding stride window input : Nat) :
    (windowCount axis padding stride window input).ErrorsAre (Refuses name) := by
  refine (errorsAre_word _).bind fun _ => (errorsAre_word _).bind fun _ => ?_
  exact ErrorsAre.check
    ((errorsAre_failIn (refuses_named (.inr rfl))).bind fun _ => errorsAre_word _) (errorsAre_word _)

theorem Pooling.infer_errors (p : Pooling) (shapes : List Shape) :
    (p.infer shapes).ErrorsAre (Refuses name) := by
  refine (Operands.one_errors name shapes).bind fun input => ?_
  refine (Operands.require_errors _ _ (refuses_named (.inl rfl))).bind fun _ => ?_
  refine ErrorsAre.check ((errorsAre_failIn (refuses_named (.inr rfl))).bind fun _ => ?_) ?_ <;>
  · split
    · refine (windowCount_errors _ _ _ _ _).bind fun _ => ?_
      exact (windowCount_errors _ _ _ _ _).bind fun _ => errorsAre_pure _
    · exact errorsAre_failIn (refuses_named (.inl rfl))

/-! ## 6. Products and arithmetic -/

theorem Gemm.infer_errors (shapes : List Shape) : (Gemm.infer shapes).ErrorsAre (Refuses name) := by
  refine (Operands.two_errors name shapes).bind fun p => ?_
  refine (Operands.require_errors _ _ (refuses_named (.inl rfl))).bind fun _ => ?_
  refine (Operands.require_errors _ _ (refuses_named (.inl rfl))).bind fun _ => ?_
  split
  · exact ErrorsAre.check (errorsAre_failIn (refuses_named (.inl rfl))) (errorsAre_ok _)
  · exact errorsAre_failIn (refuses_named (.inl rfl))

theorem Binary.infer_errors (b : Binary) (shapes : List Shape) :
    (b.infer shapes).ErrorsAre (Refuses b.name) := by
  refine (Operands.two_errors b.name shapes).bind fun p => ?_
  refine (Operands.require_errors _ _ (refuses_named (.inl rfl))).bind fun _ => ?_
  dsimp only
  split
  · exact (Operands.require_errors _ _ (refuses_named (.inl rfl))).bind fun _ => errorsAre_pure _
  · refine ErrorsAre.bind ?_ fun _ => errorsAre_pure _
    exact ((Shape.broadcast_errors b.name _ _ _).withOperator Refuses.withOperator).discard

/-! ## 7. Layouts -/

theorem Transpose.infer_errors (dims : List Nat) (shapes : List Shape) :
    (Transpose.infer dims shapes).ErrorsAre (Refuses name) := by
  refine (Operands.one_errors name shapes).bind fun input => ?_
  have hrest : (if (!isPermutation dims) = true then
      (failIn name (.notPermutation dims) : Outcome PUnit) >>= fun _ =>
        pure (⟨input.elementType, permuted input.axes dims⟩ : Shape)
      else pure ⟨input.elementType, permuted input.axes dims⟩).ErrorsAre (Refuses name) :=
    ErrorsAre.check ((errorsAre_failIn (refuses_named (.inr rfl))).bind fun _ => errorsAre_pure _)
      (errorsAre_pure _)
  exact ErrorsAre.check ((errorsAre_failIn (refuses_named (.inr rfl))).bind fun _ => hrest) hrest

theorem Contiguous.infer_errors (shapes : List Shape) :
    (Contiguous.infer shapes).ErrorsAre (Refuses name) :=
  (Operands.one_errors name shapes).bind fun _ =>
    (Operands.require_errors _ _ (refuses_named (.inl rfl))).bind fun _ => errorsAre_pure _

theorem Reshape.lengthsFrom_errors (input : List Nat) (position : Nat) (dims : List Int) :
    (lengthsFrom input position dims).ErrorsAre (Refuses name) := by
  induction dims generalizing position with
  | nil => exact errorsAre_ok _
  | cons d rest ih =>
    have hrest {next : List Nat × Bool → Outcome (List Nat × Bool)}
        (hn : ∀ q, (next q).ErrorsAre (Refuses name)) :
        (lengthsFrom input (position + 1) rest >>= next).ErrorsAre (Refuses name) :=
      (ih (position + 1)).bind hn
    unfold lengthsFrom
    refine ErrorsAre.check ?_ (ErrorsAre.check (errorsAre_ok _)
      (ErrorsAre.check (hrest fun _ => errorsAre_pure _) ?_))
    · split
      · exact hrest fun _ => errorsAre_pure _
      · exact errorsAre_failIn (refuses_named (.inr rfl))
    · exact errorsAre_failIn (refuses_named (.inr rfl))

theorem Reshape.complete_errors (elements : Nat) (lengths : List Nat) (inferred : Bool)
    (known : Nat) : (complete elements lengths inferred known).ErrorsAre (Refuses name) := by
  refine ErrorsAre.check ?_ ?_
  · exact ErrorsAre.check (errorsAre_failIn (refuses_named (.inr rfl))) (errorsAre_ok _)
  · exact ErrorsAre.check (errorsAre_failIn (refuses_named (.inr rfl))) (errorsAre_ok _)

theorem Reshape.infer_errors (dims : List Int) (shapes : List Shape) :
    (Reshape.infer dims shapes).ErrorsAre (Refuses name) := by
  refine (Operands.one_errors name shapes).bind fun input => ?_
  refine (lengthsFrom_errors _ _ _).bind fun ⟨lengths, inferred⟩ => ?_
  dsimp only
  split
  · exact errorsAre_failIn (refuses_named (.inr rfl))
  · refine (errorsAre_ofOption _).bind fun _ => ?_
    exact (complete_errors _ _ _ _).bind fun _ => errorsAre_pure _

theorem Outline.infer_errors (shape : Shape) (shapes : List Shape) :
    (Outline.infer shape shapes).ErrorsAre (Refuses name) := by
  refine (Operands.require_errors _ _ (refuses_named (.inl rfl))).bind fun _ => ?_
  refine ErrorsAre.bind ?_ fun _ => errorsAre_pure _
  exact ((Shape.elementCount?_errors name shape).withOperator Refuses.withOperator).discard

/-! ## 8. The catalog -/

/-- **An operator refuses shapes with an error about them or about its attributes**, which names it or
    nobody. -/
theorem Operator.infer_errors (o : Operator) (shapes : List Shape) :
    (o.infer shapes).ErrorsAre (Refuses o.name) := by
  cases o with
  | convolution c => exact c.infer_errors shapes
  | pooling p => exact p.infer_errors shapes
  | gemm => exact Gemm.infer_errors shapes
  | activation mode => exact Operands.one_errors _ shapes
  | unary f => exact Operands.one_errors _ shapes
  | binary b => exact b.infer_errors shapes
  | transpose dims => exact Transpose.infer_errors dims shapes
  | contiguous => exact Contiguous.infer_errors shapes
  | reshape dims => exact Reshape.infer_errors dims shapes
  | broadcast axis =>
    exact (Operands.two_errors _ shapes).bind fun _ =>
      (Shape.broadcast_errors _ _ _ _).withOperator Refuses.withOperator
  | outline shape => exact Outline.infer_errors shape shapes

/-- **An operator refuses shapes with an error about them or about its attributes**, never with an
    error of another kind. -/
theorem Operator.infer_blames (o : Operator) (shapes : List Shape) : (o.infer shapes).Blames :=
  fun e h => (o.infer_errors shapes e h).1

end TensorGraph
