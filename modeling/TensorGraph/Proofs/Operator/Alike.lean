import TensorGraph.Operation
import TensorGraph.Proofs.Shape.Layout

/-!
# Inference does not look at strides

Shapes are alike when they have the same element type and the same lengths. Operators that are applied to
alike shapes give alike shapes, or fail in one and the same way, faults included. Those that hand strides
on -- transposing, broadcasting, and all that work element by element -- do so without a look at them, and
the others lay their results out anew.

* `Shape.Alike` -- the same shape but for the strides;
* `Outcome.Related` -- two computations that give related values or fail in the same way; it follows a
  sequence of steps (`Related.bind`);
* `Operands` -- requirements on alike operands are met or not met together;
* `Operator.infer_alike`, `Operation.infer_alike` -- so inference is blind to layouts.
-/

namespace TensorGraph

/-- The same element type and the same lengths, whatever the strides. -/
structure Shape.Alike (s t : Shape) : Prop where
  elementType : s.elementType = t.elementType
  lengths : s.lengths = t.lengths

theorem Shape.Alike.refl (s : Shape) : s.Alike s := ⟨rfl, rfl⟩

theorem Shape.Alike.rank {s t : Shape} (h : s.Alike t) : s.rank = t.rank := by
  rw [← length_lengths, ← length_lengths, h.lengths]

/-! ## 1. Computations side by side -/

namespace Outcome

variable {α β γ δ : Type} {R : α → β → Prop} {S : γ → δ → Prop}

/-- Both computations give a value, and the values are related, or both fail in the same way. -/
inductive Related (R : α → β → Prop) : Outcome α → Outcome β → Prop where
  | ok {a : α} {b : β} : R a b → Related R (.ok a) (.ok b)
  | error (f : Failure) : Related R (.error f) (.error f)

/-- A computation is related to itself. -/
theorem Related.refl {R : α → α → Prop} (hR : ∀ a, R a a) (x : Outcome α) : x.Related R x := by
  cases x with
  | ok a => exact .ok (hR a)
  | error f => exact .error f

theorem Related.imp {T : α → β → Prop} (hRT : ∀ a b, R a b → T a b) {x : Outcome α} {y : Outcome β}
    (h : x.Related R y) : x.Related T y := by
  cases h with
  | ok hab => exact .ok (hRT _ _ hab)
  | error f => exact .error f

/-- **Related computations that go on in related ways are related.** -/
theorem Related.bind {x : Outcome α} {y : Outcome β} {f : α → Outcome γ} {g : β → Outcome δ}
    (h : x.Related R y) (hfg : ∀ a b, R a b → (f a).Related S (g b)) :
    (x >>= f).Related S (y >>= g) := by
  cases h with
  | ok hab => exact hfg _ _ hab
  | error f => exact .error f

/-- The same check in front of related computations. -/
theorem Related.andThen {x y : Outcome Unit} (h : x = y) {f : Unit → Outcome γ}
    {g : Unit → Outcome δ} (hfg : (f ()).Related S (g ())) : (x >>= f).Related S (y >>= g) := by
  subst h
  cases x with
  | ok a => exact hfg
  | error f => exact .error f

/-- Alternatives between which both computations choose in the same way. -/
theorem Related.ite {c : Prop} [Decidable c] {x y : Outcome α} {x' y' : Outcome β}
    (hx : x.Related R x') (hy : y.Related R y') :
    (if c then x else y).Related R (if c then x' else y') := by
  by_cases h : c
  · rwa [if_pos h, if_pos h]
  · rwa [if_neg h, if_neg h]

theorem Related.withOperator {x : Outcome α} {y : Outcome β} (h : x.Related R y) (name : String) :
    (x.withOperator name).Related R (y.withOperator name) := by
  cases h with
  | ok hab => exact .ok hab
  | error f => exact .error (f.withOperator name)

/-- Values that nobody asks for need not be related. -/
theorem Related.discard {x : Outcome α} {y : Outcome β} (h : x.Related R y) :
    Outcome.Related Eq (discard x) (discard y) := h.bind fun _ _ _ => .ok rfl

/-- Related computations succeed together. -/
theorem Related.exists_ok {x : Outcome α} {y : Outcome β} (h : x.Related R y) :
    (∃ a, x = .ok a) ↔ ∃ b, y = .ok b := by
  cases h with
  | @ok a b _ => exact ⟨fun _ => ⟨b, rfl⟩, fun _ => ⟨a, rfl⟩⟩
  | error f => exact ⟨nofun, nofun⟩

/-- Related computations fail together, and in the same way. -/
theorem Related.error_iff {x : Outcome α} {y : Outcome β} (h : x.Related R y) (f : Failure) :
    x = .error f ↔ y = .error f := by
  cases h with
  | ok _ => exact ⟨nofun, nofun⟩
  | error g =>
    rw [Except.error.injEq, Except.error.injEq]

end Outcome

open Outcome

/-- What is the same for related elements is the same for lists of them. -/
theorem map_of_forall₂ {α β γ : Type} {R : α → β → Prop} {f : α → γ} {g : β → γ}
    (hfg : ∀ a b, R a b → f a = g b) {l : List α} {l' : List β} (h : List.Forall₂ R l l') :
    l.map f = l'.map g := by
  induction h with
  | nil => rfl
  | cons hab _ ih => rw [List.map_cons, List.map_cons, hfg _ _ hab, ih]

/-! ## 2. Requirements -/

section Requirements

variable {name : Option String} {shapes shapes' : List Shape}

namespace Operands

/-- Operands agree in what is listed of them. -/
theorem agree_congr {α : Type} [BEq α] {f : Shape → α} (h : shapes.map f = shapes'.map f) :
    (Operands.mk name shapes).agree f = (Operands.mk name shapes').agree f := by
  have hlist : ∀ shapes : List Shape, (Operands.mk name shapes).agree f =
      match shapes.map f with
      | [] => true
      | first :: _ => (shapes.map f).all (· == first) := by
    intro shapes
    cases shapes with
    | nil => rfl
    | cons first rest =>
      show (first :: rest).all (fun s => f s == f first) =
        ((first :: rest).map f).all (· == f first)
      rw [List.all_map]
      rfl
  rw [hlist, hlist, h]

theorem all_congr {α : Type} {f : Shape → α} (h : shapes.map f = shapes'.map f) (p : α → Bool) :
    (shapes.all fun s => p (f s)) = shapes'.all fun s => p (f s) := by
  have hall := congrArg (List.all · p) h
  rwa [List.all_map, List.all_map] at hall

variable (h : List.Forall₂ Shape.Alike shapes shapes')
include h

theorem lengths_alike : shapes.map Shape.lengths = shapes'.map Shape.lengths :=
  map_of_forall₂ (fun _ _ hst => hst.lengths) h

theorem ranks_alike : shapes.map Shape.rank = shapes'.map Shape.rank :=
  map_of_forall₂ (fun _ _ hst => hst.rank) h

theorem count_alike (n : Nat) :
    (Operands.mk name shapes).count n = (Operands.mk name shapes').count n := by
  unfold count
  rw [show (Operands.mk name shapes).shapes.length = shapes'.length from h.length_eq]
  rfl

theorem rank_alike (n : Nat) :
    (Operands.mk name shapes).rank n = (Operands.mk name shapes').rank n := by
  unfold rank require
  rw [all_congr (ranks_alike h) (· == n)]

theorem leastRank_alike (n : Nat) :
    (Operands.mk name shapes).leastRank n = (Operands.mk name shapes').leastRank n := by
  unfold leastRank require
  rw [all_congr (ranks_alike h) fun r => decide (n ≤ r)]

theorem sameType_alike :
    (Operands.mk name shapes).sameType = (Operands.mk name shapes').sameType := by
  have htypes : shapes.map Shape.elementType = shapes'.map Shape.elementType :=
    map_of_forall₂ (fun _ _ hst => hst.elementType) h
  unfold sameType
  rw [agree_congr htypes, htypes]
  rfl

theorem sameLengths_alike :
    (Operands.mk name shapes).sameLengths = (Operands.mk name shapes').sameLengths := by
  unfold sameLengths
  rw [agree_congr (lengths_alike h), lengths_alike h]
  rfl

theorem sameRank_alike :
    (Operands.mk name shapes).sameRank = (Operands.mk name shapes').sameRank := by
  unfold sameRank
  rw [agree_congr (ranks_alike h), lengths_alike h]
  rfl

/-- The only operands are alike, or there are as many too many or too few. -/
theorem one_alike :
    (Operands.mk name shapes).one.Related Shape.Alike (Operands.mk name shapes').one := by
  have hcount := h.length_eq
  cases h with
  | nil => exact .error _
  | cons hst hrest =>
    cases hrest with
    | nil => exact .ok hst
    | cons _ _ =>
      unfold one
      dsimp only
      rw [hcount]
      exact .error _

theorem two_alike :
    (Operands.mk name shapes).two.Related (fun p q => p.1.Alike q.1 ∧ p.2.Alike q.2)
      (Operands.mk name shapes').two := by
  have hcount := h.length_eq
  cases h with
  | nil => exact .error _
  | cons hst hrest =>
    cases hrest with
    | nil => exact .error _
    | cons hst' hrest =>
      cases hrest with
      | nil => exact .ok ⟨hst, hst'⟩
      | cons _ _ =>
        unfold two
        dsimp only
        rw [hcount]
        exact .error _

end Operands

end Requirements

/-! ## 3. Operators that lay their results out anew -/

section Operators

variable {shapes shapes' : List Shape} (h : List.Forall₂ Shape.Alike shapes shapes')
include h

theorem Convolution.infer_alike (c : Convolution) :
    (c.infer shapes).Related Shape.Alike (c.infer shapes') := by
  refine (Operands.two_alike h).bind fun p q hpq => ?_
  refine .andThen (Operands.sameType_alike h) (.andThen (Operands.sameRank_alike h) ?_)
  refine .andThen (Operands.rank_alike h 4) ?_
  dsimp only
  rw [hpq.1.lengths, hpq.2.lengths, hpq.1.elementType]
  exact .refl Shape.Alike.refl _

theorem Pooling.infer_alike (p : Pooling) :
    (p.infer shapes).Related Shape.Alike (p.infer shapes') := by
  refine (Operands.one_alike h).bind fun s t hst => .andThen (Operands.rank_alike h 4) ?_
  rw [hst.lengths, hst.elementType]
  exact .refl Shape.Alike.refl _

theorem Gemm.infer_alike : (Gemm.infer shapes).Related Shape.Alike (Gemm.infer shapes') := by
  refine (Operands.two_alike h).bind fun p q hpq => ?_
  refine .andThen (Operands.sameType_alike h) (.andThen (Operands.rank_alike h 2) ?_)
  rw [hpq.1.lengths, hpq.2.lengths, hpq.1.elementType]
  exact .refl Shape.Alike.refl _

theorem Contiguous.infer_alike :
    (Contiguous.infer shapes).Related Shape.Alike (Contiguous.infer shapes') := by
  refine (Operands.one_alike h).bind fun s t hst => .andThen (Operands.leastRank_alike h 2) ?_
  unfold Shape.toStandard
  rw [hst.lengths, hst.elementType]
  exact .refl Shape.Alike.refl _

theorem Reshape.infer_alike (dims : List Int) :
    (Reshape.infer dims shapes).Related Shape.Alike (Reshape.infer dims shapes') := by
  refine (Operands.one_alike h).bind fun s t hst => ?_
  unfold Shape.elementCountWord
  rw [hst.lengths, hst.elementType]
  exact .refl Shape.Alike.refl _

theorem Outline.infer_alike (shape : Shape) :
    (Outline.infer shape shapes).Related Shape.Alike (Outline.infer shape shapes') :=
  .andThen (Operands.count_alike h 0) (.refl Shape.Alike.refl _)

end Operators

/-! ## 4. Operators that hand strides on -/

/-- The lengths of a broadcast are made of lengths. -/
theorem Shape.map_length_alignedAxes (lengths : List Nat) (operand : List Axis) (axis : Nat) :
    (alignedAxes lengths operand axis).map Axis.length =
      lengths.take axis ++ operand.map Axis.length ++ lengths.drop (axis + operand.length) := by
  unfold alignedAxes
  rw [List.map_append, List.map_append, lengths_still, lengths_still]

theorem Shape.broadcast_alike {target target' operand operand' : Shape} (ht : target.Alike target')
    (ho : operand.Alike operand') (axis : Nat) :
    (Shape.broadcast target operand axis).Related Alike (Shape.broadcast target' operand' axis) := by
  -- every check looks at lengths and ranks only; the strides come in with the result
  have hsingle : operand.isSingle = operand'.isSingle := by
    unfold isSingle
    rw [ho.lengths]
  have haxes : (alignedAxes target'.lengths operand.axes axis).map Axis.length =
      (alignedAxes target'.lengths operand'.axes axis).map Axis.length := by
    have hl : operand.axes.map Axis.length = operand'.axes.map Axis.length := ho.lengths
    have hr : operand.axes.length = operand'.axes.length := ho.rank
    rw [map_length_alignedAxes, map_length_alignedAxes, hl, hr]
  unfold broadcast
  rw [hsingle, ho.rank, ht.rank, ho.lengths, ht.lengths, ho.elementType]
  refine .ite (.ite (.error _) (.ok (.refl _))) ?_
  refine (Related.refl (fun _ => rfl) _).bind fun runEnd _ hsame => ?_
  subst hsame
  exact .ite (.error _) (.ite (.error _) (.ok ⟨rfl, haxes⟩))

/-- The lengths of a transposed shape are the lengths in another order. -/
theorem Transpose.map_length_permuted (axes : List Axis) (dims : List Nat) :
    (permuted axes dims).map Axis.length = dims.filterMap ((axes.map Axis.length)[·]?) := by
  unfold permuted
  rw [List.map_filterMap]
  refine congrArg (List.filterMap · dims) (funext fun d => ?_)
  rw [List.getElem?_map]

section Strides

variable {shapes shapes' : List Shape} (h : List.Forall₂ Shape.Alike shapes shapes')
include h

theorem Transpose.infer_alike (dims : List Nat) :
    (Transpose.infer dims shapes).Related Shape.Alike (Transpose.infer dims shapes') := by
  refine (Operands.one_alike h).bind fun s t hst => ?_
  have hlengths : (permuted s.axes dims).map Axis.length = (permuted t.axes dims).map Axis.length := by
    have hl : s.axes.map Axis.length = t.axes.map Axis.length := hst.lengths
    rw [map_length_permuted, map_length_permuted, hl]
  rw [hst.rank, hst.elementType]
  exact .ite (.error _) (.ite (.error _) (.ok ⟨rfl, hlengths⟩))

theorem Binary.infer_alike (b : Binary) :
    (b.infer shapes).Related Shape.Alike (b.infer shapes') := by
  refine (Operands.two_alike h).bind fun p q hpq => .andThen (Operands.sameType_alike h) ?_
  dsimp only
  cases b.axis with
  | none => exact .andThen (Operands.sameLengths_alike h) (.ok hpq.1)
  | some axis =>
    -- whether there is a broadcast shape counts, but not which one
    have hbroadcast := (Shape.broadcast_alike hpq.1 hpq.2 axis).withOperator b.name
    exact hbroadcast.discard.bind fun _ _ _ => .ok hpq.1

end Strides

/-! ## 5. The catalog -/

/-- **An operator of the catalog gives alike shapes for alike shapes**, or fails in the same way. -/
theorem Operator.infer_alike (o : Operator) {shapes shapes' : List Shape}
    (h : List.Forall₂ Shape.Alike shapes shapes') :
    (o.infer shapes).Related Shape.Alike (o.infer shapes') := by
  cases o with
  | convolution c => exact c.infer_alike h
  | pooling p => exact p.infer_alike h
  | gemm => exact Gemm.infer_alike h
  | activation mode => exact Operands.one_alike h
  | unary f => exact Operands.one_alike h
  | binary b => exact b.infer_alike h
  | transpose dims => exact Transpose.infer_alike h dims
  | contiguous => exact Contiguous.infer_alike h
  | reshape dims => exact Reshape.infer_alike h dims
  | broadcast axis =>
    refine (Operands.two_alike h).bind fun p q hpq => ?_
    exact (Shape.broadcast_alike hpq.1 hpq.2 axis).withOperator _
  | outline shape => exact Outline.infer_alike h shape

/-- Operators whose inference is blind to strides. -/
def Signature.LayoutBlind (Op : Type) [Signature Op] : Prop :=
  ∀ (op : Op) (shapes shapes' : List Shape), List.Forall₂ Shape.Alike shapes shapes' →
    (Signature.infer op shapes).Related Shape.Alike (Signature.infer op shapes')

/-- **The operators of programs are blind to strides**, kernels and context checks included. -/
theorem Operation.layoutBlind : Signature.LayoutBlind Operation := by
  intro op shapes shapes' h
  cases op with
  | catalog o => exact o.infer_alike h
  | kernel b => exact b.infer_alike h
  | checkContext expected => exact .ok (.refl _)

end TensorGraph
