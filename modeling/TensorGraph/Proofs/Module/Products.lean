import Mathlib.Data.List.Chain
import TensorGraph.Operation
import TensorGraph.Proofs.Module.Invariant
import TensorGraph.Proofs.Operator.Totality

/-!
# Products of matrices

A product of several matrices is built of products of two, and there are many ways to bracket it. A `Bracketing`
is such a way: a tree over instructions of a module. Its products are inserted one by one, each as soon as both of
its factors are there, in any order that this leaves open (`Bracketing.Inserts`), until there is one instruction
for the whole or a product is refused (`Bracketing.Ends`).

* `Leads` -- matrices of one element type, each with as many columns as the next one has rows, as a path from the
  rows of the first to the columns of the last. Paths can be put together (`leads_append`), and a product of two
  neighbours takes their place in a path (`leads_contract`).
* `Bracketing.Inserts.split` -- to insert a product is to replace two neighbours among the factors, whatever the
  tree. What one insertion does to the shapes is in `Inserts.shapes` and `Refuses.shapes`; from them come
  `Ends.product_of_ok` and `Ends.refused_of_error` for a whole construction.
* `Bracketing.bracketings_agree` -- so all bracketings of the same shapes, over instructions of whatever modules,
  give one shape or are refused.
-/

namespace TensorGraph

open Outcome

/-! ## 1. Products of two -/

/-- **Two matrices have a product** if they are of one element type and the first has as many columns as the second
    has rows; the strides play no part. -/
theorem Gemm.infer_eq_ok {left right output : Shape} :
    Gemm.infer [left, right] = .ok output ↔ ∃ rows inner columns,
      left.elementType = right.elementType ∧ left.lengths = [rows, inner] ∧
        right.lengths = [inner, columns] ∧ output = .standard left.elementType [rows, columns] := by
  constructor
  · intro h
    unfold Gemm.infer at h
    obtain ⟨⟨left', right'⟩, hs, h⟩ := bind_eq_ok.mp h
    cases (Operands.two_eq_ok _ _).mp hs
    obtain ⟨ht, h⟩ := then_eq_ok.mp h
    obtain ⟨_, h⟩ := then_eq_ok.mp h
    rw [Operands.sameType, Operands.require_eq_ok, Operands.agree_pair] at ht
    split at h
    · rename_i rows inner inner' columns hl hr
      rw [checkIn_eq_ok, not_not] at h
      obtain ⟨rfl, h⟩ := h
      cases h
      exact ⟨rows, inner, columns, ht, hl, hr, rfl⟩
    · cases h
  · intro h
    obtain ⟨rows, inner, columns, ht, hl, hr, rfl⟩ := h
    have hall : [left, right].all (fun s => s.rank == 2) = true := by
      simp [Shape.rank_of_lengths hl, Shape.rank_of_lengths hr]
    unfold Gemm.infer
    refine bind_eq_ok.mpr ⟨(left, right), (Operands.two_eq_ok _ _).mpr rfl, ?_⟩
    refine then_eq_ok.mpr ⟨(Operands.require_eq_ok _ _ _).mpr ((Operands.agree_pair _ _ _ _).mpr ht), ?_⟩
    refine then_eq_ok.mpr ⟨(Operands.require_eq_ok _ _ _).mpr hall, ?_⟩
    simp [hl, hr]

/-! ## 2. Paths of matrices -/

/-- Matrices of the element type `t`, each with as many columns as the next one has rows, from `rows` of the
    first to `columns` of the last. -/
inductive Leads (t : ElementType) : (rows columns : Nat) → List Shape → Prop where
  | nil {n : Nat} : Leads t n n []
  | cons {s : Shape} {rest : List Shape} {rows inner columns : Nat} :
      s.elementType = t → s.lengths = [rows, inner] → Leads t inner columns rest →
      Leads t rows columns (s :: rest)

section Paths

variable {t : ElementType} {rows columns : Nat} {x y p : Shape}

theorem leads_cons {rest : List Shape} : Leads t rows columns (x :: rest) ↔
    x.elementType = t ∧ ∃ inner, x.lengths = [rows, inner] ∧ Leads t inner columns rest := by
  constructor
  · intro h
    cases h with
    | cons ht hl hrest => exact ⟨ht, _, hl, hrest⟩
  · intro h
    obtain ⟨ht, _, hl, hrest⟩ := h
    exact .cons ht hl hrest

theorem leads_nil : Leads t rows columns [] ↔ rows = columns := by
  constructor
  · intro h
    cases h
    rfl
  · intro h
    cases h
    exact .nil

/-- **Paths can be put together**, and taken apart everywhere. -/
theorem leads_append {front back : List Shape} : Leads t rows columns (front ++ back) ↔
    ∃ inner, Leads t rows inner front ∧ Leads t inner columns back := by
  induction front generalizing rows with
  | nil => simp [leads_nil]
  | cons s front ih =>
    simp only [List.cons_append, leads_cons, ih]
    constructor
    · intro h
      obtain ⟨ht, k, hl, inner, hfront, hback⟩ := h
      exact ⟨inner, ⟨ht, k, hl, hfront⟩, hback⟩
    · intro h
      obtain ⟨inner, ⟨ht, k, hl, hfront⟩, hback⟩ := h
      exact ⟨ht, k, hl, inner, hfront, hback⟩

/-- Two matrices are a path exactly if they have a product. -/
theorem leads_pair : Leads t rows columns [x, y] ↔
    Gemm.infer [x, y] = .ok (.standard t [rows, columns]) := by
  simp only [leads_cons, leads_nil, Gemm.infer_eq_ok]
  constructor
  · intro h
    obtain ⟨rfl, inner, hl, ht, _, hr, rfl⟩ := h
    exact ⟨rows, inner, _, ht.symm, hl, hr, rfl⟩
  · intro h
    obtain ⟨rows', inner, columns', ht, hl, hr, heq⟩ := h
    obtain ⟨rfl, hlengths⟩ := Shape.standard_inj.mp heq
    cases hlengths
    exact ⟨rfl, inner, hl, ht.symm, _, hr, rfl⟩

/-- A product leads where its factors lead. -/
theorem leads_product (h : Gemm.infer [x, y] = .ok p) :
    Leads t rows columns [p] ↔ Leads t rows columns [x, y] := by
  rw [leads_pair, h]
  obtain ⟨rows', inner, columns', ht, _, _, rfl⟩ := Gemm.infer_eq_ok.mp h
  simp only [leads_cons, leads_nil, Shape.elementType_standard, Shape.lengths_standard]
  constructor
  · intro h
    obtain ⟨rfl, _, hl, rfl⟩ := h
    cases hl
    rfl
  · intro h
    obtain ⟨ht', hlengths⟩ := Shape.standard_inj.mp (Except.ok.inj h)
    cases hlengths
    exact ⟨ht', _, rfl, rfl⟩

/-- **A product takes the place of its factors in a path.** -/
theorem leads_contract (h : Gemm.infer [x, y] = .ok p) (front back : List Shape) :
    Leads t rows columns (front ++ p :: back) ↔ Leads t rows columns (front ++ x :: y :: back) := by
  show Leads t rows columns (front ++ ([p] ++ back)) ↔ Leads t rows columns (front ++ ([x, y] ++ back))
  simp only [leads_append, leads_product h]

end Paths

/-! ## 3. Chains as lists -/

/-- Matrices of one element type, of which neighbours have their inner lengths in common. -/
structure Chained (shapes : List Shape) : Prop where
  ranks : ∀ s ∈ shapes, s.rank = 2
  types : ∀ s ∈ shapes, ∀ s' ∈ shapes, s.elementType = s'.elementType
  inner : shapes.IsChain fun s s' => s.lengths[1]? = s'.lengths[0]?

/-- The row-major shape with the rows of the first and the columns of the last of some matrices. -/
inductive Spans (shapes : List Shape) : Shape → Prop where
  | intro {first last : Shape} {rows columns : Nat} :
      shapes.head? = some first → shapes.getLast? = some last →
      first.lengths[0]? = some rows → last.lengths[1]? = some columns →
      Spans shapes (.standard first.elementType [rows, columns])

theorem Leads.forall_mem {t : ElementType} {rows columns : Nat} {shapes : List Shape}
    (h : Leads t rows columns shapes) : ∀ s ∈ shapes, s.rank = 2 ∧ s.elementType = t := by
  induction h with
  | nil => exact nofun
  | cons ht hl _ ih =>
    rw [List.forall_mem_cons]
    exact ⟨⟨Shape.rank_of_lengths hl, ht⟩, ih⟩

theorem Leads.isChain {t : ElementType} {rows columns : Nat} {shapes : List Shape}
    (h : Leads t rows columns shapes) :
    shapes.IsChain fun s s' => s.lengths[1]? = s'.lengths[0]? := by
  induction h with
  | nil => exact .nil
  | cons _ hl hrest ih =>
    rw [List.isChain_cons]
    refine ⟨fun next hnext => ?_, ih⟩
    cases hrest with
    | nil => cases hnext
    | cons _ hl' _ =>
      cases hnext
      rw [hl, hl']
      rfl

/-- The path of a list that is not empty begins with the rows of the first and ends with the columns of the
    last. -/
theorem Leads.spans {t : ElementType} {rows columns : Nat} {shapes : List Shape} (hne : shapes ≠ [])
    (h : Leads t rows columns shapes) : Spans shapes (.standard t [rows, columns]) := by
  have hfirst : ∃ first, shapes.head? = some first ∧ first.elementType = t ∧
      first.lengths[0]? = some rows := by
    cases h with
    | nil => exact absurd rfl hne
    | cons ht hl _ => exact ⟨_, rfl, ht, by rw [hl]; rfl⟩
  have hlast : ∃ last, shapes.getLast? = some last ∧ last.lengths[1]? = some columns := by
    obtain ⟨front, last, rfl⟩ := (List.eq_nil_or_concat shapes).resolve_left hne
    rw [List.concat_eq_append, leads_append] at h
    obtain ⟨inner, _, h⟩ := h
    obtain ⟨_, columns', hl, hend⟩ := leads_cons.mp h
    cases leads_nil.mp hend
    exact ⟨last, by simp, by rw [hl]; rfl⟩
  obtain ⟨first, hf, rfl, hrows⟩ := hfirst
  obtain ⟨last, hl, hcolumns⟩ := hlast
  exact .intro hf hl hrows hcolumns

/-- The shape that some matrices span is one. -/
theorem Spans.unique {shapes : List Shape} {s s' : Shape} (h : Spans shapes s) (h' : Spans shapes s') :
    s = s' := by
  cases h with
  | intro hf hl hrows hcolumns =>
    cases h' with
    | intro hf' hl' hrows' hcolumns' =>
      cases hf.symm.trans hf'
      cases hl.symm.trans hl'
      cases hrows.symm.trans hrows'
      cases hcolumns.symm.trans hcolumns'
      rfl

/-- **Matrices are a path exactly if they are chained.** -/
theorem exists_leads_iff {shapes : List Shape} (hne : shapes ≠ []) :
    (∃ t rows columns, Leads t rows columns shapes) ↔ Chained shapes := by
  constructor
  · intro h
    obtain ⟨t, rows, columns, h⟩ := h
    have hmem := h.forall_mem
    exact ⟨fun s hs => (hmem s hs).1, fun s hs s' hs' => (hmem s hs).2.trans (hmem s' hs').2.symm, h.isChain⟩
  · intro h
    induction shapes with
    | nil => exact absurd rfl hne
    | cons s rest ih =>
      have hrank : s.lengths.length = 2 := (Shape.length_lengths s).trans (h.ranks s List.mem_cons_self)
      obtain ⟨rows, inner, hl⟩ := List.length_eq_two.mp hrank
      cases rest with
      | nil => exact ⟨s.elementType, rows, inner, .cons rfl hl .nil⟩
      | cons next rest =>
        obtain ⟨hjoint, hinner⟩ := List.isChain_cons_cons.mp h.inner
        have htail : Chained (next :: rest) :=
          ⟨fun s' hs => h.ranks s' (List.mem_cons_of_mem _ hs),
            fun s' hs s'' hs' => h.types s' (List.mem_cons_of_mem _ hs) s'' (List.mem_cons_of_mem _ hs'), hinner⟩
        obtain ⟨t, inner', columns, hleads⟩ := ih (List.cons_ne_nil _ _) htail
        obtain ⟨ht, k, hl', _⟩ := leads_cons.mp hleads
        -- the columns of the first are the rows that the path behind it begins with
        have hsame : inner = inner' := by simpa [hl, hl'] using hjoint
        have htype : s.elementType = t :=
          (h.types s List.mem_cons_self next (List.mem_cons_of_mem _ List.mem_cons_self)).trans ht
        exact ⟨t, rows, columns, .cons htype hl (hsame ▸ hleads)⟩

/-! ## 4. A product in a module -/

/-- The product of two matrices as an operation. -/
def Operation.product : Operation := .catalog .gemm

namespace Module

variable {m after : Module Operation} {i j : Nat} {x y : Shape}

theorem shapeOf_eq_ok {k : Nat} {s : Shape} :
    m.shapeOf k = .ok s ↔ ∃ ins, m.instruction? k = some ins ∧ ins.shape = s := by
  unfold shapeOf unknown
  cases hk : m.instruction? k <;> simp

/-- What has a shape keeps it when the module grows. -/
theorem map_shapeOf_push {positions : List Nat} {shapes : List Shape}
    (h : positions.map m.shapeOf = shapes.map .ok) (ins : Instruction Operation) :
    positions.map (m.push ins).shapeOf = shapes.map .ok := by
  rw [← h]
  refine List.map_congr_left fun k hk => ?_
  have hshape : m.shapeOf k ∈ shapes.map .ok := h ▸ List.mem_map_of_mem hk
  obtain ⟨s, _, hs⟩ := List.mem_map.mp hshape
  obtain ⟨found, hfound, _⟩ := shapeOf_eq_ok.mp hs.symm
  have hlt : k < m.size := (List.getElem?_eq_some_iff.mp hfound).1
  unfold shapeOf unknown
  rw [instruction?_push_of_lt hlt, hfound]

theorem shapeOf_push_size (ins : Instruction Operation) : (m.push ins).shapeOf m.size = .ok ins.shape :=
  shapeOf_eq_ok.mpr ⟨ins, instruction?_push_eq_some.mpr (Or.inr ⟨rfl, rfl⟩), rfl⟩

/-- The shapes of instructions in which two neighbours are picked out. -/
theorem shapes_split {front back : List Nat} {shapes : List Shape}
    (h : (front ++ i :: j :: back).map m.shapeOf = shapes.map .ok) : ∃ fronts x y backs,
      shapes = fronts ++ x :: y :: backs ∧ m.shapeOf i = .ok x ∧ m.shapeOf j = .ok y ∧
        front.map m.shapeOf = fronts.map .ok ∧ back.map m.shapeOf = backs.map .ok := by
  rw [List.map_append] at h
  obtain ⟨fronts, rest, rfl, hfront, hrest⟩ := List.map_eq_append_iff.mp h.symm
  obtain ⟨x, rest, rfl, hi, hrest⟩ := List.map_eq_cons_iff.mp hrest
  obtain ⟨y, backs, rfl, hj, hback⟩ := List.map_eq_cons_iff.mp hrest
  exact ⟨fronts, x, y, backs, rfl, hi.symm, hj.symm, hfront.symm, hback.symm⟩

/-- **A product is inserted if the cached shapes have one.** -/
theorem addProduct_eq_ok (ho : m.returnAt = none) (hi : m.shapeOf i = .ok x) (hj : m.shapeOf j = .ok y) :
    m.addInstruction .product [i, j] = .ok after ↔
      ∃ p, Gemm.infer [x, y] = .ok p ∧ after = m.push ⟨.operation .product, [i, j], p⟩ := by
  obtain ⟨left, hleft, rfl⟩ := shapeOf_eq_ok.mp hi
  obtain ⟨right, hright, rfl⟩ := shapeOf_eq_ok.mp hj
  have hreadable : m.Readable [i, j] := by
    have hi' : i < m.size := (List.getElem?_eq_some_iff.mp hleft).1
    have hj' : j < m.size := (List.getElem?_eq_some_iff.mp hright).1
    unfold Readable
    simp [hi', hj', ho]
  have hshapes : m.shapesOf [i, j] = [left.shape, right.shape] := by
    simp [shapesOf, hleft, hright]
  rw [addInstruction_eq_ok, hshapes]
  exact ⟨fun h => h.2.2, fun h => ⟨ho, hreadable, h⟩⟩

theorem checkOperands_ne_fault (inputs : List Nat) : m.checkOperands inputs ≠ .error .fault := by
  induction inputs with
  | nil => exact nofun
  | cons k rest ih =>
    unfold checkOperands unknown
    simp only [ne_eq, check_eq_fault, ih, and_false, not_false_eq_true]

/-- A product that is not inserted is refused with an error. -/
theorem addProduct_ne_fault : m.addInstruction .product [i, j] ≠ .error .fault := by
  have hopen : m.checkOpen ≠ .error .fault := by
    unfold checkOpen
    split <;> nofun
  have hinfer : Signature.infer Operation.product (m.shapesOf [i, j]) ≠ .error .fault := Gemm.infer_ne_fault _
  unfold addInstruction infer
  simp only [ne_eq, bind_eq_fault, hopen, checkOperands_ne_fault, withOperator_eq_fault, hinfer,
    pure_ne_fault, and_false, exists_false, or_false, not_false_eq_true]

end Module

/-! ## 5. Bracketings -/

/-- A way to bracket a product whose factors are instructions of a module. -/
inductive Bracketing where
  | factor (position : Nat)
  | product (left right : Bracketing)

namespace Bracketing

/-- The factors in their order. -/
def factors : Bracketing → List Nat
  | factor position => [position]
  | product left right => left.factors ++ right.factors

/-- One product is inserted, somewhere where both factors are there, and becomes a factor of the rest. -/
inductive Inserts (m : Module Operation) : Bracketing → Module Operation → Bracketing → Prop where
  | product {i j : Nat} {after : Module Operation} :
      m.addInstruction .product [i, j] = .ok after →
      Inserts m (.product (.factor i) (.factor j)) after (.factor m.size)
  | left {left left' right : Bracketing} {after : Module Operation} :
      Inserts m left after left' → Inserts m (.product left right) after (.product left' right)
  | right {left right right' : Bracketing} {after : Module Operation} :
      Inserts m right after right' → Inserts m (.product left right) after (.product left right')

/-- One product is refused, somewhere where both factors are there. -/
inductive Refuses (m : Module Operation) : Bracketing → Failure → Prop where
  | product {i j : Nat} {f : Failure} :
      m.addInstruction .product [i, j] = .error f →
      Refuses m (.product (.factor i) (.factor j)) f
  | left {left right : Bracketing} {f : Failure} :
      Refuses m left f → Refuses m (.product left right) f
  | right {left right : Bracketing} {f : Failure} :
      Refuses m right f → Refuses m (.product left right) f

/-- Inserting one product after the other ends with a module and the instruction of the whole, or with the first
    product that is refused. -/
inductive Ends : Module Operation → Bracketing → Outcome (Module Operation × Nat) → Prop where
  | whole {m : Module Operation} {position : Nat} : Ends m (.factor position) (.ok (m, position))
  | refused {m : Module Operation} {b : Bracketing} {f : Failure} : Refuses m b f → Ends m b (.error f)
  | inserted {m after : Module Operation} {b b' : Bracketing} {o : Outcome (Module Operation × Nat)} :
      Inserts m b after b' → Ends after b' o → Ends m b o

variable {m after : Module Operation} {b b' : Bracketing}

/-- **An insertion replaces two neighbours among the factors**, whatever the tree. -/
theorem Inserts.split (h : Inserts m b after b') : ∃ front i j back,
    b.factors = front ++ i :: j :: back ∧ b'.factors = front ++ m.size :: back ∧
      m.addInstruction .product [i, j] = .ok after := by
  induction h with
  | @product i j _ h => exact ⟨[], i, j, [], rfl, rfl, h⟩
  | @left _ _ right _ _ ih =>
    obtain ⟨front, i, j, back, hb, hb', h⟩ := ih
    refine ⟨front, i, j, back ++ right.factors, ?_, ?_, h⟩
    · rw [factors, hb, List.append_assoc, List.cons_append, List.cons_append]
    · rw [factors, hb', List.append_assoc, List.cons_append]
  | @right left _ _ _ _ ih =>
    obtain ⟨front, i, j, back, hb, hb', h⟩ := ih
    refine ⟨left.factors ++ front, i, j, back, ?_, ?_, h⟩
    · rw [factors, hb, List.append_assoc]
    · rw [factors, hb', List.append_assoc]

theorem Refuses.split {f : Failure} (h : Refuses m b f) : ∃ front i j back,
    b.factors = front ++ i :: j :: back ∧ m.addInstruction .product [i, j] = .error f := by
  induction h with
  | @product i j _ h => exact ⟨[], i, j, [], rfl, h⟩
  | @left _ right _ _ ih =>
    obtain ⟨front, i, j, back, hb, h⟩ := ih
    refine ⟨front, i, j, back ++ right.factors, ?_, h⟩
    rw [factors, hb, List.append_assoc, List.cons_append, List.cons_append]
  | @right left _ _ _ ih =>
    obtain ⟨front, i, j, back, hb, h⟩ := ih
    refine ⟨left.factors ++ front, i, j, back, ?_, h⟩
    rw [factors, hb, List.append_assoc]

/-- As long as there is a product left, one is inserted or refused. -/
theorem factor_or_inserts_or_refuses (m : Module Operation) (b : Bracketing) :
    (∃ position, b = .factor position) ∨ (∃ after b', Inserts m b after b') ∨ ∃ f, Refuses m b f := by
  induction b with
  | factor position => exact Or.inl ⟨position, rfl⟩
  | product left right ihl ihr =>
    refine Or.inr ?_
    rcases ihl with ⟨i, rfl⟩ | ⟨_, _, hl⟩ | ⟨_, hl⟩
    · rcases ihr with ⟨j, rfl⟩ | ⟨_, _, hr⟩ | ⟨_, hr⟩
      · -- both factors are there
        cases h : m.addInstruction .product [i, j] with
        | ok after => exact Or.inl ⟨_, _, .product h⟩
        | error f => exact Or.inr ⟨f, .product h⟩
      · exact Or.inl ⟨_, _, .right hr⟩
      · exact Or.inr ⟨_, .right hr⟩
    · exact Or.inl ⟨_, _, .left hl⟩
    · exact Or.inr ⟨_, .left hl⟩

/-- **Every construction comes to an end**, for each insertion leaves one factor less. -/
theorem exists_ends (m : Module Operation) (b : Bracketing) : ∃ o, Ends m b o := by
  rcases factor_or_inserts_or_refuses m b with ⟨position, rfl⟩ | ⟨after, b', h⟩ | ⟨f, h⟩
  · exact ⟨_, .whole⟩
  · have hless : b'.factors.length < b.factors.length := by
      obtain ⟨front, i, j, back, hb, hb', _⟩ := h.split
      simp only [hb, hb', List.length_append, List.length_cons]
      omega
    obtain ⟨o, ho⟩ := exists_ends after b'
    exact ⟨o, .inserted h ho⟩
  · exact ⟨_, .refused h⟩
termination_by b.factors.length

/-! ## 6. What a construction comes to -/

/-- **An insertion puts the product of two neighbours in their place** among the shapes of the factors. -/
theorem Inserts.shapes (h : Inserts m b after b') (ho : m.returnAt = none) {shapes : List Shape}
    (hs : b.factors.map m.shapeOf = shapes.map .ok) : after.returnAt = none ∧ ∃ fronts x y backs p,
      shapes = fronts ++ x :: y :: backs ∧ Gemm.infer [x, y] = .ok p ∧
        b'.factors.map after.shapeOf = (fronts ++ p :: backs).map .ok := by
  obtain ⟨front, i, j, back, hb, hb', hadd⟩ := h.split
  rw [hb] at hs
  obtain ⟨fronts, x, y, backs, rfl, hi, hj, hfront, hback⟩ := Module.shapes_split hs
  obtain ⟨p, hp, rfl⟩ := (Module.addProduct_eq_ok ho hi hj).mp hadd
  refine ⟨ho, fronts, x, y, backs, p, rfl, hp, ?_⟩
  rw [hb', List.map_append, List.map_cons, Module.map_shapeOf_push hfront, Module.shapeOf_push_size,
    Module.map_shapeOf_push hback, List.map_append, List.map_cons]

/-- A refusal comes of two neighbours that have no product. -/
theorem Refuses.shapes {f : Failure} (h : Refuses m b f) (ho : m.returnAt = none) {shapes : List Shape}
    (hs : b.factors.map m.shapeOf = shapes.map .ok) : (∃ e, f = .error e) ∧ ∃ fronts x y backs,
      shapes = fronts ++ x :: y :: backs ∧ ∀ p, Gemm.infer [x, y] ≠ .ok p := by
  obtain ⟨front, i, j, back, hb, hadd⟩ := h.split
  rw [hb] at hs
  obtain ⟨fronts, x, y, backs, rfl, hi, hj, _, _⟩ := Module.shapes_split hs
  refine ⟨?_, fronts, x, y, backs, rfl, fun p hp => ?_⟩
  · cases f with
    | error e => exact ⟨e, rfl⟩
    | fault => exact absurd hadd Module.addProduct_ne_fault
  · have hok := (Module.addProduct_eq_ok ho hi hj).mpr ⟨p, hp, rfl⟩
    rw [hadd] at hok
    cases hok

/-- The shape that a product of matrices has: a single one keeps its own. -/
def ProductOf (shapes : List Shape) (s : Shape) : Prop :=
  shapes = [s] ∨ 2 ≤ shapes.length ∧ ∃ t rows columns, Leads t rows columns shapes ∧
    s = .standard t [rows, columns]

/-- What a list with a product in the place of two neighbours has for a product, the list itself has. -/
theorem ProductOf.expand {x y p s : Shape} {front back : List Shape} (h : Gemm.infer [x, y] = .ok p)
    (hs : ProductOf (front ++ p :: back) s) : ProductOf (front ++ x :: y :: back) s := by
  have hlength : 2 ≤ (front ++ x :: y :: back).length := by
    simp only [List.length_append, List.length_cons]
    omega
  refine Or.inr ⟨hlength, ?_⟩
  rcases hs with hone | ⟨_, t, rows, columns, hleads, hs⟩
  · cases front with
    | nil =>
      -- the two are all there is
      cases hone
      obtain ⟨rows, _, columns, _, _, _, rfl⟩ := Gemm.infer_eq_ok.mp h
      exact ⟨_, rows, columns, leads_pair.mpr h, rfl⟩
    | cons first front => simp at hone
  · exact ⟨t, rows, columns, (leads_contract h front back).mp hleads, hs⟩

variable {o : Outcome (Module Operation × Nat)} {shapes : List Shape}

/-- **What a construction ends with has the shape of the product.** -/
theorem Ends.product_of_ok (h : Ends m b o) (ho : m.returnAt = none)
    (hs : b.factors.map m.shapeOf = shapes.map .ok) {whole : Module Operation × Nat} (hw : o = .ok whole) :
    ∃ s, whole.1.shapeOf whole.2 = .ok s ∧ ProductOf shapes s := by
  induction h generalizing shapes with
  | whole =>
    cases hw
    obtain ⟨s, _, rfl, hshape, hrest⟩ := List.map_eq_cons_iff.mp hs.symm
    cases List.map_eq_nil_iff.mp hrest
    exact ⟨s, hshape.symm, Or.inl rfl⟩
  | refused => cases hw
  | inserted hinsert _ ih =>
    obtain ⟨ho', fronts, x, y, backs, p, rfl, hp, hs'⟩ := hinsert.shapes ho hs
    obtain ⟨s, hshape, hproduct⟩ := ih ho' hs' hw
    exact ⟨s, hshape, hproduct.expand hp⟩

/-- **A construction that is refused is one of matrices that are no path.** -/
theorem Ends.refused_of_error (h : Ends m b o) (ho : m.returnAt = none)
    (hs : b.factors.map m.shapeOf = shapes.map .ok) {f : Failure} (hf : o = .error f) :
    (∃ e, f = .error e) ∧ ∀ t rows columns, ¬ Leads t rows columns shapes := by
  induction h generalizing shapes with
  | whole => cases hf
  | refused hrefuse =>
    cases hf
    obtain ⟨he, fronts, x, y, backs, rfl, hnone⟩ := hrefuse.shapes ho hs
    refine ⟨he, fun t rows columns hleads => ?_⟩
    obtain ⟨inner, _, hrest⟩ := leads_append.mp hleads
    have hrest : Leads t inner columns ([x, y] ++ backs) := hrest
    obtain ⟨_, hpair, _⟩ := leads_append.mp hrest
    exact hnone _ (leads_pair.mp hpair)
  | inserted hinsert _ ih =>
    obtain ⟨ho', fronts, x, y, backs, p, rfl, hp, hs'⟩ := hinsert.shapes ho hs
    obtain ⟨he, hnone⟩ := ih ho' hs' hf
    exact ⟨he, fun t rows columns hleads => hnone t rows columns ((leads_contract hp fronts backs).mpr hleads)⟩

/-- A construction gives the shape that the matrices span if they are chained, and is refused if they are not. -/
theorem Ends.spans_or_refused (h : Ends m b o) (ho : m.returnAt = none) (hlength : 2 ≤ shapes.length)
    (hs : b.factors.map m.shapeOf = shapes.map .ok) :
    (Chained shapes ∧ ∃ s whole, Spans shapes s ∧ o = .ok whole ∧ whole.1.shapeOf whole.2 = .ok s) ∨
      ¬ Chained shapes ∧ ∃ e, o = .error (.error e) := by
  have hne : shapes ≠ [] := by
    rintro rfl
    cases hlength
  cases o with
  | ok whole =>
    obtain ⟨s, hshape, hproduct⟩ := h.product_of_ok ho hs rfl
    rcases hproduct with rfl | ⟨_, t, rows, columns, hleads, rfl⟩
    · simp at hlength
    · have hchained : Chained shapes := (exists_leads_iff hne).mp ⟨t, rows, columns, hleads⟩
      exact Or.inl ⟨hchained, _, whole, hleads.spans hne, rfl, hshape⟩
  | error f =>
    obtain ⟨⟨e, rfl⟩, hnone⟩ := h.refused_of_error ho hs rfl
    refine Or.inr ⟨fun hchained => ?_, e, rfl⟩
    obtain ⟨t, rows, columns, hleads⟩ := (exists_leads_iff hne).mpr hchained
    exact hnone t rows columns hleads

/-- **All bracketings of a product agree.** Take two bracketings of the same shapes, two or more of any rank, type
    and strides, over instructions of modules that are not sealed, and insert their products in any order. Both
    constructions come to an end. Both are accepted if the shapes are of rank 2 and of one type and all inner
    lengths agree, and the cached shape of the whole is the row-major one with the rows of the first and the
    columns of the last; if not, both are refused with an error. -/
theorem bracketings_agree {m m' : Module Operation} {b b' : Bracketing} {shapes : List Shape}
    (ho : m.returnAt = none) (ho' : m'.returnAt = none) (hlength : 2 ≤ shapes.length)
    (hs : b.factors.map m.shapeOf = shapes.map .ok) (hs' : b'.factors.map m'.shapeOf = shapes.map .ok) :
    (∃ o, Ends m b o) ∧ (∃ o', Ends m' b' o') ∧ ∀ o o', Ends m b o → Ends m' b' o' →
      (Chained shapes ∧ ∃ s whole whole', Spans shapes s ∧ o = .ok whole ∧ o' = .ok whole' ∧
          whole.1.shapeOf whole.2 = .ok s ∧ whole'.1.shapeOf whole'.2 = .ok s) ∨
        ¬ Chained shapes ∧ ∃ e e', o = .error (.error e) ∧ o' = .error (.error e') := by
  refine ⟨exists_ends m b, exists_ends m' b', fun o o' h h' => ?_⟩
  rcases h.spans_or_refused ho hlength hs with ⟨hchained, s, whole, hspans, hw, hshape⟩ | ⟨hnot, e, he⟩
  · rcases h'.spans_or_refused ho' hlength hs' with ⟨_, s', whole', hspans', hw', hshape'⟩ | ⟨hnot, _⟩
    · cases hspans.unique hspans'
      exact Or.inl ⟨hchained, s, whole, whole', hspans, hw, hw', hshape, hshape'⟩
    · exact absurd hchained hnot
  · rcases h'.spans_or_refused ho' hlength hs' with ⟨hchained, _⟩ | ⟨_, e', he'⟩
    · exact absurd hchained hnot
    · exact Or.inr ⟨hnot, e, e', he, he'⟩

/-- Three matrices, of which the second is not row-major, and both ways to bracket them. -/
theorem three_matrices_agree :
    let shapes : List Shape :=
      [.standard .f32 [2, 3], ⟨.f32, [⟨3, 1⟩, ⟨4, 3⟩]⟩, .standard .f32 [4, 5]]
    let m : Module Operation := (Module.new "main").run
      [.parameter "a" (.standard .f32 [2, 3]), .parameter "b" ⟨.f32, [⟨3, 1⟩, ⟨4, 3⟩]⟩,
        .parameter "c" (.standard .f32 [4, 5])]
    let b : Bracketing := .product (.product (.factor 0) (.factor 1)) (.factor 2)
    let b' : Bracketing := .product (.factor 0) (.product (.factor 1) (.factor 2))
    m.returnAt = none ∧ 2 ≤ shapes.length ∧ b.factors.map m.shapeOf = shapes.map .ok ∧
      b'.factors.map m.shapeOf = shapes.map .ok ∧
      ∃ whole whole', Ends m b (.ok whole) ∧ Ends m b' (.ok whole') ∧
        whole.1.shapeOf whole.2 = .ok (.standard .f32 [2, 5]) ∧
        whole'.1.shapeOf whole'.2 = .ok (.standard .f32 [2, 5]) := by
  intro shapes m b b'
  have hopen : m.returnAt = none := rfl
  have hlength : 2 ≤ shapes.length := by decide
  have hs : b.factors.map m.shapeOf = shapes.map .ok := rfl
  have hs' : b'.factors.map m.shapeOf = shapes.map .ok := rfl
  have hchained : Chained shapes := ⟨by decide, by decide, by decide⟩
  have hspans : Spans shapes (.standard (Shape.standard .f32 [2, 3]).elementType [2, 5]) :=
    .intro rfl rfl rfl rfl
  obtain ⟨⟨o, h⟩, ⟨o', h'⟩, hagree⟩ := bracketings_agree hopen hopen hlength hs hs'
  rcases hagree o o' h h' with ⟨_, s, whole, whole', hs, rfl, rfl, hshape, hshape'⟩ | ⟨hnot, _⟩
  · cases hs.unique hspans
    exact ⟨hopen, hlength, rfl, rfl, whole, whole', h, h', hshape, hshape'⟩
  · exact absurd hchained hnot

end Bracketing

end TensorGraph
