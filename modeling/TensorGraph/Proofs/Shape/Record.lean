import TensorGraph.Proofs.Outcome
import TensorGraph.Proofs.Shape.Strides
import TensorGraph.Proofs.Value.Reading
import TensorGraph.Shape.Record

/-!
# Shapes as they are written

A shape is written with its element type, its lengths and its strides. The element type may be left out
if it is the default one, and the strides if they are the row-major ones; these may also be null. A record
has each of its keys once, as in parsed data; of a repeated key the first entry would count.

* `Shape.Writes`, `Shape.exists_writes` -- the values that write a shape, of which there is always one;
* `Shape.ofValue?_of_writes` -- every shape whose numbers are words is read as it is written;
* `Shape.Describes` -- the values that describe a shape by its parts, with the strides or without;
* `Shape.reading_exact` -- they are the values that are read, and what is read has the parts described.
  So the writer and the reader fit, though what the reader accepts is more than what the writer writes.
-/

namespace TensorGraph

/-! ## 1. Parts -/

/-- **An element type is found exactly under its name.** -/
theorem ElementType.ofName?_eq_some_iff {text : String} {t : ElementType} :
    ElementType.ofName? text = some t ↔ text = t.name := by
  constructor
  · intro h
    have hname := List.find?_some (p := fun t : ElementType => t.name == text) h
    exact (beq_iff_eq.mp hname).symm
  · intro h
    rw [h, ElementType.ofName?_name]

namespace Shape

/-- A shape is made of lengths and strides, equally many, if it has them. -/
theorem mk_eq_iff {t : ElementType} {lengths strides : List Nat} {s : Shape}
    (h : lengths.length = strides.length) :
    Shape.mk t (axesOf lengths strides) = s ↔
      s.elementType = t ∧ s.lengths = lengths ∧ s.strides = strides := by
  constructor
  · intro hs
    subst hs
    exact ⟨rfl, lengths_axesOf h t, strides_axesOf h t⟩
  · intro hs
    obtain ⟨htype, hlengths, hstrides⟩ := hs
    exact eq_of_parts htype.symm ((lengths_axesOf h t).trans hlengths.symm)
      ((strides_axesOf h t).trans hstrides.symm)

/-- **Parts make the shape that has them**, if there are as many strides as lengths. -/
theorem ofParts_eq_ok_iff {t : ElementType} {lengths : List Nat} {strides : Option (List Nat)}
    {s : Shape} : ofParts t lengths strides = .ok s ↔
      (∀ given ∈ strides, lengths.length = given.length) ∧ s.elementType = t ∧
        s.lengths = lengths ∧ s.strides = strides.getD (standardStrides lengths) := by
  cases strides with
  | none =>
    have hranks : lengths.length = (standardStrides lengths).length :=
      (length_standardStrides lengths).symm
    refine (Except.ok.injEq _ _).to_iff.trans ((mk_eq_iff hranks).trans ?_)
    exact (and_iff_right nofun).symm
  | some given =>
    have hmade : ofParts t lengths (some given) = .ok s ↔
        lengths.length = given.length ∧ Shape.mk t (axesOf lengths given) = s := by
      unfold ofParts withStrides
      dsimp only
      split
      · next h => exact (Except.ok.injEq _ _).to_iff.trans (and_iff_right h).symm
      · next h => exact ⟨nofun, fun h' => absurd h'.1 h⟩
    rw [hmade, and_congr_right mk_eq_iff]
    simp only [Option.mem_some_iff, forall_eq', Option.getD_some]

/-- Strides of which there are as many as lengths make a shape, and so do none. -/
theorem exists_ofParts {t : ElementType} {lengths : List Nat} {strides : Option (List Nat)}
    (h : ∀ given ∈ strides, lengths.length = given.length) :
    ∃ s, ofParts t lengths strides = .ok s := by
  cases strides with
  | none => exact ⟨_, rfl⟩
  | some given => exact ⟨_, if_pos (h given rfl)⟩

/-- A shape is made of its lengths and strides. -/
theorem ofParts_strides (s : Shape) : ofParts s.elementType s.lengths (some s.strides) = .ok s := by
  refine ofParts_eq_ok_iff.mpr ⟨fun given h => ?_, rfl, rfl, rfl⟩
  rw [← Option.some.inj h, length_lengths, length_strides]

/-- A row-major shape is made of its lengths alone. -/
theorem ofParts_of_isStandard {s : Shape} (h : s.isStandard = true) :
    ofParts s.elementType s.lengths none = .ok s :=
  ofParts_eq_ok_iff.mpr ⟨nofun, rfl, rfl, beq_iff_eq.mp h⟩

/-- The lengths and strides are words. -/
def InWords (s : Shape) : Prop :=
  (∀ n ∈ s.lengths, n < Word.bound) ∧ ∀ n ∈ s.strides, n < Word.bound

/-! ## 2. What is written is read -/

/-- What is found for the three fields is read as the shape that they make. -/
theorem ofValue?_of_slots {v : Value} {s : Shape} {a b c : Option Value} {t : ElementType}
    {lengths : List Nat} {strides : Option (List Nat)}
    (hslots : v.slots? fieldNames = some [a, b, c])
    (htype : Value.fieldOr default (Value.choice? ElementType.ofName?) a = some t)
    (hlengths : b.bind Value.nats? = some lengths)
    (hstrides : Value.fieldOr none (Value.nullable? Value.nats?) c = some strides)
    (hmade : ofParts t lengths strides = .ok s) : ofValue? v = some s := by
  unfold ofValue?
  rw [hslots]
  dsimp only
  rw [htype, hlengths, hstrides]
  exact congrArg Except.toOption hmade

/-- The strides of a shape: written, or null or left out if they are the row-major ones. -/
def stridesField (s : Shape) : Field where
  name := "strides"
  WrittenBy v := Value.WritesNats s.strides v ∨ v = .null ∧ s.isStandard = true
  Omittable := s.isStandard = true

/-- The fields of a shape in the order in which a list gives them. -/
def fields (s : Shape) : List Field :=
  [.optional "type" (fun t => Value.WritesName t.name) s.elementType default,
    .required "lens" Value.WritesNats s.lengths, s.stridesField]

/-- The value writes the shape. -/
def Writes (s : Shape) (v : Value) : Prop := WritesFields s.fields v

/-- Every shape can be written. -/
theorem exists_writes (s : Shape) : ∃ v, s.Writes v := by
  refine exists_writesFields (List.forall_mem_cons.mpr ⟨⟨_, Or.inl rfl⟩, ?_⟩)
  refine List.forall_mem_cons.mpr ⟨⟨_, rfl⟩, List.forall_mem_singleton.mpr ?_⟩
  exact ⟨_, Or.inl rfl⟩

/-- What is found in the place of the strides completes the shape. -/
theorem exists_strides {s : Shape} (hs : s.InWords) {slot : Option Value}
    (h : s.stridesField.Fills slot) :
    ∃ strides, Value.fieldOr none (Value.nullable? Value.nats?) slot = some strides ∧
      ofParts s.elementType s.lengths strides = .ok s := by
  cases slot with
  | none => exact ⟨none, rfl, ofParts_of_isStandard h⟩
  | some v =>
    rcases h with h | ⟨rfl, hstandard⟩
    · refine ⟨some s.strides, ?_, ofParts_strides s⟩
      have hread := Value.nats?_of_writes hs.2 v h
      have hne : v ≠ .null := by
        rw [h]
        nofun
      exact (Value.nullable?_of_ne hne).trans (congrArg _ hread)
    · exact ⟨none, rfl, ofParts_of_isStandard hstandard⟩

/-- **Every shape is read as it is written.** -/
theorem ofValue?_of_writes {s : Shape} (hs : s.InWords) (v : Value) (h : s.Writes v) :
    ofValue? v = some s := by
  have hnames : s.fields.map Field.name = fieldNames := rfl
  obtain ⟨slots, hslots, hfills⟩ := WritesFields.exists_slots h hnames (by decide)
  obtain _ | ⟨htype, _ | ⟨hlengths, _ | ⟨hstrides, _ | _⟩⟩⟩ := hfills
  have ht := Field.fieldOr_optional htype
    (Value.choice?_of_writes (ElementType.ofName?_name s.elementType))
  have hl := Field.bind_required hlengths (Value.nats?_of_writes hs.1)
  obtain ⟨strides, hstrides, hmade⟩ := exists_strides hs hstrides
  exact ofValue?_of_slots hslots ht hl hstrides hmade

/-- A shape is written as a record of its three fields. -/
theorem writes_toValue (s : Shape) : s.Writes s.toValue := by
  refine .record (List.forall_mem_cons.mpr ⟨?_, List.forall_mem_cons.mpr ⟨?_, ?_⟩⟩) fun f hf => ?_
  · exact ⟨_, List.mem_cons_self, rfl, .inl rfl⟩
  · exact ⟨_, List.mem_cons_of_mem _ List.mem_cons_self, rfl, rfl⟩
  · refine List.forall_mem_singleton.mpr ⟨s.stridesField, ?_, rfl, .inl rfl⟩
    exact List.mem_cons_of_mem _ (List.mem_cons_of_mem _ List.mem_cons_self)
  · exact .inl (List.mem_map_of_mem (f := Field.name) hf)

/-! ## 3. What is read -/

/-- The fields of a shape that is given by its parts. -/
def partFields (t : ElementType) (lengths : List Nat) (strides : Option (List Nat)) : List Field :=
  [.optional "type" (fun t => Value.WritesName t.name) t default,
    .required "lens" Value.WritesWords lengths,
    .optional "strides" (Value.WritesOption Value.WritesWords) strides none]

/-- The value describes a shape by its element type, its lengths and its strides, or without strides. -/
structure Describes (t : ElementType) (lengths : List Nat) (strides : Option (List Nat)) (v : Value) :
    Prop where
  fields : FillsFields (partFields t lengths strides) v
  ranks : ∀ given ∈ strides, lengths.length = given.length

/-- What is read is what can be made of the parts that the value gives. -/
theorem ofValue?_eq_some_iff {v : Value} {s : Shape} :
    ofValue? v = some s ↔ ∃ t lengths strides,
      FillsFields (partFields t lengths strides) v ∧ ofParts t lengths strides = .ok s := by
  have htype (t : ElementType) (v : Value) :
      Value.choice? ElementType.ofName? v = some t ↔ Value.WritesName t.name v :=
    Value.choice?_eq_some_iff fun _ _ => ElementType.ofName?_eq_some_iff
  have hstrides (strides : Option (List Nat)) (v : Value) :
      Value.nullable? Value.nats? v = some strides ↔ Value.WritesOption Value.WritesWords strides v :=
    Value.nullable?_eq_some_iff (fun _ _ => Value.nats?_eq_some_iff) rfl
  constructor
  · intro h
    unfold ofValue? at h
    split at h
    · next hslots =>
      obtain ⟨t, ht, h⟩ := Option.bind_eq_some_iff.mp h
      obtain ⟨lengths, hl, h⟩ := Option.bind_eq_some_iff.mp h
      obtain ⟨strides, hs, hmade⟩ := Option.bind_eq_some_iff.mp h
      refine ⟨t, lengths, strides, fillsFields_iff.mpr ⟨_, hslots, ?_⟩, ?_⟩
      · exact .cons ((Field.fieldOr_eq_some_iff (htype t)).mp ht)
          (.cons ((Field.bind_eq_some_iff fun _ => Value.nats?_eq_some_iff).mp hl)
            (.cons ((Field.fieldOr_eq_some_iff (hstrides strides)).mp hs) .nil))
      · exact Outcome.toOption_eq_some.mp hmade
    · cases h
  · intro h
    obtain ⟨t, lengths, strides, hfields, hmade⟩ := h
    obtain ⟨slots, hslots, hfills⟩ := fillsFields_iff.mp hfields
    obtain _ | ⟨ht, _ | ⟨hl, _ | ⟨hs, _ | _⟩⟩⟩ := hfills
    have ht := (Field.fieldOr_eq_some_iff (htype t)).mpr ht
    have hl := (Field.bind_eq_some_iff fun _ => Value.nats?_eq_some_iff).mpr hl
    have hs := (Field.fieldOr_eq_some_iff (hstrides strides)).mpr hs
    exact ofValue?_of_slots hslots ht hl hs hmade

/-- **A value is read exactly as the shape that it describes.** -/
theorem ofValue?_eq_some_iff_describes {v : Value} {s : Shape} :
    ofValue? v = some s ↔ ∃ t lengths strides, Describes t lengths strides v ∧
      s.elementType = t ∧ s.lengths = lengths ∧
      s.strides = strides.getD (standardStrides lengths) := by
  rw [ofValue?_eq_some_iff]
  constructor
  · intro h
    obtain ⟨t, lengths, strides, hfields, hmade⟩ := h
    obtain ⟨hranks, hparts⟩ := ofParts_eq_ok_iff.mp hmade
    exact ⟨t, lengths, strides, ⟨hfields, hranks⟩, hparts⟩
  · intro h
    obtain ⟨t, lengths, strides, hv, hparts⟩ := h
    exact ⟨t, lengths, strides, hv.fields, ofParts_eq_ok_iff.mpr ⟨hv.ranks, hparts⟩⟩

/-- The lengths and strides that are described are words. -/
theorem Describes.words {t : ElementType} {lengths : List Nat} {strides : Option (List Nat)}
    {v : Value} (h : Describes t lengths strides v) :
    (∀ n ∈ lengths, n < Word.bound) ∧ ∀ given ∈ strides, ∀ n ∈ given, n < Word.bound := by
  obtain ⟨slots, _, hfills⟩ := fillsFields_iff.mp h.fields
  obtain _ | ⟨_, _ | ⟨hlengths, _ | ⟨hstrides, _⟩⟩⟩ := hfills
  constructor
  · obtain ⟨v, hv⟩ := Field.fills_required hlengths
    exact hv.1
  · intro given hgiven
    obtain hnone | ⟨v, hv⟩ := Field.fills_optional hstrides
    · rw [hnone] at hgiven
      cases hgiven
    · rw [hgiven] at hv
      exact hv.1

/-- **The form in which shapes are written is lossless, and checked when it is read.** A shape is read back
    from what it is written as. What is read are the values that describe a shape, and no others; what
    is read of them has the parts that they give, and it is the row-major shape if they give no strides. -/
theorem reading_exact :
    (∀ s : Shape, s.InWords → ofValue? s.toValue = some s) ∧
    (∀ v, (∃ s, ofValue? v = some s) ↔ ∃ t lengths strides, Describes t lengths strides v) ∧
    (∀ t lengths strides v, Describes t lengths strides v →
      ∃ s, ofValue? v = some s ∧ s.elementType = t ∧ s.lengths = lengths ∧
        (∀ given ∈ strides, s.strides = given) ∧ (strides = none → s = standard t lengths)) ∧
    ∀ v s, ofValue? v = some s → s.InWords ∧ s.strides.length = s.lengths.length := by
  have hread (t : ElementType) (lengths : List Nat) (strides : Option (List Nat)) (v : Value)
      (h : Describes t lengths strides v) :
      ∃ s, ofValue? v = some s ∧ s.elementType = t ∧ s.lengths = lengths ∧
        s.strides = strides.getD (standardStrides lengths) := by
    obtain ⟨s, hmade⟩ := exists_ofParts (t := t) h.ranks
    obtain ⟨_, hparts⟩ := ofParts_eq_ok_iff.mp hmade
    exact ⟨s, ofValue?_eq_some_iff_describes.mpr ⟨t, lengths, strides, h, hparts⟩, hparts⟩
  refine ⟨fun s hs => ofValue?_of_writes hs _ s.writes_toValue, fun v => ⟨?_, ?_⟩, ?_, ?_⟩
  · intro h
    obtain ⟨s, hs⟩ := h
    obtain ⟨t, lengths, strides, hv, _⟩ := ofValue?_eq_some_iff_describes.mp hs
    exact ⟨t, lengths, strides, hv⟩
  · intro h
    obtain ⟨t, lengths, strides, hv⟩ := h
    obtain ⟨s, hs, _⟩ := hread t lengths strides v hv
    exact ⟨s, hs⟩
  · intro t lengths strides v hv
    obtain ⟨s, hs, htype, hlengths, hstrides⟩ := hread t lengths strides v hv
    refine ⟨s, hs, htype, hlengths, fun given hgiven => ?_, fun hnone => ?_⟩
    · rw [hstrides, hgiven, Option.getD_some]
    · rw [hnone, Option.getD_none] at hstrides
      exact eq_of_parts htype (hlengths.trans (lengths_standard t lengths).symm)
        (hstrides.trans (strides_standard t lengths).symm)
  · intro v s hs
    obtain ⟨t, lengths, strides, hv, _, hlengths, hstrides⟩ :=
      ofValue?_eq_some_iff_describes.mp hs
    obtain ⟨hlengthWords, hstrideWords⟩ := hv.words
    refine ⟨⟨?_, ?_⟩, by rw [length_strides, length_lengths]⟩
    · rw [hlengths]
      exact hlengthWords
    · rw [hstrides]
      cases strides with
      | none => exact fun n hn => lt_bound_of_mem_standardStrides hn
      | some given => exact hstrideWords given rfl

/-- Lengths alone, and nothing else, describe a row-major matrix of 32-bit floats. -/
theorem matrix_read_from_lengths :
    Describes .f32 [2, 3] none (.record [("lens", .ofNats [2, 3])]) ∧
      ∃ s, ofValue? (.record [("lens", .ofNats [2, 3])]) = some s ∧ s = standard .f32 [2, 3] := by
  have hfields : FillsFields (partFields .f32 [2, 3] none) (.record [("lens", .ofNats [2, 3])]) := by
    refine .record (by decide) (List.forall_mem_cons.mpr ⟨rfl, List.forall_mem_cons.mpr ⟨?_, ?_⟩⟩)
    · exact ⟨by decide, rfl⟩
    · exact List.forall_mem_singleton.mpr rfl
  have hv : Describes .f32 [2, 3] none (.record [("lens", .ofNats [2, 3])]) := ⟨hfields, nofun⟩
  obtain ⟨s, hs, _, _, _, hstandard⟩ := reading_exact.2.2.1 _ _ _ _ hv
  exact ⟨hv, s, hs, hstandard rfl⟩

end Shape

end TensorGraph
