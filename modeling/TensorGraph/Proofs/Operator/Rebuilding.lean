import TensorGraph.Operator.Catalog
import TensorGraph.Proofs.Shape.Record

/-!
# Every operator is rebuilt

The catalog makes an operator of a name and of a value that holds its attributes. What it makes of the
name of an operator and of its attributes, in whatever way they are written, is that operator again; and
whatever it makes of a name has that name.

* `Operator.fields`, `Operator.Writes` -- the attributes of an operator, and the values that write them;
* `Operator.InWords` -- the numbers of the attributes are words, which is all that can be written;
* `Operator.exists_writes` -- the attributes of every operator can be written;
* `Operator.exists_reader` -- the catalog reads the attributes of every operator under its name;
* `Operator.mem_names` -- the catalog has a reader for the names that it lists and no others;
* `Operator.catalog_rebuilds` -- so operators are rebuilt, and what fails to be made is an unknown name or
  a bad attribute.
-/

namespace TensorGraph

/-! ## 1. Attributes -/

namespace Planar

/-- Both numbers are words. -/
def InWords (p : Planar) : Prop := p.rows < Word.bound ∧ p.columns < Word.bound

/-- The value writes the two numbers. -/
def Writes (p : Planar) (v : Value) : Prop := Value.WritesNats p.toList v

theorem ofValue?_of_writes {p : Planar} (hp : p.InWords) (v : Value) (h : p.Writes v) :
    ofValue? v = some p := by
  have hwords : ∀ n ∈ p.toList, n < Word.bound := by
    intro n hn
    rcases List.mem_pair.mp hn with rfl | rfl
    · exact hp.1
    · exact hp.2
  unfold ofValue? Value.pair?
  rw [Value.nats?_of_writes hwords v h]
  rfl

end Planar

theorem PaddingMode.ofName?_name (m : PaddingMode) : PaddingMode.ofName? m.name = some m := by
  cases m <;> decide

theorem PoolingMode.ofName?_name (m : PoolingMode) : PoolingMode.ofName? m.name = some m := by
  cases m <;> decide

theorem ActivationMode.ofName?_name (m : ActivationMode) : ActivationMode.ofName? m.name = some m := by
  cases m <;> decide

/-- The attributes of a convolution in their order. -/
def Convolution.fields (c : Convolution) : List Field :=
  let defaults : Convolution := default
  [.optional "padding" Planar.Writes c.padding defaults.padding,
    .optional "stride" Planar.Writes c.stride defaults.stride,
    .optional "dilation" Planar.Writes c.dilation defaults.dilation,
    .optional "padding_mode" (fun m => Value.WritesName m.name) c.mode defaults.mode]

theorem Convolution.ofValue?_of_writes {c : Convolution}
    (hc : c.padding.InWords ∧ c.stride.InWords ∧ c.dilation.InWords) {v : Value}
    (h : WritesFields c.fields v) : Convolution.ofValue? v = some c := by
  have hnames : c.fields.map Field.name = ["padding", "stride", "dilation", "padding_mode"] := rfl
  obtain ⟨slots, hslots, hfills⟩ := h.exists_slots hnames (by decide)
  obtain _ | ⟨hpadding, _ | ⟨hstride, _ | ⟨hdilation, _ | ⟨hmode, _ | _⟩⟩⟩⟩ := hfills
  unfold Convolution.ofValue?
  rw [hslots]
  dsimp only
  rw [Field.fieldOr_optional hpadding (Planar.ofValue?_of_writes hc.1),
    Field.fieldOr_optional hstride (Planar.ofValue?_of_writes hc.2.1),
    Field.fieldOr_optional hdilation (Planar.ofValue?_of_writes hc.2.2),
    Field.fieldOr_optional hmode (Value.choice?_of_writes (PaddingMode.ofName?_name c.mode))]
  rfl

/-- The attributes of a pooling in their order. -/
def Pooling.fields (p : Pooling) : List Field :=
  let defaults : Pooling := default
  [.optional "mode" (fun m => Value.WritesName m.name) p.mode defaults.mode,
    .optional "padding" Planar.Writes p.padding defaults.padding,
    .optional "stride" Planar.Writes p.stride defaults.stride,
    .optional "lengths" Planar.Writes p.window defaults.window]

theorem Pooling.ofValue?_of_writes {p : Pooling}
    (hp : p.padding.InWords ∧ p.stride.InWords ∧ p.window.InWords) {v : Value}
    (h : WritesFields p.fields v) : Pooling.ofValue? v = some p := by
  have hnames : p.fields.map Field.name = ["mode", "padding", "stride", "lengths"] := rfl
  obtain ⟨slots, hslots, hfills⟩ := h.exists_slots hnames (by decide)
  obtain _ | ⟨hmode, _ | ⟨hpadding, _ | ⟨hstride, _ | ⟨hwindow, _ | _⟩⟩⟩⟩ := hfills
  unfold Pooling.ofValue?
  rw [hslots]
  dsimp only
  rw [Field.fieldOr_optional hmode (Value.choice?_of_writes (PoolingMode.ofName?_name p.mode)),
    Field.fieldOr_optional hpadding (Planar.ofValue?_of_writes hp.1),
    Field.fieldOr_optional hstride (Planar.ofValue?_of_writes hp.2.1),
    Field.fieldOr_optional hwindow (Planar.ofValue?_of_writes hp.2.2)]
  rfl

/-- **A structure of one field with a default is read as it is written.** -/
theorem read_one {α : Type} {name : String} {writes : α → Value → Prop} {held default : α}
    {read : Value → Option α} {v : Value} (h : WritesFields [.optional name writes held default] v)
    (hread : ∀ v, writes held v → read v = some held) :
    (match v.slots? [name] with
      | some [slot] => Value.fieldOr default read slot
      | _ => none) = some held := by
  obtain ⟨slots, hslots, hfills⟩ := h.exists_slots rfl (List.nodup_singleton name)
  obtain _ | ⟨hfill, _ | _⟩ := hfills
  have hone : v.slots? [name] = some [_] := hslots
  rw [hone]
  exact Field.fieldOr_optional hfill hread

theorem Outline.ofValue?_of_writes {shape : Shape} (hs : shape.InWords) {v : Value}
    (h : WritesFields [.required "shape" Shape.Writes shape] v) : Outline.ofValue? v = some shape := by
  obtain ⟨slots, hslots, hfills⟩ := h.exists_slots rfl (List.nodup_singleton "shape")
  obtain _ | ⟨hshape, _ | _⟩ := hfills
  have hone : v.slots? ["shape"] = some [_] := hslots
  unfold Outline.ofValue?
  rw [hone]
  exact Field.bind_required hshape (Shape.ofValue?_of_writes hs)

/-! ## 2. Operators -/

/-- What is found under a name is in the list and has that name. -/
theorem mem_of_find?_name {α : Type} {l : List α} {nameOf : α → String} {name : String} {a : α}
    (h : l.find? (fun b => nameOf b == name) = some a) : a ∈ l ∧ nameOf a = name := by
  have hname := List.find?_some (p := fun b => nameOf b == name) h
  exact ⟨List.mem_of_find?_eq_some h, beq_iff_eq.mp hname⟩

namespace Operator

/-- The numbers of the attributes are words, and signed words where they may be negative. -/
def InWords : Operator → Prop
  | convolution c => c.padding.InWords ∧ c.stride.InWords ∧ c.dilation.InWords
  | pooling p => p.padding.InWords ∧ p.stride.InWords ∧ p.window.InWords
  | binary b => ∀ axis ∈ b.axis, axis < Word.bound
  | transpose dims => ∀ d ∈ dims, d < Word.bound
  | reshape dims => ∀ d ∈ dims, Word.isSigned d = true
  | broadcast axis => axis < Word.bound
  | outline shape => shape.InWords
  | gemm | activation _ | unary _ | contiguous => True

/-- The attributes in the order of their declaration. -/
def fields : Operator → List Field
  | convolution c => c.fields
  | pooling p => p.fields
  | activation mode => [.optional "mode" (fun m => Value.WritesName m.name) mode default]
  | binary b => [.optional "broadcast" (Value.WritesOption Value.WritesNat) b.axis none]
  | transpose dims => [.optional "dims" Value.WritesNats dims []]
  | reshape dims => [.optional "dims" Value.WritesInts dims []]
  | broadcast axis => [.optional "axis" Value.WritesNat axis 0]
  | outline shape => [.required "shape" Shape.Writes shape]
  | gemm | unary _ | contiguous => []

/-- The value writes the attributes. Null does, if all of them may be left out. -/
def Writes (o : Operator) (v : Value) : Prop :=
  WritesFields o.fields v ∨ v = .null ∧ ∀ f ∈ o.fields, f.Omittable

/-- **The attributes of every operator can be written.** -/
theorem exists_writes (o : Operator) : ∃ v, o.Writes v := by
  have hfields : ∀ f ∈ o.fields, ∃ v, f.WrittenBy v := by
    cases o with
    | convolution c =>
      refine List.forall_mem_cons.mpr ⟨⟨_, rfl⟩, List.forall_mem_cons.mpr ⟨⟨_, rfl⟩, ?_⟩⟩
      exact List.forall_mem_cons.mpr ⟨⟨_, rfl⟩, List.forall_mem_singleton.mpr ⟨_, Or.inl rfl⟩⟩
    | pooling p =>
      refine List.forall_mem_cons.mpr ⟨⟨_, Or.inl rfl⟩, List.forall_mem_cons.mpr ⟨⟨_, rfl⟩, ?_⟩⟩
      exact List.forall_mem_cons.mpr ⟨⟨_, rfl⟩, List.forall_mem_singleton.mpr ⟨_, rfl⟩⟩
    | activation mode => exact List.forall_mem_singleton.mpr ⟨_, Or.inl rfl⟩
    | binary b =>
      refine List.forall_mem_singleton.mpr ?_
      obtain ⟨a, axis⟩ := b
      cases axis with
      | none => exact ⟨_, rfl⟩
      | some n => exact ⟨_, rfl⟩
    | transpose | reshape | broadcast => exact List.forall_mem_singleton.mpr ⟨_, rfl⟩
    | outline shape => exact List.forall_mem_singleton.mpr shape.exists_writes
    | gemm | unary | contiguous => exact fun _ hf => absurd hf List.not_mem_nil
  obtain ⟨v, hv⟩ := exists_writesFields hfields
  exact ⟨v, Or.inl hv⟩

/-- An operator without attributes is read from what writes none. -/
theorem bare_of_writes {o : Operator} {v : Value} (h : WritesFields [] v) : bare o v = some o := by
  obtain ⟨slots, hslots, _⟩ := h.exists_slots rfl List.nodup_nil
  have hnone : v.slots? [] = some slots := hslots
  unfold bare
  rw [hnone]
  rfl

/-- A word is written by a value that is not null. -/
theorem axis_of_writes {axis : Option Nat} (ha : ∀ n ∈ axis, n < Word.bound) (v : Value)
    (h : Value.WritesOption Value.WritesNat axis v) : Value.nullable? Value.nat? v = some axis := by
  refine Value.nullable?_of_writes (fun n hn v hv => ⟨?_, Value.nat?_of_writes (ha n hn) v hv⟩) v h
  rw [hv]
  nofun

/-- **The catalog reads the attributes of every operator under its name.** -/
theorem exists_reader {o : Operator} (ho : o.InWords) :
    ∃ read, reader? o.name = some read ∧ ∀ v, WritesFields o.fields v → read v = some o := by
  cases o with
  | convolution c =>
    exact ⟨_, rfl, fun v h => congrArg (Option.map convolution) (Convolution.ofValue?_of_writes ho h)⟩
  | pooling p =>
    exact ⟨_, rfl, fun v h => congrArg (Option.map pooling) (Pooling.ofValue?_of_writes ho h)⟩
  | gemm => exact ⟨_, rfl, fun v h => bare_of_writes h⟩
  | contiguous => exact ⟨_, rfl, fun v h => bare_of_writes h⟩
  | unary f =>
    refine ⟨bare (unary f), ?_, fun v h => bare_of_writes h⟩
    cases f <;> rfl
  | activation mode =>
    have hread := Value.choice?_of_writes (ActivationMode.ofName?_name mode)
    exact ⟨_, rfl, fun v h => congrArg (Option.map activation) (read_one h hread)⟩
  | binary b =>
    obtain ⟨a, axis⟩ := b
    refine ⟨fun v => (Binary.axisOfValue? v).map fun axis => binary ⟨a, axis⟩, ?_, fun v h => ?_⟩
    · cases a <;> rfl
    · exact congrArg (Option.map fun axis => binary ⟨a, axis⟩) (read_one h (axis_of_writes ho))
  | transpose dims =>
    have hread := Value.nats?_of_writes ho
    exact ⟨_, rfl, fun v h => congrArg (Option.map transpose) (read_one h hread)⟩
  | reshape dims =>
    have hread := Value.ints?_of_writes ho
    exact ⟨_, rfl, fun v h => congrArg (Option.map reshape) (read_one h hread)⟩
  | broadcast axis =>
    have hread := Value.nat?_of_writes ho
    exact ⟨_, rfl, fun v h => congrArg (Option.map broadcast) (read_one h hread)⟩
  | outline shape =>
    exact ⟨_, rfl, fun v h => congrArg (Option.map outline) (Outline.ofValue?_of_writes ho h)⟩

/-- What a reader makes of an attribute under a name is an operator of that name. -/
theorem name_of_map {α : Type} {read : Value → Option α} {make : α → Operator} {name : String}
    (h : ∀ a, (make a).name = name) (v : Value) {o : Operator} (ho : (read v).map make = some o) :
    o.name = name := by
  obtain ⟨a, _, rfl⟩ := Option.map_eq_some_iff.mp ho
  exact h a

/-- A choice comes of the condition, or of what comes after it. -/
theorem eq_or_of_ite {α : Type} {c : Prop} [Decidable c] {a b : α} {rest : Option α}
    (h : (if c then some a else rest) = some b) : c ∧ a = b ∨ rest = some b := by
  by_cases hc : c
  · rw [if_pos hc] at h
    exact Or.inl ⟨hc, Option.some.inj h⟩
  · rw [if_neg hc] at h
    exact Or.inr h

/-- **What the catalog reads under a name has that name**, and the name is listed. -/
theorem reader?_eq_some {name : String} {read : Value → Option Operator}
    (h : reader? name = some read) : name ∈ names ∧ ∀ v o, read v = some o → o.name = name := by
  unfold names
  rw [List.mem_mergeSort]
  unfold reader? at h
  -- nine operators have a name to themselves
  iterate 9
    obtain ⟨rfl, rfl⟩ | h := eq_or_of_ite h
    · exact ⟨by decide, name_of_map fun _ => rfl⟩
  cases hf : UnaryFunction.ofName? name with
  | some f =>
    rw [hf] at h
    cases h
    obtain ⟨hmem, hname⟩ : f ∈ UnaryFunction.all ∧ f.name = name := mem_of_find?_name hf
    refine ⟨List.mem_append_left _ (List.mem_append_right _ ?_), name_of_map fun _ => hname⟩
    exact List.mem_map.mpr ⟨f, hmem, hname⟩
  | none =>
    cases ha : Arithmetic.ofName? name with
    | some a =>
      rw [hf, ha] at h
      cases h
      obtain ⟨hmem, hname⟩ : a ∈ Arithmetic.all ∧ a.name = name := mem_of_find?_name ha
      refine ⟨List.mem_append_right _ ?_, name_of_map fun _ => hname⟩
      exact List.mem_map.mpr ⟨a, hmem, hname⟩
    | none =>
      rw [hf, ha] at h
      cases h

/-- **The catalog has a reader for the names that it lists and for no others.** -/
theorem mem_names {name : String} : name ∈ names ↔ ∃ read, reader? name = some read := by
  refine ⟨fun h => ?_, fun h => ?_⟩
  · unfold names at h
    have hall : ∀ n ∈ [Convolution.name, Pooling.name, Gemm.name, Activation.name, Transpose.name,
        Contiguous.name, Reshape.name, Alignment.name, Outline.name] ++
          UnaryFunction.all.map UnaryFunction.name ++ Arithmetic.all.map Arithmetic.name,
        (reader? n).isSome = true := by decide
    exact Option.isSome_iff_exists.mp (hall name (List.mem_mergeSort.mp h))
  · obtain ⟨read, hread⟩ := h
    exact (reader?_eq_some hread).1

/-! ## 3. The catalog -/

/-- The value that null stands for: a record without entries. -/
def spelledOut : Value → Value
  | .null => .record []
  | v => v

/-- What the catalog makes of a name that it lists. -/
theorem ofValue_of_reader {name : String} {read : Value → Option Operator}
    (h : reader? name = some read) (v : Value) :
    ofValue name v = match read (spelledOut v) with
      | some o => .ok o
      | none => Outcome.failIn name .invalidAttributes := by
  unfold ofValue
  rw [h]
  rfl

/-- Null writes the attributes that a record without entries writes. -/
theorem Writes.spelledOut {o : Operator} {v : Value} (h : o.Writes v) :
    WritesFields o.fields (spelledOut v) := by
  rcases h with h | ⟨rfl, hall⟩
  · cases h with
    | record hknown hcomplete => exact .record hknown hcomplete
    | list hsplit hitems hback => exact .list hsplit hitems hback
  · exact .record (fun _ he => absurd he List.not_mem_nil) fun f hf => Or.inr (hall f hf)

/-- **The catalog rebuilds every operator**, from its name and from any value that writes its attributes:
    a record in any order of the keys, or a list in the order of declaration, without the attributes that
    hold their default, or null if all of them do; there is always such a value. And whatever name and
    value it is given, it makes an operator of that name or fails: as a broken graph, without a name to
    blame, exactly if it does not list the name, and else over the attributes, under the name. -/
theorem catalog_rebuilds :
    (∀ o : Operator, o.InWords → (∃ v, o.Writes v) ∧ ∀ v, o.Writes v → ofValue o.name v = .ok o) ∧
    ∀ name v,
      (name ∈ names ∧ ∃ o, ofValue name v = .ok o ∧ o.name = name) ∨
      ∃ e, ofValue name v = .error (.error e) ∧
        (name ∉ names ∧ e.kind = .structural ∧ e.operator = none ∨
          name ∈ names ∧ e.kind = .invalidParameter ∧ e.operator = some name) := by
  refine ⟨fun o ho => ⟨o.exists_writes, fun v h => ?_⟩, fun name v => ?_⟩
  · obtain ⟨read, hread, hwrites⟩ := exists_reader ho
    rw [ofValue_of_reader hread, hwrites _ h.spelledOut]
  · cases hread : reader? name with
    | none =>
      right
      have hname : name ∉ names := by
        intro h
        obtain ⟨read, hsome⟩ := mem_names.mp h
        rw [hread] at hsome
        cases hsome
      refine ⟨⟨none, .unknownOperator name⟩, ?_, Or.inl ⟨hname, rfl, rfl⟩⟩
      unfold ofValue
      rw [hread]
      rfl
    | some read =>
      obtain ⟨hname, hnamed⟩ := reader?_eq_some hread
      rw [ofValue_of_reader hread]
      cases hmade : read (spelledOut v) with
      | some o => exact Or.inl ⟨hname, o, rfl, hnamed _ o hmade⟩
      | none => exact Or.inr ⟨_, rfl, Or.inr ⟨hname, rfl, rfl⟩⟩

/-- Windows of the largest element, of three by three and two apart. -/
def largestOfNine : Pooling := ⟨.largest, ⟨0, 0⟩, ⟨2, 2⟩, ⟨3, 3⟩⟩

/-- The attributes of that pooling in an order of their own. The padding is left out, and the mode is a
    record. -/
def largestOfNineValue : Value :=
  .record [("lengths", .ofNats [3, 3]), ("mode", .record [("max", .null)]), ("stride", .ofNats [2, 2])]

theorem writes_largestOfNine : (pooling largestOfNine).Writes largestOfNineValue := by
  have hmode : Value.WritesName PoolingMode.largest.name (.record [("max", .null)]) := Or.inr rfl
  refine Or.inl (.record ?_ ?_)
  · intro e he
    simp only [List.mem_cons, List.not_mem_nil, or_false] at he
    rcases he with rfl | rfl | rfl
    · exact ⟨_, List.mem_of_getElem? (i := 3) rfl, rfl, rfl⟩
    · exact ⟨_, List.mem_of_getElem? (i := 0) rfl, rfl, hmode⟩
    · exact ⟨_, List.mem_of_getElem? (i := 2) rfl, rfl, rfl⟩
  · intro f hf
    simp only [fields, Pooling.fields, List.mem_cons, List.not_mem_nil, or_false] at hf
    rcases hf with rfl | rfl | rfl | rfl
    · exact Or.inl (by decide)
    · exact Or.inr rfl
    · exact Or.inl (by decide)
    · exact Or.inl (by decide)

/-- The shape of a matrix of doubles. -/
def doubles : Shape := .standard .f64 [2, 3]

/-- Its element type and its lengths are enough to write it. -/
theorem writes_doubles : doubles.Writes (.list [.text "f64", .ofNats [2, 3]]) := by
  have hstandard : ∀ f ∈ [doubles.stridesField], f.Omittable :=
    List.forall_mem_singleton.mpr (by decide : doubles.isStandard = true)
  exact .list rfl (.cons (Or.inl rfl) (.cons rfl .nil)) hstandard

/-- A pooling is rebuilt from some of its attributes in another order, and a declared shape from a list that
    holds a list without strides. -/
theorem pooling_and_outline_rebuilt :
    ofValue "pooling" largestOfNineValue = .ok (pooling largestOfNine) ∧
      ofValue "outline" (.list [.list [.text "f64", .ofNats [2, 3]]]) = .ok (outline doubles) := by
  obtain ⟨hrebuilt, _⟩ := catalog_rebuilds
  have hpooling : (pooling largestOfNine).InWords := by
    refine ⟨⟨?_, ?_⟩, ⟨?_, ?_⟩, ?_, ?_⟩ <;> decide
  have houtline : (outline doubles).InWords := by
    refine ⟨?_, ?_⟩ <;> decide
  have hwrites : (outline doubles).Writes (.list [.list [.text "f64", .ofNats [2, 3]]]) :=
    Or.inl (.list (List.append_nil _).symm (.cons writes_doubles .nil) nofun)
  exact ⟨(hrebuilt _ hpooling).2 _ writes_largestOfNine, (hrebuilt _ houtline).2 _ hwrites⟩

end Operator

end TensorGraph
