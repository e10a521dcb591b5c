import Mathlib.Data.List.Forall2
import Mathlib.Data.List.Nodup
import TensorGraph.Value

/-!
# Structures as values

How a structure is written: as a record of its fields in any order, or as a list of them in the order of
their declaration. A field that holds its default may be left out of a record, and at the end of a list.

* `Field` -- a field with the values that write what it holds, and whether it may be left out;
* `WritesFields` -- the values that write some fields; there are some if each field can be written
  (`exists_writesFields`);
* `FillsFields` -- the values in which, for each of the fields, a value is found that writes it, or nothing
  where it may be left out. A value that writes the fields fills them (`WritesFields.fills`), and whoever
  reads the fields finds them in the values that fill them and in no others (`fillsFields_iff`);
* `Field.fieldOr_optional` -- so a field with a default is read right;
* `nat?_integer`, `nats?_ofNats`, `ints?_integers`, `choice?_of_writesName` -- numbers and names are read as
  they are written.
-/

namespace TensorGraph

/-- A field of a structure that is to be written. -/
structure Field where
  name : String
  /-- The value writes what the field holds. -/
  WrittenBy : Value → Prop
  /-- The field may be left out. -/
  Omittable : Prop

namespace Field

variable {α : Type}

/-- A field that may be left out if it holds its default. -/
def optional (name : String) (writes : α → Value → Prop) (held default : α) : Field :=
  ⟨name, writes held, held = default⟩

/-- A field that may not be left out. -/
def required (name : String) (writes : α → Value → Prop) (held : α) : Field :=
  ⟨name, writes held, False⟩

/-- What may be found in the place of the field. -/
def Fills (f : Field) : Option Value → Prop
  | none => f.Omittable
  | some v => f.WrittenBy v

/-- What fills the place of a field that may be left out writes what it holds, or it holds its default. -/
theorem fills_optional {name : String} {writes : α → Value → Prop} {held default : α}
    {slot : Option Value} (h : (optional name writes held default).Fills slot) :
    held = default ∨ ∃ v, writes held v := by
  cases slot with
  | none => exact .inl h
  | some v => exact .inr ⟨v, h⟩

theorem fills_required {name : String} {writes : α → Value → Prop} {held : α}
    {slot : Option Value} (h : (required name writes held).Fills slot) : ∃ v, writes held v := by
  cases slot with
  | none => cases h
  | some v => exact ⟨v, h⟩

/-- **A field with a default is read right**, if what is written is. -/
theorem fieldOr_optional {name : String} {writes : α → Value → Prop} {held default : α}
    {read : Value → Option α} {slot : Option Value}
    (h : (optional name writes held default).Fills slot)
    (hread : ∀ v, writes held v → read v = some held) :
    Value.fieldOr default read slot = some held := by
  cases slot with
  | none => exact congrArg some (Eq.symm h)
  | some v => exact hread v h

theorem bind_required {name : String} {writes : α → Value → Prop} {held : α}
    {read : Value → Option α} {slot : Option Value}
    (h : (required name writes held).Fills slot)
    (hread : ∀ v, writes held v → read v = some held) : slot.bind read = some held := by
  cases slot with
  | none => cases h
  | some v => exact hread v h

end Field

/-! ## 1. Fields in their places -/

/-- The value writes the fields. -/
inductive WritesFields (fields : List Field) : Value → Prop where
  /-- Every entry writes a field, in any order, and what is missing may be left out. -/
  | record {entries : List (String × Value)} :
      (∀ e ∈ entries, ∃ f ∈ fields, f.name = e.1 ∧ f.WrittenBy e.2) →
      (∀ f ∈ fields, f.name ∈ entries.map Prod.fst ∨ f.Omittable) →
      WritesFields fields (.record entries)
  /-- The items write the fields in their order, and those at the end that are missing may be left
      out. -/
  | list {front back : List Field} {items : List Value} :
      fields = front ++ back → List.Forall₂ (fun f v => f.WrittenBy v) front items →
      (∀ f ∈ back, f.Omittable) → WritesFields fields (.list items)

/-- What is found in the places of the fields fills them. Of an entry that stands behind another of its
    key nothing is said. -/
inductive FillsFields (fields : List Field) : Value → Prop where
  /-- No key is unknown, and what is found under the names of the fields fills them. -/
  | record {entries : List (String × Value)} :
      (∀ e ∈ entries, e.1 ∈ fields.map Field.name) →
      (∀ f ∈ fields, f.Fills (entries.lookup f.name)) → FillsFields fields (.record entries)
  /-- The items write the fields in their order, and those at the end that are missing may be left
      out. -/
  | list {front back : List Field} {items : List Value} :
      fields = front ++ back → List.Forall₂ (fun f v => f.WrittenBy v) front items →
      (∀ f ∈ back, f.Omittable) → FillsFields fields (.list items)

/-- **A value that writes the fields fills them**, as their names differ. -/
theorem WritesFields.fills {fields : List Field} {v : Value} (h : WritesFields fields v)
    (hnames : (fields.map Field.name).Nodup) : FillsFields fields v := by
  cases h with
  | @record entries hknown hcomplete =>
    refine .record (fun e he => ?_) fun f hf => ?_
    · obtain ⟨f, hf, hname, _⟩ := hknown e he
      exact List.mem_map.mpr ⟨f, hf, hname⟩
    · cases hlookup : entries.lookup f.name with
      | none =>
        refine (hcomplete f hf).resolve_left fun hmem => ?_
        obtain ⟨e, he, hname⟩ := List.mem_map.mp hmem
        have habsent := List.lookup_eq_none_iff.mp hlookup e he
        rw [hname, bne_self_eq_false] at habsent
        cases habsent
      | some v =>
        obtain ⟨before, after, rfl, _⟩ := List.lookup_eq_some_iff.mp hlookup
        obtain ⟨g, hg, hname, hwrites⟩ := hknown (f.name, v) (by simp)
        have hsame : g = f := List.inj_on_of_nodup_map hnames hg hf hname
        rwa [hsame] at hwrites
  | list hsplit hitems hback => exact .list hsplit hitems hback

/-- Fields for which nothing is found are filled if they may be left out. -/
theorem forall₂_fills_none {fields : List Field} :
    List.Forall₂ Field.Fills fields (List.replicate fields.length none) ↔
      ∀ f ∈ fields, f.Omittable := by
  rw [← List.map_const', List.forall₂_map_right_iff, List.forall₂_same]
  rfl

/-- Items, and nothing after them, fill the fields that they write and those that may be left out. -/
theorem forall₂_fills_iff {fields : List Field} {items : List Value}
    (hroom : items.length ≤ fields.length) :
    List.Forall₂ Field.Fills fields
        (items.map some ++ List.replicate (fields.length - items.length) none) ↔
      ∃ front back, fields = front ++ back ∧
        List.Forall₂ (fun f v => f.WrittenBy v) front items ∧ ∀ f ∈ back, f.Omittable := by
  induction items generalizing fields with
  | nil =>
    refine forall₂_fills_none.trans ⟨fun h => ⟨[], fields, rfl, .nil, h⟩, ?_⟩
    intro h
    obtain ⟨front, back, rfl, hfront, hback⟩ := h
    cases hfront
    exact hback
  | cons v items ih =>
    cases fields with
    | nil => cases hroom
    | cons f fields =>
      have hrest := ih (Nat.le_of_succ_le_succ hroom)
      rw [List.length_cons, List.length_cons, Nat.add_sub_add_right, List.map_cons,
        List.cons_append, List.forall₂_cons, hrest]
      constructor
      · intro h
        obtain ⟨hv, front, back, rfl, hfront, hback⟩ := h
        exact ⟨f :: front, back, rfl, .cons hv hfront, hback⟩
      · intro h
        obtain ⟨front, back, hsplit, hfront, hback⟩ := h
        cases hfront with
        | cons hv hfront =>
          cases hsplit
          exact ⟨hv, _, back, rfl, hfront, hback⟩

/-- **The fields are filled exactly by a value that has their places**, with a value that writes the field
    or nothing where it may be left out. -/
theorem fillsFields_iff {fields : List Field} {v : Value} :
    FillsFields fields v ↔
      ∃ slots, v.slots? (fields.map Field.name) = some slots ∧
        List.Forall₂ Field.Fills fields slots := by
  cases v with
  | record entries =>
    have hplaces : List.Forall₂ Field.Fills fields
          ((fields.map Field.name).map fun name => entries.lookup name) ↔
        ∀ f ∈ fields, f.Fills (entries.lookup f.name) := by
      rw [List.map_map, List.forall₂_map_right_iff, List.forall₂_same]
      rfl
    have hknown : (entries.all fun e => (fields.map Field.name).contains e.1) = true ↔
        ∀ e ∈ entries, e.1 ∈ fields.map Field.name := by
      simp only [List.all_eq_true, List.contains_iff_mem]
    constructor
    · intro h
      cases h with
      | record hkeys hfills => exact ⟨_, if_pos (hknown.mpr hkeys), hplaces.mpr hfills⟩
    · intro h
      obtain ⟨slots, hslots, hfills⟩ := h
      obtain ⟨hkeys, hfound⟩ := Option.ite_none_right_eq_some.mp hslots
      cases hfound
      exact .record (hknown.mp hkeys) (hplaces.mp hfills)
  | list items =>
    have hnumber : (fields.map Field.name).length = fields.length := List.length_map _
    constructor
    · intro h
      cases h with
      | list hsplit hitems hback =>
        have hroom : items.length ≤ fields.length := by
          rw [hsplit, List.length_append, hitems.length_eq]
          omega
        refine ⟨_, if_pos (hnumber ▸ hroom), ?_⟩
        rw [hnumber]
        exact (forall₂_fills_iff hroom).mpr ⟨_, _, hsplit, hitems, hback⟩
    · intro h
      obtain ⟨slots, hslots, hfills⟩ := h
      obtain ⟨hroom, hfound⟩ := Option.ite_none_right_eq_some.mp hslots
      cases hfound
      rw [hnumber] at hroom hfills
      obtain ⟨front, back, hsplit, hitems, hback⟩ := (forall₂_fills_iff hroom).mp hfills
      exact .list hsplit hitems hback
  | null | bool | integer | real | text => exact ⟨nofun, nofun⟩

/-- **Each field finds a value that writes it, or nothing where it may be left out.** -/
theorem WritesFields.exists_slots {fields : List Field} {v : Value} (h : WritesFields fields v)
    {names : List String} (hfields : fields.map Field.name = names) (hnames : names.Nodup) :
    ∃ slots, v.slots? names = some slots ∧ List.Forall₂ Field.Fills fields slots := by
  subst hfields
  exact fillsFields_iff.mp (h.fills hnames)

/-- **Fields that can each be written can be written together.** -/
theorem exists_writesFields {fields : List Field} (h : ∀ f ∈ fields, ∃ v, f.WrittenBy v) :
    ∃ v, WritesFields fields v := by
  have hitems : ∃ items, List.Forall₂ (fun f v => f.WrittenBy v) fields items := by
    induction fields with
    | nil => exact ⟨[], .nil⟩
    | cons f rest ih =>
      obtain ⟨⟨v, hv⟩, hrest⟩ := List.forall_mem_cons.mp h
      obtain ⟨items, hitems⟩ := ih hrest
      exact ⟨v :: items, .cons hv hitems⟩
  obtain ⟨items, hitems⟩ := hitems
  exact ⟨.list items, .list (List.append_nil fields).symm hitems nofun⟩

/-! ## 2. Numbers and names -/

namespace Value

/-- The value writes a number. -/
def WritesNat (n : Nat) (v : Value) : Prop := v = integer n

/-- The value writes a list of numbers. -/
def WritesNats (values : List Nat) (v : Value) : Prop := v = ofNats values

/-- The value writes a list of signed numbers. -/
def WritesInts (values : List Int) (v : Value) : Prop := v = list (values.map integer)

/-- The value writes the name of an option: as a text, or as the only key of a record. -/
def WritesName (name : String) (v : Value) : Prop := v = text name ∨ v = record [(name, null)]

/-- The value writes what there is, and null where there is nothing. -/
def WritesOption {α : Type} (writes : α → Value → Prop) : Option α → Value → Prop
  | none, v => v = null
  | some a, v => writes a v

theorem nat?_integer {n : Nat} (h : n < Word.bound) : nat? (integer n) = some n := by
  have hword : 0 ≤ (n : Int) ∧ (n : Int) < Word.bound := by omega
  simp only [nat?, hword, and_self, if_true, Int.toNat_natCast]

theorem nat?_of_writes {n : Nat} (hn : n < Word.bound) (v : Value) (h : WritesNat n v) :
    v.nat? = some n := by
  rw [h, nat?_integer hn]

theorem int?_integer {i : Int} (h : Word.isSigned i = true) : int? (integer i) = some i := if_pos h

/-- A list of things that are each read as they are written is read as it is written. -/
theorem mapM_map_eq_some {α : Type} {write : α → Value} {read : Value → Option α} {l : List α}
    (h : ∀ a ∈ l, read (write a) = some a) : (l.map write).mapM read = some l := by
  induction l with
  | nil => rfl
  | cons a l ih =>
    obtain ⟨hfirst, hrest⟩ := List.forall_mem_cons.mp h
    rw [List.map_cons, List.mapM_cons, hfirst, ih hrest]
    rfl

theorem nats?_of_writes {values : List Nat} (hv : ∀ n ∈ values, n < Word.bound) (v : Value)
    (h : WritesNats values v) : v.nats? = some values := by
  rw [h]
  exact mapM_map_eq_some fun n hn => nat?_integer (hv n hn)

theorem ints?_of_writes {values : List Int} (hv : ∀ i ∈ values, Word.isSigned i = true) (v : Value)
    (h : WritesInts values v) : v.ints? = some values := by
  rw [h]
  exact mapM_map_eq_some fun i hi => int?_integer (hv i hi)

/-- **An option is read under its name**, if its name is one of it alone. -/
theorem choice?_of_writes {α : Type} {ofName? : String → Option α} {name : String} {a : α}
    (ha : ofName? name = some a) (v : Value) (h : WritesName name v) : choice? ofName? v = some a := by
  rcases h with rfl | rfl
  · exact ha
  · exact ha

theorem nullable?_of_ne {α : Type} {read : Value → Option α} {v : Value} (h : v ≠ null) :
    nullable? read v = (read v).map some := by
  cases v with
  | null => exact absurd rfl h
  | bool | integer | real | text | list | record => rfl

theorem nullable?_of_writes {α : Type} {writes : α → Value → Prop} {read : Value → Option α}
    {held : Option α} (hread : ∀ a ∈ held, ∀ v, writes a v → v ≠ null ∧ read v = some a) (v : Value)
    (h : WritesOption writes held v) : nullable? read v = some held := by
  cases held with
  | none =>
    rw [h]
    rfl
  | some a =>
    obtain ⟨hne, hv⟩ := hread a rfl v h
    rw [nullable?_of_ne hne, hv]
    rfl

end Value

end TensorGraph
