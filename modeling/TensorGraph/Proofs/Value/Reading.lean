import TensorGraph.Proofs.Value.Writing

/-!
# Nothing else is read

The readers of `TensorGraph.Value` read what is written (`TensorGraph.Proofs.Value.Writing`). Here is the
other direction: a reader accepts no value but those that write what it makes of them. With both, what a
reader accepts is known exactly.

* `WritesWords`, `nats?_eq_some_iff` -- the lists of words, and that nothing else is read as one;
* `choice?_eq_some_iff`, `nullable?_eq_some_iff` -- names, and things for which null may stand;
* `Field.fieldOr_eq_some_iff`, `Field.bind_eq_some_iff` -- so the reader of a field accepts what fills its
  place and nothing else.
-/

namespace TensorGraph

namespace Value

variable {α : Type}

/-! ## 1. Numbers -/

/-- The value writes a list of numbers that are all words. -/
def WritesWords (values : List Nat) (v : Value) : Prop :=
  (∀ n ∈ values, n < Word.bound) ∧ WritesNats values v

theorem nat?_eq_some_iff {v : Value} {n : Nat} :
    v.nat? = some n ↔ n < Word.bound ∧ WritesNat n v := by
  constructor
  · intro h
    cases v with
    | integer i =>
      obtain ⟨⟨hlow, hhigh⟩, hn⟩ := Option.ite_none_right_eq_some.mp h
      cases hn
      refine ⟨by omega, ?_⟩
      show integer i = integer i.toNat
      rw [Int.toNat_of_nonneg hlow]
    | null | bool | real | text | list | record => cases h
  · intro h
    exact nat?_of_writes h.1 v h.2

/-- **A list is read exactly if it is written** and what is read of each item was written there. -/
theorem mapM_eq_some_iff {write : α → Value} {read : Value → Option α} {Readable : α → Prop}
    (hread : ∀ v a, read v = some a ↔ Readable a ∧ v = write a) {items : List Value} {l : List α} :
    items.mapM read = some l ↔ (∀ a ∈ l, Readable a) ∧ items = l.map write := by
  constructor
  · intro h
    induction items generalizing l with
    | nil =>
      rw [List.mapM_nil] at h
      cases h
      exact ⟨nofun, rfl⟩
    | cons v items ih =>
      rw [List.mapM_cons] at h
      obtain ⟨a, ha, h⟩ := Option.bind_eq_some_iff.mp h
      obtain ⟨rest, hrest, h⟩ := Option.bind_eq_some_iff.mp h
      cases h
      obtain ⟨hreadable, rfl⟩ := (hread v a).mp ha
      obtain ⟨hall, rfl⟩ := ih hrest
      exact ⟨List.forall_mem_cons.mpr ⟨hreadable, hall⟩, rfl⟩
  · intro h
    obtain ⟨hall, rfl⟩ := h
    exact mapM_map_eq_some fun a ha => (hread _ a).mpr ⟨hall a ha, rfl⟩

theorem nats?_eq_some_iff {v : Value} {values : List Nat} :
    v.nats? = some values ↔ WritesWords values v := by
  cases v with
  | list items =>
    refine (mapM_eq_some_iff fun v n => nat?_eq_some_iff).trans (and_congr_right fun _ => ?_)
    exact (Value.list.injEq _ _).symm.to_iff
  | null | bool | integer | real | text | record => exact ⟨nofun, fun h => nomatch h.2⟩

/-! ## 2. Names and what may be null -/

/-- **An option is read exactly from its name**, as no two options share one. -/
theorem choice?_eq_some_iff {ofName? : String → Option α} {nameOf : α → String}
    (hname : ∀ text a, ofName? text = some a ↔ text = nameOf a) {v : Value} {a : α} :
    choice? ofName? v = some a ↔ WritesName (nameOf a) v := by
  constructor
  · intro h
    unfold choice? at h
    split at h
    · exact .inl (congrArg text ((hname _ a).mp h))
    · rw [(hname _ a).mp h]
      exact .inr rfl
    · cases h
  · intro h
    exact choice?_of_writes ((hname _ a).mpr rfl) v h

theorem nullable?_eq_some_iff {read : Value → Option α} {writes : α → Value → Prop}
    (hread : ∀ v a, read v = some a ↔ writes a v) (hnull : read null = none) {v : Value}
    {held : Option α} : nullable? read v = some held ↔ WritesOption writes held v := by
  by_cases hv : v = null
  · subst hv
    cases held with
    | none => exact ⟨fun _ => rfl, fun _ => rfl⟩
    | some a =>
      refine ⟨nofun, fun h => ?_⟩
      have hsome := (hread null a).mpr h
      rw [hnull] at hsome
      cases hsome
  · rw [nullable?_of_ne hv, Option.map_eq_some_iff]
    cases held with
    | none =>
      refine ⟨fun h => ?_, fun h => absurd h hv⟩
      obtain ⟨_, _, hsame⟩ := h
      cases hsame
    | some a =>
      constructor
      · intro h
        obtain ⟨b, hb, hsame⟩ := h
        cases hsame
        exact (hread v a).mp hb
      · intro h
        exact ⟨a, (hread v a).mpr h, rfl⟩

end Value

/-! ## 3. Fields -/

namespace Field

variable {α : Type} {name : String} {writes : α → Value → Prop} {held default : α}
  {read : Value → Option α} {slot : Option Value}

/-- **A field with a default is read exactly from what fills its place.** -/
theorem fieldOr_eq_some_iff (hread : ∀ v, read v = some held ↔ writes held v) :
    Value.fieldOr default read slot = some held ↔
      (optional name writes held default).Fills slot := by
  cases slot with
  | none => exact (Option.some.injEq _ _).to_iff.trans eq_comm
  | some v => exact hread v

theorem bind_eq_some_iff (hread : ∀ v, read v = some held ↔ writes held v) :
    slot.bind read = some held ↔ (required name writes held).Fills slot := by
  cases slot with
  | none => exact ⟨nofun, nofun⟩
  | some v => exact hread v

end Field

end TensorGraph
