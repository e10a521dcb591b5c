import TensorGraph.Error

/-!
# Taking outcomes apart

Every operation of the library is a sequence of checks and computations that each may fail. The
lemmas here take such a sequence apart, once for success and once for a fault, so that nobody has
to unfold the sequencing itself:

* `bind_eq_ok`, `bind_eq_error` -- a sequence succeeds if both parts do, and fails where its first
  part fails or where its second part does after the first succeeded;
* `check_eq_ok`, `check_eq_fault` -- a check in front of a computation lets it through or ends it
  with an error, and is never itself a fault;
* `withOperator_eq_ok`, `withOperator_eq_fault` -- naming the operator to blame changes errors only;
* `word_eq_ok`, `word_bind_eq_fault`, `signedWord_bind_eq_ok`, `signedWord_bind_eq_fault` -- where arithmetic
  stays in its word and where it leaves it;
* `Paired` -- two computations that give related values or fail with errors of one kind, which need
  not show the same texts; it follows a sequence of steps (`Paired.bind`).
-/

namespace TensorGraph.Outcome

variable {α β : Type}

/-! ## 1. Sequences -/

theorem bind_eq_ok {x : Outcome α} {next : α → Outcome β} {b : β} :
    (x >>= next) = .ok b ↔ ∃ a, x = .ok a ∧ next a = .ok b := by
  cases x with
  | error f =>
    constructor
    · intro h; cases h
    · intro h
      obtain ⟨_, h, _⟩ := h
      cases h
  | ok a =>
    constructor
    · intro h; exact ⟨a, rfl, h⟩
    · intro h
      obtain ⟨_, h, h'⟩ := h
      cases h
      exact h'

theorem bind_eq_error {x : Outcome α} {next : α → Outcome β} {f : Failure} :
    (x >>= next) = .error f ↔ x = .error f ∨ ∃ a, x = .ok a ∧ next a = .error f := by
  cases x with
  | error f =>
    constructor
    · intro h; cases h; exact Or.inl rfl
    · intro h
      rcases h with h | ⟨_, h, _⟩ <;> cases h
      rfl
  | ok a =>
    constructor
    · intro h; exact Or.inr ⟨a, rfl, h⟩
    · intro h
      rcases h with h | ⟨_, h, h'⟩ <;> cases h
      exact h'

/-- What is left of an outcome when its failure is forgotten. -/
theorem toOption_eq_some {x : Outcome α} {a : α} : x.toOption = some a ↔ x = .ok a := by
  cases x with
  | error f => exact ⟨nofun, nofun⟩
  | ok b => exact (Option.some.injEq b a).to_iff.trans (Except.ok.injEq b a).symm.to_iff

theorem bind_eq_fault {x : Outcome α} {next : α → Outcome β} :
    (x >>= next) = .error .fault ↔
      x = .error .fault ∨ ∃ a, x = .ok a ∧ next a = .error .fault := bind_eq_error

/-- What comes after a step without a value. -/
theorem then_eq_ok {x : Outcome Unit} {next : Unit → Outcome β} {b : β} :
    (x >>= next) = .ok b ↔ x = .ok () ∧ next () = .ok b := by
  rw [bind_eq_ok]
  constructor
  · intro h
    obtain ⟨⟨⟩, h, h'⟩ := h
    exact ⟨h, h'⟩
  · intro h
    obtain ⟨h, h'⟩ := h
    exact ⟨(), h, h'⟩

theorem then_eq_fault {x : Outcome Unit} {next : Unit → Outcome β} :
    (x >>= next) = .error .fault ↔
      x = .error .fault ∨ x = .ok () ∧ next () = .error .fault := by
  rw [bind_eq_fault]
  refine or_congr_right ⟨?_, ?_⟩
  · intro h
    obtain ⟨⟨⟩, h, h'⟩ := h
    exact ⟨h, h'⟩
  · intro h
    obtain ⟨h, h'⟩ := h
    exact ⟨(), h, h'⟩

@[simp] theorem discard_eq_ok {x : Outcome α} : discard x = .ok () ↔ ∃ a, x = .ok a := by
  cases x with
  | error f => exact ⟨nofun, nofun⟩
  | ok a => exact ⟨fun _ => ⟨a, rfl⟩, fun _ => rfl⟩

@[simp] theorem discard_eq_fault {x : Outcome α} :
    discard x = .error .fault ↔ x = .error .fault := by
  cases x with
  | error f =>
    constructor
    · intro h; cases h; rfl
    · intro h; cases h; rfl
  | ok a => exact ⟨nofun, nofun⟩

/-- There is a result where there is neither a fault nor an error. -/
theorem exists_ok_iff {x : Outcome α} :
    (∃ a, x = .ok a) ↔ x ≠ .error .fault ∧ ∀ e, x ≠ .error (.error e) := by
  constructor
  · intro h
    obtain ⟨a, rfl⟩ := h
    constructor
    · intro h
      cases h
    · intro e h
      cases h
  · intro h
    cases x with
    | ok a => exact ⟨a, rfl⟩
    | error f =>
      cases f with
      | fault => exact absurd rfl h.1
      | error e => exact absurd rfl (h.2 e)

@[simp] theorem fail_bind {cause : Cause} {next : α → Outcome β} :
    (fail cause >>= next) = fail cause := rfl

@[simp] theorem failIn_bind {name : String} {cause : Cause} {next : α → Outcome β} :
    (failIn name cause >>= next) = failIn name cause := rfl

/-! ## 2. Checks -/

@[simp] theorem fail_ne_ok {cause : Cause} {a : α} : fail cause ≠ .ok a := nofun

@[simp] theorem failIn_ne_ok {name : String} {cause : Cause} {a : α} :
    failIn name cause ≠ .ok a := nofun

@[simp] theorem fault_ne_ok {a : α} : fault ≠ .ok a := nofun

@[simp] theorem fail_ne_fault {cause : Cause} : (fail cause : Outcome α) ≠ .error .fault := nofun

@[simp] theorem failIn_ne_fault {name : String} {cause : Cause} :
    (failIn name cause : Outcome α) ≠ .error .fault := nofun

@[simp] theorem pure_eq_ok {a b : α} : (pure a : Outcome α) = .ok b ↔ b = a := by
  constructor
  · intro h; cases h; rfl
  · intro h
    cases h
    rfl

theorem pure_ne_error {a : α} {f : Failure} : (pure a : Outcome α) ≠ .error f := nofun

@[simp] theorem pure_ne_fault {a : α} : (pure a : Outcome α) ≠ .error .fault := nofun

/-- A check in front of a computation lets it through when the check holds. -/
@[simp] theorem check_eq_ok {c : Prop} [Decidable c] {cause : Cause} {x : Outcome α} {a : α} :
    (if c then fail cause else x) = .ok a ↔ ¬ c ∧ x = .ok a := by
  by_cases h : c <;> simp [h]

@[simp] theorem checkIn_eq_ok {c : Prop} [Decidable c] {name : String} {cause : Cause}
    {x : Outcome α} {a : α} :
    (if c then failIn name cause else x) = .ok a ↔ ¬ c ∧ x = .ok a := by
  by_cases h : c <;> simp [h]

/-- A check is never a fault itself. -/
@[simp] theorem check_eq_fault {c : Prop} [Decidable c] {cause : Cause} {x : Outcome α} :
    (if c then fail cause else x) = .error .fault ↔ ¬ c ∧ x = .error .fault := by
  by_cases h : c <;> simp [h]

@[simp] theorem checkIn_eq_fault {c : Prop} [Decidable c] {name : String} {cause : Cause}
    {x : Outcome α} :
    (if c then failIn name cause else x) = .error .fault ↔ ¬ c ∧ x = .error .fault := by
  by_cases h : c <;> simp [h]

/-! ## 3. The operator to blame -/

@[simp] theorem withOperator_eq_ok {name : String} {x : Outcome α} {a : α} :
    x.withOperator name = .ok a ↔ x = .ok a := by
  cases x <;> simp [withOperator]

@[simp] theorem withOperator_eq_fault {name : String} {x : Outcome α} :
    x.withOperator name = .error .fault ↔ x = .error .fault := by
  cases x with
  | ok a => simp [withOperator]
  | error f => cases f <;> simp [withOperator, Failure.withOperator]

/-! ## 4. Words -/

theorem word_eq_ok {n k : Nat} : word n = .ok k ↔ n < Word.bound ∧ n = k := by
  unfold word fault
  by_cases h : n < Word.bound <;> simp [h]

theorem word_eq_fault {n : Nat} : word n = .error .fault ↔ Word.bound ≤ n := by
  unfold word fault
  by_cases h : n < Word.bound
  · simp [h]
  · simp [h, Nat.le_of_not_lt h]

theorem word_ne_error {n : Nat} {e : Error} : word n ≠ .error (.error e) := by
  unfold word fault
  split <;> nofun

theorem signedWord_ne_error {i : Int} {e : Error} : signedWord i ≠ .error (.error e) := by
  unfold signedWord fault
  split <;> nofun

/-- Going on with a number faults where the number is no word, and where what comes after does. -/
theorem word_bind_eq_fault {n : Nat} {next : Nat → Outcome β} :
    (word n >>= next) = .error .fault ↔ Word.bound ≤ n ∨ next n = .error .fault := by
  rw [bind_eq_fault, word_eq_fault]
  by_cases h : Word.bound ≤ n
  · simp [h]
  · simp [h, word_eq_ok, Nat.lt_of_not_le h]

theorem signedWord_bind_eq_fault {i : Int} {next : Int → Outcome β} :
    (signedWord i >>= next) = .error .fault ↔
      Word.isSigned i = false ∨ next i = .error .fault := by
  cases h : Word.isSigned i with
  | false => simp [signedWord, h, fault, bind_eq_fault]
  | true =>
    rw [bind_eq_fault]
    simp [signedWord, h]

/-- Going on with an integer succeeds where it is a signed word and what comes after succeeds. -/
theorem signedWord_bind_eq_ok {i : Int} {next : Int → Outcome β} {b : β} :
    (signedWord i >>= next) = .ok b ↔ Word.isSigned i = true ∧ next i = .ok b := by
  unfold signedWord
  cases Word.isSigned i with
  | false => exact ⟨nofun, nofun⟩
  | true => exact (and_iff_right rfl).symm

theorem ofOption_eq_ok {x : Option α} {a : α} : ofOption x = .ok a ↔ x = some a := by
  cases x <;> simp [ofOption]

theorem ofOption_eq_fault {x : Option α} : ofOption x = .error .fault ↔ x = none := by
  cases x <;> simp [ofOption, fault]

/-! ## 5. Two computations in step -/

section Pairs

variable {γ δ : Type} {R : α → β → Prop} {S : γ → δ → Prop}

/-- Both computations give a value, and the values are related; or both fail with an error of one
    kind that blames one operator, if any; or both fault. What the errors show may differ. -/
inductive Paired (R : α → β → Prop) : Outcome α → Outcome β → Prop where
  | ok {a : α} {b : β} : R a b → Paired R (.ok a) (.ok b)
  | error {e e' : Error} : e.kind = e'.kind → e.operator = e'.operator →
      Paired R (.error (.error e)) (.error (.error e'))
  | fault : Paired R (.error .fault) (.error .fault)

/-- A computation is in step with itself. -/
theorem Paired.refl {R : α → α → Prop} (hR : ∀ a, R a a) (x : Outcome α) : x.Paired R x := by
  cases x with
  | ok a => exact .ok (hR a)
  | error f =>
    cases f with
    | error e => exact .error rfl rfl
    | fault => exact .fault

theorem Paired.imp {T : α → β → Prop} (hRT : ∀ a b, R a b → T a b) {x : Outcome α} {y : Outcome β}
    (h : x.Paired R y) : x.Paired T y := by
  cases h with
  | ok hab => exact .ok (hRT _ _ hab)
  | error hkind hoperator => exact .error hkind hoperator
  | fault => exact .fault

/-- **Computations in step that go on in step are in step.** -/
theorem Paired.bind {x : Outcome α} {y : Outcome β} {f : α → Outcome γ} {g : β → Outcome δ}
    (h : x.Paired R y) (hfg : ∀ a b, R a b → (f a).Paired S (g b)) :
    (x >>= f).Paired S (y >>= g) := by
  cases h with
  | ok hab => exact hfg _ _ hab
  | error hkind hoperator => exact .error hkind hoperator
  | fault => exact .fault

/-- Two errors of one kind that blame no one. -/
theorem Paired.fail {cause cause' : Cause} (h : cause.kind = cause'.kind) :
    (fail cause : Outcome α).Paired R (fail cause' : Outcome β) := .error h rfl

/-- Alternatives between which both computations choose in the same way. -/
theorem Paired.ite {c : Prop} [Decidable c] {x y : Outcome α} {x' y' : Outcome β}
    (hx : x.Paired R x') (hy : y.Paired R y') :
    (if c then x else y).Paired R (if c then x' else y') := by
  by_cases h : c
  · rwa [if_pos h, if_pos h]
  · rwa [if_neg h, if_neg h]

end Pairs

end TensorGraph.Outcome
