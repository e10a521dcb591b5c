import TensorGraph.Operands
import TensorGraph.Proofs.Outcome

/-!
# When requirements are met

A requirement on operands is met or reported, and is never a fault. The lemmas say when it is met:
`require_eq_ok` for the check itself, `one_eq_ok` and `two_eq_ok` for the number of operands, and
`agree_pair` for what two operands have to have in common.
-/

namespace TensorGraph.Operands

theorem require_ne_fault (o : Operands) (holds : Bool) (cause : Cause) :
    o.require holds cause ≠ .error .fault := by
  unfold require
  cases holds <;> nofun

theorem require_eq_ok (o : Operands) (holds : Bool) (cause : Cause) :
    o.require holds cause = .ok () ↔ holds = true := by
  unfold require
  cases holds
  · exact ⟨nofun, nofun⟩
  · exact ⟨fun _ => rfl, fun _ => rfl⟩

theorem one_ne_fault (o : Operands) : o.one ≠ .error .fault := by
  unfold one
  split <;> nofun

theorem one_eq_ok (o : Operands) (a : Shape) : o.one = .ok a ↔ o.shapes = [a] := by
  unfold one
  split
  · rename_i b hb
    rw [hb]
    simp
  · rename_i shapes hne
    exact ⟨nofun, fun h => absurd h (hne a)⟩

theorem two_ne_fault (o : Operands) : o.two ≠ .error .fault := by
  unfold two
  split <;> nofun

theorem two_eq_ok (o : Operands) (p : Shape × Shape) : o.two = .ok p ↔ o.shapes = [p.1, p.2] := by
  unfold two
  split
  · rename_i a b hab
    rw [hab]
    simp [Prod.ext_iff]
  · rename_i shapes hne
    exact ⟨nofun, fun h => absurd h (hne p.1 p.2)⟩

/-- Two operands agree when the second is like the first. -/
theorem agree_pair {α : Type} [BEq α] [LawfulBEq α] (name : Option String) (a b : Shape)
    (f : Shape → α) : (Operands.mk name [a, b]).agree f = true ↔ f a = f b := by
  simp only [agree, List.all_cons, List.all_nil, beq_self_eq_true, Bool.true_and, Bool.and_true,
    beq_iff_eq]
  exact eq_comm

end TensorGraph.Operands
