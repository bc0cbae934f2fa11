import Mathlib.Tactic.Common

/-! Programs with a counted failure.
The state has a measure, and one failure stands for using it up by one. A program is
counted when it leaves the measure alone unless it ends in that failure; it raises a
kind of failure when all its failures are of that kind. -/
namespace Polyguard

variable {ε σ α β : Type}

/-- The program lowers the measure exactly when it ends in the named failure, by one. -/
def Counted (measure : σ → Nat) (named : ε → Prop) (program : EStateM ε σ α) : Prop :=
  ∀ state, match program state with
    | .ok _ next => measure next = measure state
    | .error failure next => (named failure ∧ measure state = measure next + 1) ∨ (¬named failure ∧ measure next = measure state)

namespace Counted

variable {measure : σ → Nat} {named : ε → Prop}

theorem pure (value : α) : Counted measure named (Pure.pure value) := fun _ => rfl

theorem throw {failure : ε} (other : ¬named failure) : Counted measure named (throw failure : EStateM ε σ α) :=
  fun _ => .inr ⟨other,rfl⟩

theorem bind {first : EStateM ε σ α} {next : α → EStateM ε σ β} (counted : Counted measure named first)
    (follows : ∀ value, Counted measure named (next value)) : Counted measure named (first >>= next) := by
  intro state
  have before := counted state
  simp only [Bind.bind,EStateM.bind]
  cases run : first state with
  | ok value middle =>
    rw [run] at before
    have after := follows value middle
    dsimp only at before ⊢
    cases rest : next value middle with
    | ok result last =>
      rw [rest] at after
      exact after.trans before
    | error failure last =>
      rw [rest] at after
      dsimp only at after ⊢
      rw [← before]
      exact after
  | error failure middle =>
    rw [run] at before
    exact before

theorem ite {condition : Prop} [Decidable condition] {left right : EStateM ε σ α} (first : Counted measure named left)
    (second : Counted measure named right) : Counted measure named (if condition then left else right) := by
  split
  · exact first
  · exact second

theorem fromExcept {result : Except ε α} (other : ∀ failure, result = .error failure → ¬named failure) :
    Counted measure named (MonadExcept.ofExcept result : EStateM ε σ α) := by
  cases result with
  | ok value => exact pure value
  | error failure => exact throw (other failure rfl)

end Counted

/-- Every failure of the program is of one kind. -/
def Raises (kind : ε → Prop) (program : EStateM ε σ α) : Prop :=
  ∀ state failure next, program state = .error failure next → kind failure

namespace Raises

variable {kind : ε → Prop}

theorem pure (value : α) : Raises kind (Pure.pure value : EStateM ε σ α) := nofun

theorem throw {failure : ε} (raised : kind failure) : Raises kind (throw failure : EStateM ε σ α) := by
  intro state other next failed
  cases failed
  exact raised

theorem bind {first : EStateM ε σ α} {next : α → EStateM ε σ β} (raises : Raises kind first)
    (follows : ∀ value, Raises kind (next value)) : Raises kind (first >>= next) := by
  intro state failure last failed
  simp only [Bind.bind,EStateM.bind] at failed
  cases run : first state with
  | ok value middle =>
    rw [run] at failed
    exact follows value middle failure last failed
  | error raised middle =>
    rw [run] at failed
    cases failed
    exact raises state failure last run

theorem ite {condition : Prop} [Decidable condition] {left right : EStateM ε σ α} (first : Raises kind left)
    (second : Raises kind right) : Raises kind (if condition then left else right) := by
  split
  · exact first
  · exact second

theorem fromExcept {result : Except ε α} (raised : ∀ failure, result = .error failure → kind failure) :
    Raises kind (MonadExcept.ofExcept result : EStateM ε σ α) := by
  cases result with
  | ok value => exact pure value
  | error failure => exact throw (raised failure rfl)

end Raises
end Polyguard
