import Mathlib.Tactic.Common

/-! Results that fail or hold a value. What a fallible run returned is read back step by
step from the value it ended in. -/
namespace Polyguard.Fallible

variable {ε α β : Type}

theorem bind_iff {first : Except ε α} {next : α → Except ε β} {result : β} :
    (first >>= next) = .ok result ↔ ∃ value, first = .ok value ∧ next value = .ok result := by
  cases first <;> simp [bind,Except.bind]

theorem bind_ok {first : Except ε α} {next : α → Except ε β} {value : α} (ran : first = .ok value) : (first >>= next) = next value := by
  rw [ran]
  rfl

theorem map_iff {action : Except ε α} {f : α → β} {result : β} :
    action.map f = .ok result ↔ ∃ value, action = .ok value ∧ f value = result := by
  cases action <;> simp [Except.map]

theorem mapError_iff {ε' : Type} {action : Except ε α} {f : ε → ε'} {value : α} :
    action.mapError f = .ok value ↔ action = .ok value := by
  cases action <;> simp [Except.mapError]

theorem unless_iff {condition : Prop} [Decidable condition] {fault : ε} {next : Except ε α} {value : α} :
    (if condition then .error fault else next) = .ok value ↔ ¬condition ∧ next = .ok value := by
  by_cases holds : condition <;> simp [holds]

theorem isOk_iff {action : Except ε α} : action.isOk ↔ ∃ value, action = .ok value := by
  cases action <;> simp [Except.isOk,Except.toBool]

theorem run_bind_iff {σ : Type} {first : EStateM ε σ α} {next : α → EStateM ε σ β} {state last : σ} {result : β} :
    (first >>= next) state = .ok result last ↔ ∃ value middle, first state = .ok value middle ∧ next value middle = .ok result last := by
  simp only [bind,EStateM.bind]
  cases first state <;> simp

theorem run_bind_ok {σ : Type} {first : EStateM ε σ α} {next : α → EStateM ε σ β} {state middle : σ} {value : α}
    (ran : first state = .ok value middle) : (first >>= next) state = next value middle := by
  simp only [bind,EStateM.bind,ran]

/-- Whether a run that ended returned what is asked for. -/
def returns {σ : Type} (holds : α → Bool) : EStateM.Result ε σ α → Bool
  | .ok value _ => holds value
  | .error _ _ => false

theorem returns_iff {σ : Type} {holds : α → Bool} {result : EStateM.Result ε σ α} :
    returns holds result ↔ ∃ value last, result = .ok value last ∧ holds value := by
  cases result <;> simp [returns]

end Polyguard.Fallible
