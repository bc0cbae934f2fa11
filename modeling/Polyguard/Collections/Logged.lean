import Mathlib.Data.List.Basic

/-! Programs that keep a log.
The state has a log, and a program adds entries to it without taking any away, also when it
fails. The entries of a run that returns may be of a narrower kind than those of one that
fails. An entry that one part of a program does not add was added by the part behind it,
which ran because the first one had returned. -/
namespace Polyguard

variable {ε σ E α β : Type}

/-- The state that a run ends in, with a value or with a failure. -/
def finalState : EStateM.Result ε σ α → σ
  | .ok _ state => state
  | .error _ state => state

/-- The program adds `possible` entries to the log, and `settled` ones when it returns. -/
def Adds (log : σ → List E) (settled possible : E → Prop) (program : EStateM ε σ α) : Prop :=
  ∀ state, ∃ entries, log (finalState (program state)) = log state ++ entries ∧ (∀ entry ∈ entries, possible entry) ∧
    ∀ value after, program state = .ok value after → ∀ entry ∈ entries, settled entry

namespace Adds

variable {log : σ → List E} {settled possible : E → Prop}

theorem kept {program : EStateM ε σ α} (same : ∀ state, log (finalState (program state)) = log state) :
    Adds log settled possible program := by
  intro state
  refine ⟨[],?_,by simp,by simp⟩
  rw [same state,List.append_nil]

theorem pure (value : α) : Adds log settled possible (Pure.pure value : EStateM ε σ α) := kept fun _ => rfl

theorem throw (failure : ε) : Adds log settled possible (throw failure : EStateM ε σ α) := kept fun _ => rfl

theorem mono {first second : E → Prop} {program : EStateM ε σ α} (adds : Adds log settled possible program)
    (narrow : ∀ entry, settled entry → first entry) (wide : ∀ entry, possible entry → second entry) : Adds log first second program := by
  intro state
  obtain ⟨entries,added,all,returned⟩ := adds state
  exact ⟨entries,added,fun entry member => wide entry (all entry member),
    fun value after ran entry member => narrow entry (returned value after ran entry member)⟩

theorem bind {first : EStateM ε σ α} {next : α → EStateM ε σ β} (adds : Adds log settled possible first)
    (follows : ∀ value, Adds log settled possible (next value)) : Adds log settled possible (first >>= next) := by
  intro state
  obtain ⟨entries,added,all,returned⟩ := adds state
  simp only [Bind.bind,EStateM.bind]
  cases run : first state with
  | ok value middle =>
    rw [run] at added
    have early := returned value middle run
    obtain ⟨others,later,rest,ended⟩ := follows value middle
    refine ⟨entries ++ others,later.trans ?_,?_,?_⟩
    · rw [show log middle = log state ++ entries from added,List.append_assoc]
    · exact List.forall_mem_append.mpr ⟨all,rest⟩
    · intro result after ran
      exact List.forall_mem_append.mpr ⟨early,ended result after ran⟩
  | error failure middle =>
    rw [run] at added
    exact ⟨entries,added,all,by simp⟩

theorem ite {condition : Prop} [Decidable condition] {left right : EStateM ε σ α} (first : Adds log settled possible left)
    (second : Adds log settled possible right) : Adds log settled possible (if condition then left else right) := by
  split
  · exact first
  · exact second

theorem fromExcept (result : Except ε α) : Adds log settled possible (MonadExcept.ofExcept result : EStateM ε σ α) := by
  cases result with
  | ok value => exact pure value
  | error failure => exact throw failure

theorem returned {program : EStateM ε σ α} (adds : Adds log settled possible program) {state after : σ} {value : α}
    (ran : program state = .ok value after) : ∃ entries, log after = log state ++ entries ∧ ∀ entry ∈ entries, settled entry := by
  obtain ⟨entries,added,-,ended⟩ := adds state
  rw [ran] at added
  exact ⟨entries,added,ended value after ran⟩

theorem entry_apart {program : EStateM ε σ α} (adds : Adds log settled possible program) {state : σ} {front back : List E} {entry : E}
    (logged : log (finalState (program state)) = log state ++ (front ++ entry :: back)) : possible entry := by
  obtain ⟨entries,added,all,-⟩ := adds state
  have same := List.append_cancel_left (added.symm.trans logged)
  apply all entry
  rw [same]
  simp

theorem entry_after {first : EStateM ε σ α} {next : α → EStateM ε σ β} {later : E → Prop} (adds : Adds log settled possible first)
    (follows : ∀ value, Adds log later later (next value)) {state : σ} {front back : List E} {entry : E} (other : ¬possible entry)
    (logged : log (finalState ((first >>= next) state)) = log state ++ (front ++ entry :: back)) :
    ∃ value middle early late, first state = .ok value middle ∧ log middle = log state ++ early ∧ (∀ entry ∈ early, settled entry) ∧
      front = early ++ late ∧ log (finalState (next value middle)) = log middle ++ (late ++ entry :: back) := by
  obtain ⟨early,added,all,ended⟩ := adds state
  simp only [Bind.bind,EStateM.bind] at logged
  cases run : first state with
  | error failure middle =>
    rw [run] at logged added
    have same := List.append_cancel_left (added.symm.trans logged)
    have member : entry ∈ early := by
      rw [same]
      simp
    exact absurd (all entry member) other
  | ok value middle =>
    rw [run] at logged added
    have settles := ended value middle run
    obtain ⟨rest,reached,-⟩ := follows value middle
    have start : log middle = log state ++ early := added
    rw [start,List.append_assoc] at reached
    have same := List.append_cancel_left (reached.symm.trans logged)
    rcases List.append_eq_append_iff.mp same with ⟨between,parted,rest⟩ | ⟨between,parted,rest⟩
    · refine ⟨value,middle,early,between,rfl,start,settles,parted,?_⟩
      rw [start,List.append_assoc,reached,rest]
    · cases between with
      | nil =>
        rw [List.append_nil] at parted
        rw [List.nil_append] at rest
        refine ⟨value,middle,early,[],rfl,start,settles,by rw [List.append_nil,parted],?_⟩
        rw [start,List.append_assoc,reached,← rest]
        rfl
      | cons added between =>
        obtain ⟨rfl,-⟩ := List.cons.inj rest
        have member : entry ∈ early := by
          rw [parted]
          simp
        exact absurd (all entry member) other

end Adds

/-- The program ends its entries with a `last` one when it returns. When it fails, an entry that is `broken` by that failure
may be the end. -/
def Concludes (log : σ → List E) (possible last : E → Prop) (broken : ε → E → Prop) (program : EStateM ε σ α) : Prop :=
  ∀ state, ∃ entries endings, log (finalState (program state)) = log state ++ (entries ++ endings) ∧
    (∀ entry ∈ entries, possible entry) ∧
    (∀ value after, program state = .ok value after → ∃ entry, endings = [entry] ∧ last entry) ∧
    ∀ failure after, program state = .error failure after → endings = [] ∨ ∃ entry, endings = [entry] ∧ broken failure entry

namespace Concludes

variable {log : σ → List E} {possible last : E → Prop} {broken : ε → E → Prop}

theorem throw (failure : ε) : Concludes log possible last broken (throw failure : EStateM ε σ α) := by
  intro state
  refine ⟨[],[],(List.append_nil _).symm,by simp,?_,fun _ _ _ => .inl rfl⟩
  intro value after ran
  cases ran

theorem bind {first : EStateM ε σ α} {next : α → EStateM ε σ β} (adds : Adds log possible possible first)
    (follows : ∀ value, Concludes log possible last broken (next value)) : Concludes log possible last broken (first >>= next) := by
  intro state
  obtain ⟨early,added,all,-⟩ := adds state
  simp only [Bind.bind,EStateM.bind]
  cases run : first state with
  | ok value middle =>
    rw [run] at added
    obtain ⟨entries,endings,later,rest,returns,fails⟩ := follows value middle
    refine ⟨early ++ entries,endings,later.trans ?_,List.forall_mem_append.mpr ⟨all,rest⟩,returns,fails⟩
    rw [show log middle = log state ++ early from added]
    simp only [List.append_assoc]
  | error failure middle =>
    rw [run] at added
    exact ⟨early,[],by rw [List.append_nil]; exact added,all,by simp,fun _ _ _ => .inl rfl⟩

theorem then_kept {first : EStateM ε σ α} (concludes : Concludes log possible last broken first) (value : α → β) :
    Concludes log possible last broken (first >>= fun result => pure (value result)) := by
  intro state
  obtain ⟨entries,endings,added,all,returns,fails⟩ := concludes state
  simp only [Bind.bind,EStateM.bind]
  cases run : first state with
  | ok result middle =>
    rw [run] at added
    exact ⟨entries,endings,added,all,fun _ _ _ => returns result middle run,by rintro _ _ ⟨⟩⟩
  | error failure middle =>
    rw [run] at added
    refine ⟨entries,endings,added,all,by rintro _ _ ⟨⟩,?_⟩
    rintro _ _ ⟨⟩
    exact fails failure middle run

end Concludes
end Polyguard
