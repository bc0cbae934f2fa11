import Polyguard.Proxy.Memory
import Mathlib.Tactic.SplitIfs

/-! Safety of the memory budget over every interleaving.
The counter of a budget is the total of its permits in every reachable state. What an
operation has changed so far is known in each of its phases, so that a failed operation
can be seen to leave nothing behind. -/
namespace Polyguard.Proxy.Memory
open Ledger

/-- The operations that reserve, with the permit that a grow has borrowed. -/
def Operation.Reserves (permits : List (Nat × Permit)) (budget bytes : Nat) : Operation → Prop
  | .reserve _ _ => True
  | .grow target added => added = bytes ∧ ∃ permit, find target permits = some permit ∧ permit.budget = budget
  | _ => False

/-- What a phase relies on. Between the exchange and the end of a failed operation the
bytes it reserved stand in the permit that is about to be dropped. -/
def Phase.Sound (permits : List (Nat × Permit)) (effect : Nat → Int) : Phase → Prop
  | .idle => True
  | .loaded operation budget bytes _ => operation.Reserves permits budget bytes ∧ ∀ other, effect other = 0
  | .checked operation budget bytes current limit =>
    operation.Reserves permits budget bytes ∧ (∀ other, effect other = 0) ∧
      current + bytes < usizeModulus ∧ current + bytes ≤ limit
  | .reserved target bytes additional =>
    ∃ permit, find target permits = some permit ∧ find additional permits = some ⟨permit.budget,bytes⟩ ∧
      additional ≠ target ∧ ∀ other, effect other = charge other ⟨permit.budget,bytes⟩
  | .releasing operation dropped outcome =>
    (∀ target ∈ operation.borrowed, ∃ permit, find target permits = some permit) ∧ dropped ∉ operation.borrowed ∧
      ∃ permit, find dropped permits = some permit ∧
        ∀ fault, outcome = .error fault → ∀ other, effect other + operation.returned other = charge other permit

theorem Operation.Reserves.found {permits : List (Nat × Permit)} {budget bytes : Nat} {operation : Operation}
    (reserves : operation.Reserves permits budget bytes) :
    ∀ held ∈ operation.borrowed, ∃ permit, find held permits = some permit := by
  intro held member
  cases operation with
  | reserve _ _ => cases member
  | grow target added =>
    obtain ⟨_,permit,found,_⟩ := reserves
    rcases List.mem_singleton.mp member with rfl
    exact ⟨permit,found⟩
  | absorb _ _ _ => cases reserves
  | drop _ => cases reserves

theorem Operation.Reserves.frame {permits changed : List (Nat × Permit)} {budget bytes : Nat} {operation : Operation}
    (reserves : operation.Reserves permits budget bytes)
    (same : ∀ held ∈ operation.borrowed, find held changed = find held permits) :
    operation.Reserves changed budget bytes := by
  cases operation with
  | reserve _ _ => trivial
  | grow target added =>
    obtain ⟨added_eq,permit,found,budget_eq⟩ := reserves
    exact ⟨added_eq,permit,(same target List.mem_cons_self).trans found,budget_eq⟩
  | absorb _ _ _ => cases reserves
  | drop _ => cases reserves

theorem Operation.Reserves.returned {permits : List (Nat × Permit)} {budget bytes : Nat} {operation : Operation}
    (reserves : operation.Reserves permits budget bytes) (other : Nat) : operation.returned other = 0 := by
  cases operation with
  | reserve _ _ => rfl
  | grow target added => rfl
  | absorb _ _ _ => cases reserves
  | drop _ => cases reserves

theorem Phase.Sound.found {permits : List (Nat × Permit)} {effect : Nat → Int} {phase : Phase}
    (sound : phase.Sound permits effect) : ∀ held ∈ phase.held, ∃ permit, find held permits = some permit := by
  intro held member
  cases phase with
  | idle => cases member
  | loaded operation budget bytes current => exact sound.1.found held member
  | checked operation budget bytes current limit => exact sound.1.found held member
  | reserved target bytes additional =>
    obtain ⟨permit,found,beside,_⟩ := sound
    rcases List.mem_cons.mp member with rfl | member
    · exact ⟨permit,found⟩
    · rcases List.mem_singleton.mp member with rfl
      exact ⟨_,beside⟩
  | releasing operation dropped outcome =>
    obtain ⟨borrowed,_,permit,found,_⟩ := sound
    rcases List.mem_cons.mp member with rfl | member
    · exact ⟨permit,found⟩
    · exact borrowed held member

theorem Phase.Sound.frame {permits changed : List (Nat × Permit)} {effect : Nat → Int} {phase : Phase}
    (sound : phase.Sound permits effect) (same : ∀ held ∈ phase.held, find held changed = find held permits) :
    phase.Sound changed effect := by
  cases phase with
  | idle => trivial
  | loaded operation budget bytes current => exact ⟨sound.1.frame same,sound.2⟩
  | checked operation budget bytes current limit => exact ⟨sound.1.frame same,sound.2⟩
  | reserved target bytes additional =>
    obtain ⟨permit,found,beside,rest⟩ := sound
    refine ⟨permit,?_,?_,rest⟩
    · rw [same target (by simp [Phase.held]),found]
    · rw [same additional (by simp [Phase.held]),beside]
  | releasing operation dropped outcome =>
    obtain ⟨borrowed,apart,permit,found,rest⟩ := sound
    refine ⟨?_,apart,permit,?_,rest⟩
    · intro target member
      rw [same target (by simp [Phase.held,member])]
      exact borrowed target member
    · rw [same dropped (by simp [Phase.held]),found]

structure Inv (state : State) (effects : Nat → Nat → Effect) : Prop where
  used : ∀ budget, (state.budgets budget).used = state.total budget
  small : ∀ budget, (state.budgets budget).used < usizeModulus
  sound : ∀ thread, (state.threads thread).Sound state.permits fun budget => (effects thread budget).used
  apart : ∀ left right, left ≠ right → ∀ held ∈ (state.threads left).held, held ∉ (state.threads right).held
  agree : ∀ thread budget, (effects thread budget).total = (effects thread budget).used

/-- The used part of an operation's effects after a step. -/
def usedAfter (effects : Nat → Nat → Effect) (state : State) (thread : Nat) (next : State) : Nat → Int :=
  fun budget => (observe effects state thread next thread budget).used

theorem observe_other {effects : Nat → Nat → Effect} {state next : State} {thread other : Nat} (differs : other ≠ thread) :
    observe effects state thread next other = effects other := Function.update_of_ne differs _ _

/-- One step of a thread keeps the invariant when it changes only permits that no other
thread holds, and comes to hold only permits that it held before or that were free. -/
theorem Inv.next {state next : State} {effects : Nat → Nat → Effect} {thread : Nat} {phase : Phase}
    (inv : Inv state effects) (threads : next.threads = Function.update state.threads thread phase)
    (used : ∀ budget, (next.budgets budget).used = next.total budget)
    (small : ∀ budget, (next.budgets budget).used < usizeModulus)
    (sound : phase.Sound next.permits (usedAfter effects state thread next))
    (frame : ∀ other, other ≠ thread → ∀ held ∈ (state.threads other).held,
      find held next.permits = find held state.permits)
    (holds : ∀ held ∈ phase.held, held ∈ (state.threads thread).held ∨ state.free held) :
    Inv next (observe effects state thread next) := by
  have here : next.threads thread = phase := by rw [threads,Function.update_self]
  have there : ∀ other, other ≠ thread → next.threads other = state.threads other := by
    intro other differs
    rw [threads,Function.update_of_ne differs]
  have outside : ∀ other, other ≠ thread → ∀ held ∈ phase.held, held ∉ (state.threads other).held := by
    intro other differs held member
    rcases holds held member with before | free
    · exact inv.apart thread other (Ne.symm differs) held before
    · exact free other
  refine ⟨used,small,?_,?_,?_⟩
  · intro other
    by_cases same : other = thread
    · rw [same,here]
      exact sound
    · rw [there other same,observe_other same]
      exact (inv.sound other).frame (frame other same)
  · intro left right differs held member
    by_cases leftSame : left = thread
    · rw [leftSame,here] at member
      rw [there right (fun same => differs (leftSame.trans same.symm))]
      exact outside right (fun same => differs (leftSame.trans same.symm)) held member
    · rw [there left leftSame] at member
      by_cases rightSame : right = thread
      · rw [rightSame,here]
        exact fun again => outside left leftSame held again member
      · rw [there right rightSame]
        exact inv.apart left right differs held member
  · intro other budget
    by_cases same : other = thread
    · subst same
      simp only [observe,Function.update_self]
      rw [used budget,inv.used budget]
      cases state.threads other with
      | idle => rfl
      | _ => simp only [inv.agree]
    · rw [observe_other same]
      exact inv.agree other budget

theorem checkedAdd_some {left right sum : Nat} (adds : checkedAdd left right = some sum) :
    sum = left + right ∧ left + right < usizeModulus := by
  simp only [checkedAdd] at adds
  split at adds
  · rename_i small
    cases adds
    exact ⟨rfl,Nat.lt_succ_of_le small⟩
  · cases adds

theorem wrappingSub_le {left right : Nat} (covered : right ≤ left) (small : left < usizeModulus) :
    wrappingSub left right = left - right := by
  have shape : left + usizeModulus - right = left - right + usizeModulus := by omega
  rw [wrappingSub,shape,Nat.add_mod_right,Nat.mod_eq_of_lt (by omega)]

theorem usedAfter_idle {effects : Nat → Nat → Effect} {state next : State} {thread : Nat}
    (idle : state.threads thread = .idle) (budget : Nat) :
    usedAfter effects state thread next budget = (next.budgets budget).used - (state.budgets budget).used := by
  simp only [usedAfter,observe,Function.update_self,idle,Int.zero_add]

theorem usedAfter_busy {effects : Nat → Nat → Effect} {state next : State} {thread : Nat}
    (busy : state.threads thread ≠ .idle) (budget : Nat) :
    usedAfter effects state thread next budget =
      (effects thread budget).used + ((next.budgets budget).used - (state.budgets budget).used) := by
  simp only [usedAfter,observe,Function.update_self]

theorem total_moved {permits : List (Nat × Permit)} {target other sum : Nat} {permit taken : Permit}
    (found : find target permits = some permit) (beside : find other permits = some taken) (differs : other ≠ target)
    (same : permit.budget = taken.budget) (adds : checkedAdd permit.bytes taken.bytes = some sum) (budget : Nat) :
    total (charge budget) (replace other { taken with bytes := 0 } (replace target { permit with bytes := sum } permits)) =
      total (charge budget) permits := by
  have first := total_replace (charge budget) { permit with bytes := sum } found
  have moved : find other (replace target { permit with bytes := sum } permits) = some taken :=
    (find_replace_other differs).trans beside
  have second := total_replace (charge budget) { taken with bytes := 0 } moved
  have exact_sum := (checkedAdd_some adds).1
  simp only [charge,same] at first second ⊢
  split_ifs at first second ⊢ <;> omega

theorem find_moved {permits : List (Nat × Permit)} {target other held : Nat} {value rest : Permit}
    (notOther : held ≠ other) (notTarget : held ≠ target) :
    find held (replace other rest (replace target value permits)) = find held permits := by
  rw [find_replace_other notOther,find_replace_other notTarget]

theorem Inv.enter {state : State} {effects : Nat → Nat → Effect} {thread : Nat} {phase : Phase}
    (inv : Inv state effects) (sound : phase.Sound state.permits (usedAfter effects state thread (state.enter thread phase)))
    (holds : ∀ held ∈ phase.held, held ∈ (state.threads thread).held ∨ state.free held) :
    Inv (state.enter thread phase) (observe effects state thread (state.enter thread phase)) :=
  inv.next rfl inv.used inv.small sound (fun _ _ _ _ => rfl) holds

theorem usedAfter_enter_idle {effects : Nat → Nat → Effect} {state : State} {thread : Nat} {phase : Phase}
    (idle : state.threads thread = .idle) (budget : Nat) :
    usedAfter effects state thread (state.enter thread phase) budget = 0 := by
  rw [usedAfter_idle idle]
  exact Int.sub_self _

theorem usedAfter_enter_busy {effects : Nat → Nat → Effect} {state : State} {thread : Nat} {phase : Phase}
    (busy : state.threads thread ≠ .idle) (budget : Nat) :
    usedAfter effects state thread (state.enter thread phase) budget = (effects thread budget).used := by
  rw [usedAfter_busy busy]
  simp only [State.enter]
  omega

theorem Inv.exchange {state : State} {effects : Nat → Nat → Effect} {thread budget bytes current limit fresh : Nat}
    {operation : Operation} (inv : Inv state effects)
    (phase : state.threads thread = .checked operation budget bytes current limit)
    (same : (state.budgets budget).used = current) (unknown : find fresh state.permits = none) :
    let next := ((state.setUsed budget (current + bytes)).setPermits ((fresh,⟨budget,bytes⟩) :: state.permits)).enter
      thread (operation.exchanged fresh)
    Inv next (observe effects state thread next) := by
  intro next
  have sound := inv.sound thread
  rw [phase] at sound
  obtain ⟨reserves,effect,small,_⟩ := sound
  have found_not_fresh : ∀ held, (∃ permit, find held state.permits = some permit) → held ≠ fresh := by
    rintro held ⟨permit,found⟩ rfl
    rw [unknown] at found
    cases found
  have used_here : (next.budgets budget).used = current + bytes := by
    simp only [next,State.setUsed,State.setPermits,State.enter,Function.update_self]
  have used_there : ∀ other, other ≠ budget → (next.budgets other).used = (state.budgets other).used := by
    intro other differs
    simp only [next,State.setUsed,State.setPermits,State.enter,Function.update_of_ne differs]
  have total_next : ∀ other, next.total other = charge other ⟨budget,bytes⟩ + state.total other := fun _ => rfl
  have busy : state.threads thread ≠ .idle := by rw [phase]; exact Phase.noConfusion
  have used_next : ∀ other, (next.budgets other).used = (state.budgets other).used + charge other ⟨budget,bytes⟩ := by
    intro other
    by_cases differs : other = budget
    · subst differs
      rw [used_here,charge,if_pos rfl,same]
    · rw [used_there other differs,charge,if_neg (Ne.symm differs),Nat.add_zero]
  have after : ∀ other, usedAfter effects state thread next other = charge other ⟨budget,bytes⟩ := by
    intro other
    have none_yet : (effects thread other).used = 0 := effect other
    rw [usedAfter_busy busy,none_yet,used_next other]
    omega
  refine inv.next rfl ?_ ?_ ?_ ?_ ?_
  · intro other
    rw [used_next,total_next,inv.used,Nat.add_comm]
  · intro other
    by_cases differs : other = budget
    · rw [differs,used_here]
      exact small
    · rw [used_there other differs]
      exact inv.small other
  · cases operation with
    | grow target added =>
      obtain ⟨added_eq,permit,found,budget_eq⟩ := reserves
      have target_ne := found_not_fresh target ⟨permit,found⟩
      refine ⟨permit,(find_open target_ne).trans found,?_,Ne.symm target_ne,?_⟩
      · rw [added_eq,budget_eq]
        exact find_opened
      · rw [added_eq,budget_eq]
        exact after
    | reserve _ _ => trivial
    | absorb _ _ _ => trivial
    | drop _ => trivial
  · intro other _ held member
    exact find_open (found_not_fresh held ((inv.sound other).found held member))
  · intro held member
    cases operation with
    | grow target added =>
      rcases List.mem_cons.mp member with rfl | member
      · left
        rw [phase]
        simp [Phase.held,Operation.borrowed]
      · right
        rcases List.mem_singleton.mp member with rfl
        intro other holds
        exact found_not_fresh held ((inv.sound other).found held holds) rfl
    | reserve _ _ => cases member
    | absorb _ _ _ => cases member
    | drop _ => cases member

theorem Inv.covered {state : State} {effects : Nat → Nat → Effect} {dropped : Nat} {permit : Permit} (inv : Inv state effects)
    (found : find dropped state.permits = some permit) : permit.bytes ≤ (state.budgets permit.budget).used := by
  have covers := weight_le_total (charge permit.budget) found
  rw [charge,if_pos rfl] at covers
  rw [inv.used]
  exact covers

theorem used_released {state : State} {effects : Nat → Nat → Effect} {thread dropped : Nat} {permit : Permit} (inv : Inv state effects)
    (found : find dropped state.permits = some permit) (budget : Nat) :
    (((((state.setUsed permit.budget (wrappingSub (state.budgets permit.budget).used permit.bytes)).setPermits
      (close dropped state.permits)).enter thread .idle).budgets budget).used : Int) =
        (state.budgets budget).used - charge budget permit := by
  have covers := inv.covered found
  simp only [State.setUsed,State.setPermits,State.enter]
  by_cases differs : budget = permit.budget
  · subst differs
    rw [Function.update_self,charge,if_pos rfl,wrappingSub_le covers (inv.small _)]
    exact Int.ofNat_sub covers
  · rw [Function.update_of_ne differs,charge,if_neg (Ne.symm differs)]
    omega

theorem Inv.release {state : State} {effects : Nat → Nat → Effect} {thread dropped : Nat} {operation : Operation}
    {permit : Permit} {outcome : Outcome Unit} (inv : Inv state effects)
    (phase : state.threads thread = .releasing operation dropped outcome)
    (found : find dropped state.permits = some permit) :
    let next := ((state.setUsed permit.budget (wrappingSub (state.budgets permit.budget).used permit.bytes)).setPermits
      (close dropped state.permits)).enter thread .idle
    Inv next (observe effects state thread next) := by
  intro next
  have used_next : ∀ budget, ((next.budgets budget).used : Int) = (state.budgets budget).used - charge budget permit :=
    used_released inv found
  refine inv.next rfl ?_ ?_ trivial ?_ ?_
  · intro budget
    have closed : next.total budget + charge budget permit = state.total budget := total_close (charge budget) found
    have used_eq := used_next budget
    rw [inv.used] at used_eq
    omega
  · intro budget
    have used_eq := used_next budget
    have small := inv.small budget
    omega
  · intro other differs held member
    refine find_close_other ?_
    rintro rfl
    refine inv.apart other thread differs held member ?_
    rw [phase]
    exact List.mem_cons_self
  · intro held member
    cases member

theorem Inv.moved {state : State} {effects : Nat → Nat → Effect} {thread target other sum : Nat} {permit taken : Permit}
    {operation : Operation} (inv : Inv state effects) (found : find target state.permits = some permit)
    (beside : find other state.permits = some taken) (differs : other ≠ target) (same : permit.budget = taken.budget)
    (adds : checkedAdd permit.bytes taken.bytes = some sum) (borrows : operation.borrowed = [target])
    (holds : ∀ held ∈ [other,target], held ∈ (state.threads thread).held ∨ state.free held) :
    let next := (state.setPermits (replace other { taken with bytes := 0 }
      (replace target { permit with bytes := sum } state.permits))).enter thread (.releasing operation other (.ok ()))
    Inv next (observe effects state thread next) := by
  intro next
  have other_found : find other (replace target { permit with bytes := sum } state.permits) = some taken :=
    (find_replace_other differs).trans beside
  refine inv.next rfl ?_ inv.small ?_ ?_ ?_
  · intro budget
    exact (inv.used budget).trans (total_moved found beside differs same adds budget).symm
  · refine ⟨?_,?_,_,find_replace other_found,nofun⟩
    · intro held member
      rw [borrows] at member
      rcases List.mem_singleton.mp member with rfl
      exact ⟨_,(find_replace_other (Ne.symm differs)).trans (find_replace found)⟩
    · rw [borrows]
      simpa using differs
  · intro another apart held member
    -- A permit of another thread is neither of the two that change.
    have untouched : ∀ changed ∈ [other,target], held ≠ changed := by
      rintro changed inside rfl
      rcases holds held inside with mine | free
      · exact inv.apart another thread apart held member mine
      · exact free another member
    exact find_moved (untouched other (by simp)) (untouched target (by simp))
  · intro held member
    simp only [Phase.held,borrows] at member
    exact holds held member

theorem held_pair {state : State} {thread first second : Nat}
    (left : first ∈ (state.threads thread).held ∨ state.free first)
    (right : second ∈ (state.threads thread).held ∨ state.free second) :
    ∀ held ∈ [first,second], held ∈ (state.threads thread).held ∨ state.free held := by
  intro held member
  rcases List.mem_cons.mp member with rfl | member
  · exact left
  · rcases List.mem_singleton.mp member with rfl
    exact right

/-- A failed `absorb` before the permit it took over is dropped. -/
theorem Inv.absorbing {state : State} {effects : Nat → Nat → Effect} {thread target other : Nat} {permit taken : Permit}
    (inv : Inv state effects) (outcome : Outcome Unit) (idle : state.threads thread = .idle)
    (found : find target state.permits = some permit) (beside : find other state.permits = some taken)
    (free : state.free target) (free' : state.free other) (differs : other ≠ target) :
    let next := state.enter thread (.releasing (.absorb target other taken) other outcome)
    Inv next (observe effects state thread next) := by
  refine inv.enter ⟨?_,?_,taken,beside,?_⟩ (held_pair (.inr free') (.inr free))
  · intro held member
    rcases List.mem_singleton.mp member with rfl
    exact ⟨permit,found⟩
  · simpa [Operation.borrowed] using differs
  · intro fault _ budget
    rw [usedAfter_enter_idle idle]
    exact Int.zero_add _

theorem Step.inv {state next : State} {effects : Nat → Nat → Effect} {thread : Nat} {event : Event}
    (step : Step state thread event next) (inv : Inv state effects) : Inv next (observe effects state thread next) := by
  have sound := inv.sound thread
  cases step with
  | reserve budget bytes idle => exact inv.enter ⟨trivial,usedAfter_enter_idle idle⟩ nofun
  | grow target bytes permit idle found free =>
    refine inv.enter ⟨⟨rfl,permit,found,rfl⟩,usedAfter_enter_idle idle⟩ ?_
    intro held member
    rcases List.mem_singleton.mp member with rfl
    exact .inr free
  | overflow phase sum => exact inv.enter trivial nofun
  | refuse phase sum exceeds => exact inv.enter trivial nofun
  | check phase sum within =>
    obtain ⟨rfl,small⟩ := checkedAdd_some sum
    rw [phase] at sound
    refine inv.enter ⟨sound.1,?_,small,within⟩ ?_
    · intro budget
      rw [usedAfter_enter_busy (by rw [phase]; exact Phase.noConfusion)]
      exact sound.2 budget
    · intro held member
      rw [phase]
      exact .inl member
  | retry phase =>
    rw [phase] at sound
    refine inv.enter ⟨sound.1,?_⟩ ?_
    · intro budget
      rw [usedAfter_enter_busy (by rw [phase]; exact Phase.noConfusion)]
      exact sound.2.1 budget
    · intro held member
      rw [phase]
      exact .inl member
  | exchange fresh phase same unknown => exact inv.exchange phase same unknown
  | grown phase found beside adds =>
    rw [phase] at sound
    obtain ⟨permit,found',beside',differs,_⟩ := sound
    cases found.symm.trans found'
    cases beside.symm.trans beside'
    refine inv.moved found beside differs rfl adds rfl (held_pair (.inl ?_) (.inl ?_))
    · simp [phase,Phase.held]
    · simp [phase,Phase.held]
  | growOverflow phase found adds =>
    rw [phase] at sound
    obtain ⟨permit,found',beside,differs,effect⟩ := sound
    refine inv.enter ⟨?_,?_,_,beside,?_⟩ (held_pair (.inl ?_) (.inl ?_))
    · intro held member
      rcases List.mem_singleton.mp member with rfl
      exact ⟨_,found⟩
    · simpa [Operation.borrowed] using differs
    · intro fault _ budget
      rw [usedAfter_enter_busy (by rw [phase]; exact Phase.noConfusion)]
      exact (Int.add_zero _).trans (effect budget)
    · simp [phase,Phase.held]
    · simp [phase,Phase.held]
  | absorb idle found beside free free' differs same adds =>
    exact inv.moved found beside differs same adds rfl (held_pair (.inr free') (.inr free))
  | absorbForeign idle found beside free free' differs foreign =>
    exact inv.absorbing _ idle found beside free free' differs
  | absorbOverflow idle found beside free free' differs same adds =>
    exact inv.absorbing _ idle found beside free free' differs
  | drop idle found free =>
    refine inv.enter ⟨nofun,nofun,_,found,nofun⟩ ?_
    intro held member
    rcases List.mem_singleton.mp member with rfl
    exact .inr free
  | release phase found => exact inv.release phase found
  | store budget limit idle =>
    have used_next : ∀ other, ((state.setLimit budget limit).budgets other).used = (state.budgets other).used := by
      intro other
      simp only [State.setLimit,Function.update_apply]
      split
      · rename_i same
        rw [same]
      · rfl
    refine inv.next (Function.update_eq_self thread state.threads).symm ?_ ?_ ?_ (fun _ _ _ _ => rfl) ?_
    · intro other
      exact (used_next other).trans (inv.used other)
    · intro other
      rw [used_next]
      exact inv.small other
    · rw [idle]
      trivial
    · intro held member
      exact .inl member

theorem Reachable.inv {limits : Nat → Nat} {state : State} {effects : Nat → Nat → Effect}
    (reachable : Reachable limits state effects) : Inv state effects := by
  induction reachable with
  | initial =>
    refine ⟨fun _ => rfl,?_,fun _ => trivial,nofun,fun _ _ => rfl⟩
    intro budget
    exact Nat.zero_lt_of_lt (by decide : 0 < usizeModulus)
  | step _ step ih => exact step.inv ih

theorem Step.failed {state next : State} {effects : Nat → Nat → Effect} {thread : Nat} {operation : Operation} {fault : Fault}
    (step : Step state thread (.returns operation (.error fault)) next) (inv : Inv state effects) (budget : Nat) :
    (observe effects state thread next thread budget).used + operation.returned budget = 0 := by
  have sound := inv.sound thread
  change usedAfter effects state thread next budget + _ = 0
  cases step with
  | overflow phase sum =>
    rw [phase] at sound
    rw [usedAfter_enter_busy (by rw [phase]; exact Phase.noConfusion),sound.1.returned]
    exact (Int.add_zero _).trans (sound.2 budget)
  | refuse phase sum exceeds =>
    rw [phase] at sound
    rw [usedAfter_enter_busy (by rw [phase]; exact Phase.noConfusion),sound.1.returned]
    exact (Int.add_zero _).trans (sound.2 budget)
  | release phase found =>
    rw [phase] at sound
    obtain ⟨_,_,permit,found',effect⟩ := sound
    cases found.symm.trans found'
    have due : (effects thread budget).used + operation.returned budget = charge budget _ := effect fault rfl budget
    rw [usedAfter_busy (by rw [phase]; exact Phase.noConfusion),used_released inv found]
    omega

theorem Reachable.progress {limits : Nat → Nat} {state : State} {effects : Nat → Nat → Effect}
    (reachable : Reachable limits state effects) (thread : Nat) (busy : state.threads thread ≠ .idle) :
    ∃ event next, Step state thread event next := by
  have sound := reachable.inv.sound thread
  cases phase : state.threads thread with
  | idle => exact absurd phase busy
  | loaded operation budget bytes current =>
    cases sum : checkedAdd current bytes with
    | none => exact ⟨_,_,.overflow phase sum⟩
    | some next =>
      by_cases within : next ≤ (state.budgets budget).limit
      · exact ⟨_,_,.check phase sum within⟩
      · exact ⟨_,_,.refuse phase sum (by omega)⟩
  | checked operation budget bytes current limit => exact ⟨_,_,.retry phase⟩
  | reserved target bytes additional =>
    rw [phase] at sound
    obtain ⟨permit,found,beside,_⟩ := sound
    cases adds : checkedAdd permit.bytes bytes with
    | none => exact ⟨_,_,.growOverflow phase found adds⟩
    | some sum => exact ⟨_,_,.grown phase found beside adds⟩
  | releasing operation dropped outcome =>
    rw [phase] at sound
    obtain ⟨_,_,permit,found,_⟩ := sound
    exact ⟨_,_,.release phase found⟩

/-- In every reachable state the counter is the total of the live permits, a drop is
covered by it, an exchange respects the limit it checked and a failed operation has
changed counter and total by what it gives back only. -/
theorem budget_safety {limits : Nat → Nat} {state : State} {effects : Nat → Nat → Effect}
    (reachable : Reachable limits state effects) :
    (∀ budget, (state.budgets budget).used = state.total budget) ∧
    (∀ thread operation dropped outcome, state.threads thread = .releasing operation dropped outcome →
      ∃ permit, find dropped state.permits = some permit ∧ permit.bytes ≤ (state.budgets permit.budget).used) ∧
    (∀ thread budget limit next, Step state thread (.exchanges budget limit) next → (next.budgets budget).used ≤ limit) ∧
    ∀ thread operation fault next, Step state thread (.returns operation (.error fault)) next →
      ∀ budget, (observe effects state thread next thread budget).used = -operation.returned budget ∧
        (observe effects state thread next thread budget).total = -operation.returned budget := by
  have inv := reachable.inv
  refine ⟨inv.used,?_,?_,?_⟩
  · intro thread operation dropped outcome phase
    have sound := inv.sound thread
    rw [phase] at sound
    obtain ⟨_,_,permit,found,_⟩ := sound
    exact ⟨permit,found,inv.covered found⟩
  · intro thread budget limit next step
    cases step with
    | exchange fresh phase same unknown =>
      have sound := inv.sound thread
      rw [phase] at sound
      simp only [State.setUsed,State.setPermits,State.enter,Function.update_self]
      exact sound.2.2.2
  · intro thread operation fault next step budget
    have used_left := step.failed inv budget
    have total_left := (step.inv inv).agree thread budget
    omega

/-- One thread holds five of eight bytes while another is refused four. -/
theorem budget_safety_refused : ∃ state effects next,
    Reachable (fun _ => 8) state effects ∧ (state.budgets 0).used = 5 ∧ state.total 0 = 5 ∧
      Step state 1 (.returns (.reserve 0 4) (.error .busy)) next ∧
      (observe effects state 1 next 1 0).used = 0 ∧ (observe effects state 1 next 1 0).total = 0 := by
  have start : Reachable (fun _ => 8) _ _ := .initial
  have loaded := start.step (show Step _ 0 _ _ from .reserve 0 5 rfl)
  have checked := loaded.step (show Step _ 0 _ _ from .check rfl rfl (by decide))
  have exchanged := checked.step (show Step _ 0 _ _ from .exchange 0 rfl rfl rfl)
  have second := exchanged.step (show Step _ 1 _ _ from .reserve 0 4 rfl)
  have safe := budget_safety second
  have sum : checkedAdd 5 4 = some 9 := rfl
  refine ⟨_,_,_,second,rfl,(safe.1 0).symm.trans rfl,.refuse rfl sum (by decide),?_⟩
  exact safe.2.2.2 1 _ _ _ (.refuse rfl sum (by decide)) 0

end Polyguard.Proxy.Memory
