import Polyguard.Proxy.Faults
import Polyguard.Collections.Ledger
import Mathlib.Data.Int.Basic
import Mathlib.Logic.Function.Basic

/-! The budget for body memory and its permits.
Threads interleave at the atomic accesses of the budgets: the load, the check of the
limit and the compare-exchange of a reservation, the subtraction of a drop and the
store of a new limit. A permit that an operation has borrowed or taken over is used by
no other thread. A reservation in flight is a permit from its exchange on. -/
namespace Polyguard.Proxy.Memory

/-- One more than the largest value of a machine word. -/
def usizeModulus : Nat := u64Max + 1

def wrappingSub (left right : Nat) : Nat := (left + usizeModulus - right) % usizeModulus

structure Permit where
  budget : Nat
  bytes : Nat
deriving DecidableEq, Repr

structure Budget where
  used : Nat
  limit : Nat

/-- A permit passed to `absorb` is taken over with the value it had at the call. -/
inductive Operation where
  | reserve (budget bytes : Nat)
  | grow (target bytes : Nat)
  | absorb (target other : Nat) (permit : Permit)
  | drop (permit : Nat)
deriving DecidableEq, Repr

inductive Phase where
  | idle
  | loaded (operation : Operation) (budget bytes current : Nat)
  | checked (operation : Operation) (budget bytes current limit : Nat)
  | reserved (target bytes additional : Nat)
  | releasing (operation : Operation) (permit : Nat) (outcome : Outcome Unit)

structure State where
  budgets : Nat → Budget
  permits : List (Nat × Permit)
  threads : Nat → Phase

inductive Event where
  | proceeds
  | exchanges (budget limit : Nat)
  | returns (operation : Operation) (outcome : Outcome Unit)

/-- The permits that an operation holds a mutable borrow of. -/
def Operation.borrowed : Operation → List Nat
  | .reserve _ _ => []
  | .grow target _ => [target]
  | .absorb target _ _ => [target]
  | .drop _ => []

def Phase.held : Phase → List Nat
  | .idle => []
  | .loaded operation _ _ _ => operation.borrowed
  | .checked operation _ _ _ _ => operation.borrowed
  | .reserved target _ additional => [target,additional]
  | .releasing operation permit _ => permit :: operation.borrowed

namespace State

def free (state : State) (permit : Nat) : Prop := ∀ thread, permit ∉ (state.threads thread).held

def enter (state : State) (thread : Nat) (phase : Phase) : State :=
  { state with threads := Function.update state.threads thread phase }

def setUsed (state : State) (budget used : Nat) : State :=
  { state with budgets := Function.update state.budgets budget { state.budgets budget with used } }

def setLimit (state : State) (budget limit : Nat) : State :=
  { state with budgets := Function.update state.budgets budget { state.budgets budget with limit } }

def setPermits (state : State) (permits : List (Nat × Permit)) : State := { state with permits }

end State

/-- What follows the exchange: a grow adds the new permit, a reserve has returned it. -/
def Operation.exchanged : Operation → Nat → Phase
  | .grow target bytes,additional => .reserved target bytes additional
  | _,_ => .idle

open Ledger

inductive Step (state : State) (thread : Nat) : Event → State → Prop where
  | reserve (budget bytes : Nat) (idle : state.threads thread = .idle) :
      Step state thread .proceeds
        (state.enter thread (.loaded (.reserve budget bytes) budget bytes (state.budgets budget).used))
  | grow (target bytes : Nat) (permit : Permit) (idle : state.threads thread = .idle)
      (found : find target state.permits = some permit) (free : state.free target) :
      Step state thread .proceeds
        (state.enter thread (.loaded (.grow target bytes) permit.budget bytes (state.budgets permit.budget).used))
  | overflow {operation : Operation} {budget bytes current : Nat}
      (phase : state.threads thread = .loaded operation budget bytes current)
      (sum : checkedAdd current bytes = none) :
      Step state thread (.returns operation (.error .busy)) (state.enter thread .idle)
  | refuse {operation : Operation} {budget bytes current next : Nat}
      (phase : state.threads thread = .loaded operation budget bytes current)
      (sum : checkedAdd current bytes = some next) (exceeds : (state.budgets budget).limit < next) :
      Step state thread (.returns operation (.error .busy)) (state.enter thread .idle)
  | check {operation : Operation} {budget bytes current next : Nat}
      (phase : state.threads thread = .loaded operation budget bytes current)
      (sum : checkedAdd current bytes = some next) (within : next ≤ (state.budgets budget).limit) :
      Step state thread .proceeds
        (state.enter thread (.checked operation budget bytes current (state.budgets budget).limit))
  -- A weak compare-exchange may fail on an equal value too.
  | retry {operation : Operation} {budget bytes current limit : Nat}
      (phase : state.threads thread = .checked operation budget bytes current limit) :
      Step state thread .proceeds
        (state.enter thread (.loaded operation budget bytes (state.budgets budget).used))
  | exchange {operation : Operation} {budget bytes current limit : Nat} (fresh : Nat)
      (phase : state.threads thread = .checked operation budget bytes current limit)
      (same : (state.budgets budget).used = current) (unknown : find fresh state.permits = none) :
      Step state thread (.exchanges budget limit)
        (((state.setUsed budget (current + bytes)).setPermits ((fresh,⟨budget,bytes⟩) :: state.permits)).enter thread
          (operation.exchanged fresh))
  | grown {target bytes additional sum : Nat} {permit added : Permit}
      (phase : state.threads thread = .reserved target bytes additional)
      (found : find target state.permits = some permit) (beside : find additional state.permits = some added)
      (adds : checkedAdd permit.bytes bytes = some sum) :
      Step state thread .proceeds
        ((state.setPermits (replace additional { added with bytes := 0 }
          (replace target { permit with bytes := sum } state.permits))).enter thread
            (.releasing (.grow target bytes) additional (.ok ())))
  | growOverflow {target bytes additional : Nat} {permit : Permit}
      (phase : state.threads thread = .reserved target bytes additional)
      (found : find target state.permits = some permit) (adds : checkedAdd permit.bytes bytes = none) :
      Step state thread .proceeds (state.enter thread (.releasing (.grow target bytes) additional (.error .busy)))
  | absorb {target other sum : Nat} {permit taken : Permit} (idle : state.threads thread = .idle)
      (found : find target state.permits = some permit) (beside : find other state.permits = some taken)
      (free : state.free target) (free' : state.free other) (differs : other ≠ target)
      (same : permit.budget = taken.budget) (adds : checkedAdd permit.bytes taken.bytes = some sum) :
      Step state thread .proceeds
        ((state.setPermits (replace other { taken with bytes := 0 }
          (replace target { permit with bytes := sum } state.permits))).enter thread
            (.releasing (.absorb target other taken) other (.ok ())))
  | absorbForeign {target other : Nat} {permit taken : Permit} (idle : state.threads thread = .idle)
      (found : find target state.permits = some permit) (beside : find other state.permits = some taken)
      (free : state.free target) (free' : state.free other) (differs : other ≠ target)
      (foreign : permit.budget ≠ taken.budget) :
      Step state thread .proceeds
        (state.enter thread (.releasing (.absorb target other taken) other (.error .internal)))
  | absorbOverflow {target other : Nat} {permit taken : Permit} (idle : state.threads thread = .idle)
      (found : find target state.permits = some permit) (beside : find other state.permits = some taken)
      (free : state.free target) (free' : state.free other) (differs : other ≠ target)
      (same : permit.budget = taken.budget) (adds : checkedAdd permit.bytes taken.bytes = none) :
      Step state thread .proceeds
        (state.enter thread (.releasing (.absorb target other taken) other (.error .busy)))
  | drop {dropped : Nat} {permit : Permit} (idle : state.threads thread = .idle)
      (found : find dropped state.permits = some permit) (free : state.free dropped) :
      Step state thread .proceeds (state.enter thread (.releasing (.drop dropped) dropped (.ok ())))
  | release {operation : Operation} {dropped : Nat} {permit : Permit} {outcome : Outcome Unit}
      (phase : state.threads thread = .releasing operation dropped outcome)
      (found : find dropped state.permits = some permit) :
      Step state thread (.returns operation outcome)
        (((state.setUsed permit.budget (wrappingSub (state.budgets permit.budget).used permit.bytes)).setPermits
          (close dropped state.permits)).enter thread .idle)
  | store (budget limit : Nat) (idle : state.threads thread = .idle) :
      Step state thread .proceeds (state.setLimit budget limit)

/-- The bytes of a permit that count against a budget. -/
def charge (budget : Nat) (permit : Permit) : Nat := if permit.budget = budget then permit.bytes else 0

def State.total (state : State) (budget : Nat) : Nat := Ledger.total (charge budget) state.permits

/-- What the operation under way has changed of a budget's counter and of its permits' total. -/
structure Effect where
  used : Int
  total : Int

/-- The effects after a step: an operation that starts begins at nothing. -/
def observe (effects : Nat → Nat → Effect) (state : State) (thread : Nat) (next : State) : Nat → Nat → Effect :=
  let held : Nat → Effect := match state.threads thread with
    | .idle => fun _ => ⟨0,0⟩
    | _ => effects thread
  Function.update effects thread fun budget =>
    ⟨(held budget).used + ((next.budgets budget).used - (state.budgets budget).used),
      (held budget).total + (next.total budget - state.total budget)⟩

def initial (limits : Nat → Nat) : State := ⟨fun budget => ⟨0,limits budget⟩,[],fun _ => .idle⟩

inductive Reachable (limits : Nat → Nat) : State → (Nat → Nat → Effect) → Prop where
  | initial : Reachable limits (initial limits) fun _ _ => ⟨0,0⟩
  | step {state next : State} {effects : Nat → Nat → Effect} {thread : Nat} {event : Event} :
      Reachable limits state effects → Step state thread event next →
        Reachable limits next (observe effects state thread next)

/-- What an operation gives back when it fails: `absorb` has taken over the other permit. -/
def Operation.returned : Operation → Nat → Nat
  | .absorb _ _ permit,budget => charge budget permit
  | _,_ => 0

end Polyguard.Proxy.Memory
