import Polyguard.Polyform.Messages

/-! Runs of the composition client.
Over any run of registrations, refreshes and ends, whatever the service replies and
whichever writes fail, what a user of the state file knows never goes back. Where the file
has one user at a time, the file does not go back either and its quarantine is exact; two
clients on one file can put it back. -/
namespace Polyguard.Polyform
open Std Fallible

section Operations
variable {crypto : Cryptography}

/-- What a registration and a refresh have in common: the new state, when it is verified and written. -/
def World.accept (crypto : Cryptography) (trust : ReleaseTrust) (inventory : ImplementationInventory)
    (prior : Option PersistedState) (world : World) : RuntimeResult PersistedState := do
  let nonce ← newNonce world
  let assignment ← world.reply
  let state ← verifyAssignment crypto assignment nonce trust inventory prior
  world.writes
  return state

/-- An acceptance on the file: the file changes with a new state only. -/
def filed {α : Type} (take : PersistedState → α) (file : Option PersistedState) :
    RuntimeResult PersistedState → EStateM.Result RuntimeError (Option PersistedState) α
  | .ok state => .ok (take state) (some state)
  | .error error => .error error file

theorem complete_run (trust : ReleaseTrust) (inventory : ImplementationInventory) (prior : Option PersistedState) (world : World)
    (file : Option PersistedState) : Client.complete crypto trust inventory prior world file =
      filed (Client.fromVerified trust inventory) file (world.accept crypto trust inventory prior) := by
  rcases world with ⟨reads,random,reply,writes⟩
  unfold World.accept Client.complete newNonce persistState
  cases random with
  | error error => rfl
  | ok bytes =>
    cases reply with
    | error error => rfl
    | ok assignment =>
      simp only [bind,EStateM.bind,Except.bind,MonadExcept.ofExcept,pure,EStateM.pure,Except.map]
      cases verifyAssignment crypto assignment (hexEncode bytes) trust inventory prior with
      | error error => rfl
      | ok state => cases writes <;> rfl

theorem refresh_run (client : Client) (world : World) (file : Option PersistedState) :
    client.refresh crypto world file =
      filed (fun next => (.fromVerified client.trust client.inventory next,
        next.revision != client.revision || next.listVersion != client.listVersion)) file
        (world.accept crypto client.trust client.inventory (some client.state)) := by
  rcases world with ⟨reads,random,reply,writes⟩
  unfold World.accept Client.refresh newNonce persistState
  cases random with
  | error error => rfl
  | ok bytes =>
    cases reply with
    | error error => rfl
    | ok assignment =>
      simp only [bind,EStateM.bind,Except.bind,MonadExcept.ofExcept,pure,EStateM.pure,Except.map]
      cases verifyAssignment crypto assignment (hexEncode bytes) client.trust client.inventory (some client.state) with
      | error error => rfl
      | ok state => cases writes <;> rfl

theorem accept_ok {trust : ReleaseTrust} {inventory : ImplementationInventory} {prior : Option PersistedState} {world : World}
    {state : PersistedState} (accepted : world.accept crypto trust inventory prior = .ok state) :
    ∃ assignment nonce, newNonce world = .ok nonce ∧
      verifyAssignment crypto assignment nonce trust inventory prior = .ok state := by
  simp only [World.accept,bind_iff] at accepted
  obtain ⟨nonce,drawn,assignment,-,_,verified,_,-,same⟩ := accepted
  cases same
  exact ⟨assignment,nonce,drawn,verified⟩

end Operations

section Steps
variable {crypto : Cryptography}

/-- A client that was made from a verified state holds that state. -/
structure Client.Holds (client : Client) : Prop where
  made : client = .fromVerified client.trust client.inventory client.state
  fits : Fits client.inventory client.state.implementations client.state.statuses

/-- The state that a user knows to be accepted. -/
def User.knows : User → Option PersistedState
  | .registering _ _ prior => prior
  | .serving client => some client.state
  | .ended => none

/-- The trust, the binary and the last state that a user verifies the next assignment against. -/
inductive Verifies : User → ReleaseTrust → ImplementationInventory → Option PersistedState → Prop
  | registering (trust : ReleaseTrust) (inventory : ImplementationInventory) (prior : Option PersistedState) :
      Verifies (.registering trust inventory prior) trust inventory prior
  | serving (client : Client) : Verifies (.serving client) client.trust client.inventory (some client.state)

/-- The nonce that an event sends. -/
def Event.Draws (nonce : String) : Event → Prop
  | .complete _ world => newNonce world = .ok nonce
  | .refresh _ world => newNonce world = .ok nonce
  | _ => False

/-- What a step can do to an installation. -/
inductive Effect (crypto : Cryptography) (here : Installation) (event : Event) : Installation → Prop
  | idle : Effect crypto here event here
  | loaded {trust : ReleaseTrust} {inventory : ImplementationInventory} {world : World}
      (which : event = .load trust inventory world) :
      Effect crypto here event ⟨here.file,here.users ++ [.registering trust inventory here.file]⟩
  | accepted {user : Nat} {holder : User} {trust : ReleaseTrust} {inventory : ImplementationInventory}
      {prior : Option PersistedState} {assignment : Assignment} {nonce : String} {state : PersistedState}
      (found : here.users[user]? = some holder) (verifies : Verifies holder trust inventory prior) (draws : event.Draws nonce)
      (verified : verifyAssignment crypto assignment nonce trust inventory prior = .ok state) :
      Effect crypto here event ⟨some state,here.users.set user (.serving (.fromVerified trust inventory state))⟩
  | ended (user : Nat) : Effect crypto here event ⟨here.file,here.users.set user .ended⟩
  | rewritten {content : Option PersistedState} (which : event = .rewrite content) : Effect crypto here event ⟨content,here.users⟩

theorem step_effect (here : Installation) (event : Event) : Effect crypto here event (here.step crypto event) := by
  cases event with
  | load trust inventory world =>
    rcases world with ⟨reads,random,reply,writes⟩
    cases reads with
    | error error => exact .idle
    | ok _ => exact .loaded rfl
  | complete user world =>
    rw [Installation.step]
    cases found : here.users[user]? with
    | none => exact .idle
    | some holder =>
      cases holder with
      | registering trust inventory prior =>
        simp only [complete_run]
        cases accepted : world.accept crypto trust inventory prior with
        | error error => exact .ended user
        | ok state =>
          obtain ⟨assignment,nonce,drawn,verified⟩ := accept_ok accepted
          exact .accepted found (.registering trust inventory prior) drawn verified
      | serving client => exact .idle
      | ended => exact .idle
  | refresh user world =>
    rw [Installation.step]
    cases found : here.users[user]? with
    | none => exact .idle
    | some holder =>
      cases holder with
      | registering trust inventory prior => exact .idle
      | serving client =>
        simp only [refresh_run]
        cases accepted : world.accept crypto client.trust client.inventory (some client.state) with
        | error error => exact .idle
        | ok state =>
          obtain ⟨assignment,nonce,drawn,verified⟩ := accept_ok accepted
          exact .accepted found (.serving client) drawn verified
      | ended => exact .idle
  | stop user => exact .ended user
  | rewrite content => exact .rewritten rfl

/-- Where nothing comes between its two steps, a registration is the one of the source. -/
theorem register_steps (here : Installation) {trust : ReleaseTrust} {inventory : ImplementationInventory} {world : World}
    {client : Client} {file : Option PersistedState}
    (registered : Client.register crypto trust inventory world here.file = .ok client file) :
    (here.step crypto (.load trust inventory world)).step crypto (.complete here.users.length world) =
      ⟨file,here.users ++ [.serving client]⟩ := by
  rcases world with ⟨reads,random,reply,writes⟩
  cases reads with
  | error error => cases registered
  | ok _ =>
    have loaded : here.step crypto (.load trust inventory ⟨.ok (),random,reply,writes⟩) =
        ⟨here.file,here.users ++ [.registering trust inventory here.file]⟩ := rfl
    rw [loaded,Installation.step,List.getElem?_concat_length]
    change Client.complete crypto trust inventory here.file ⟨.ok (),random,reply,writes⟩ here.file = _ at registered
    simp only [registered]
    rw [List.set_append_right _ _ (Nat.le_refl _),Nat.sub_self]
    rfl

theorem Verifies.knows {holder : User} {trust : ReleaseTrust} {inventory : ImplementationInventory} {prior : Option PersistedState}
    (verifies : Verifies holder trust inventory prior) : holder.knows = prior ∧ holder ≠ .ended := by
  cases verifies with
  | registering => exact ⟨rfl,nofun⟩
  | serving => exact ⟨rfl,nofun⟩

theorem mem_clients {here : Installation} {client : Client} : client ∈ here.clients ↔ .serving client ∈ here.users := by
  rw [Installation.clients,List.mem_filterMap]
  constructor
  · rintro ⟨user,member,same⟩
    cases user with
    | registering => cases same
    | serving holder =>
      cases same
      exact member
    | ended => cases same
  · intro member
    exact ⟨_,member,rfl⟩

theorem verified_holds {trust : ReleaseTrust} {inventory : ImplementationInventory} {prior : Option PersistedState}
    {assignment : Assignment} {nonce : String} {state : PersistedState}
    (verified : verifyAssignment crypto assignment nonce trust inventory prior = .ok state) :
    (Client.fromVerified trust inventory state).Holds ∧ ∀ previous ∈ prior, Succeeds previous state := by
  obtain ⟨-,checked,follows,-,rfl⟩ := verifyAssignment_iff.mp verified
  exact ⟨⟨rfl,checkInventory_ok checked⟩,fun previous known => checkRollback_ok (follows previous known)⟩

theorem effect_holds {here next : Installation} {event : Event} (effect : Effect crypto here event next)
    (holds : ∀ client ∈ here.clients, client.Holds) : ∀ client ∈ next.clients, client.Holds := by
  intro client member
  rw [mem_clients] at member
  have before (inside : .serving client ∈ here.users) : client.Holds := holds client (mem_clients.mpr inside)
  cases effect with
  | idle => exact before member
  | loaded which =>
    rcases List.mem_append.mp member with inside | added
    · exact before inside
    · cases List.mem_singleton.mp added
  | accepted found verifies draws verified =>
    rcases List.mem_or_eq_of_mem_set member with inside | same
    · exact before inside
    · cases same
      exact (verified_holds verified).1
  | ended user =>
    rcases List.mem_or_eq_of_mem_set member with inside | same
    · exact before inside
    · cases same
  | rewritten which => exact before member

/-- A user stays, ends, or accepts a state that succeeds the one it knows. -/
inductive Advances : User → User → Prop
  | same (user : User) : Advances user user
  | ended (user : User) : Advances user .ended
  | accepted {user : User} {client : Client} (live : user ≠ .ended) (succeeds : ∀ state ∈ user.knows, Succeeds state client.state) :
      Advances user (.serving client)

theorem Advances.trans {first second third : User} (early : Advances first second) (late : Advances second third) :
    Advances first third := by
  cases late with
  | same => exact early
  | ended => exact .ended first
  | accepted live succeeds =>
    cases early with
    | same => exact .accepted live succeeds
    | ended => exact absurd rfl live
    | accepted began before => exact .accepted began fun state known => (before state known).trans (succeeds _ rfl)

theorem Advances.succeeds {before after : User} (advances : Advances before after) :
    ∀ state ∈ before.knows, ∀ current ∈ after.knows, Succeeds state current := by
  intro state known current held
  cases advances with
  | same =>
    rw [Option.mem_unique known held]
    exact .refl current
  | ended => cases held
  | accepted live succeeds =>
    cases held
    exact succeeds state known

theorem effect_advances {here next : Installation} {event : Event} (effect : Effect crypto here event next) {index : Nat}
    {before : User} (found : here.users[index]? = some before) : ∃ after, next.users[index]? = some after ∧ Advances before after := by
  have inside := (List.getElem?_eq_some_iff.mp found).1
  have set {user : Nat} {value : User} (advances : user = index → Advances before value) :
      ∃ after, (here.users.set user value)[index]? = some after ∧ Advances before after := by
    by_cases same : user = index
    · subst same
      exact ⟨value,List.getElem?_set_self inside,advances rfl⟩
    · exact ⟨before,(List.getElem?_set_ne same).trans found,.same before⟩
  cases effect with
  | idle => exact ⟨before,found,.same before⟩
  | loaded which => exact ⟨before,(List.getElem?_append_left inside).trans found,.same before⟩
  | accepted held verifies draws verified =>
    refine set fun same => ?_
    subst same
    cases Option.some.inj (held.symm.trans found)
    obtain ⟨knows,live⟩ := verifies.knows
    refine .accepted live ?_
    rw [knows]
    exact (verified_holds verified).2
  | ended user => exact set fun _ => .ended before
  | rewritten which => exact ⟨before,found,.same before⟩

end Steps

section Alone
variable {crypto : Cryptography}

/-- A state that may follow another one in a step: nothing went back, and no entry of the quarantine was lost, except by a
newer list that names it active. -/
structure Later (earlier later : PersistedState) : Prop extends Succeeds earlier later where
  kept : ∀ implementation ∈ earlier.quarantined, implementation ∈ later.quarantined ∨
    earlier.listVersion < later.listVersion ∧ later.statuses[implementation]? = some "active"

theorem Later.refl (state : PersistedState) : Later state state := ⟨.refl state,fun _ => .inl⟩

/-- The invariant of a file with one user: the user knows what the file has, and the file has an exact quarantine and an
active composition. -/
structure Installation.Solitary (here : Installation) : Prop where
  single : ∀ (left right : Nat) (user other : User), here.users[left]? = some user → here.users[right]? = some other →
    user ≠ .ended → other ≠ .ended → left = right
  knows : ∀ user ∈ here.users, user ≠ .ended → user.knows = here.file
  floored : ∀ state ∈ here.file, state.Floored
  active : ∀ state ∈ here.file, ∀ function implementation : String, state.implementations[function]? = some implementation →
    state.statuses[implementation]? = some "active"

theorem fresh_solitary : fresh.Solitary := by
  constructor
  · intro left right user other found
    cases found
  · intro user member
    cases member
  · rintro state ⟨⟩
  · rintro state ⟨⟩

theorem Installation.Solitary.others {here : Installation} (solitary : here.Solitary) {user : Nat} {holder : User}
    (found : here.users[user]? = some holder) (live : holder ≠ .ended) {index : Nat} {other : User}
    (placed : here.users[index]? = some other) (apart : index ≠ user) : other = .ended := by
  by_contra running
  exact apart (solitary.single index user other holder placed found running live)

theorem accepted_solitary {here : Installation} (solitary : here.Solitary) {user : Nat} {holder : User} {trust : ReleaseTrust}
    {inventory : ImplementationInventory} {prior : Option PersistedState} {assignment : Assignment} {nonce : String}
    {state : PersistedState} (found : here.users[user]? = some holder) (verifies : Verifies holder trust inventory prior)
    (verified : verifyAssignment crypto assignment nonce trust inventory prior = .ok state) :
    (Installation.mk (some state) (here.users.set user (.serving (.fromVerified trust inventory state)))).Solitary ∧
      ∀ previous ∈ here.file, Later previous state := by
  obtain ⟨knows,live⟩ := verifies.knows
  have same : prior = here.file := knows.symm.trans (solitary.knows holder (List.mem_of_getElem? found) live)
  obtain ⟨-,checked,follows,-,rfl⟩ := verifyAssignment_iff.mp verified
  have fits := checkInventory_ok checked
  -- a running user of the next installation stands at the place of the one that accepted
  have only {index : Nat} {other : User} (placed : (here.users.set user (.serving (.fromVerified trust inventory
      (acceptedState crypto assignment prior))))[index]? = some other) (running : other ≠ .ended) : index = user := by
    by_contra apart
    rw [List.getElem?_set_ne (Ne.symm apart)] at placed
    exact running (solitary.others found live placed apart)
  refine ⟨⟨?_,?_,?_,?_⟩,?_⟩
  · intro left right first second leftPlaced rightPlaced leftLive rightLive
    rw [only leftPlaced leftLive,only rightPlaced rightLive]
  · intro other member running
    obtain ⟨index,placed⟩ := List.mem_iff_getElem?.mp member
    have here' := only placed running
    subst here'
    rw [List.getElem?_set_self (List.getElem?_eq_some_iff.mp found).1] at placed
    cases placed
    rfl
  · rintro next ⟨⟩
    exact acceptedState_floored crypto fits (same ▸ solitary.floored) follows
  · rintro next ⟨⟩
    exact fits.active
  · intro previous held
    rw [← same] at held
    cases held
    refine ⟨checkRollback_ok (follows previous rfl),?_⟩
    intro implementation inside
    exact quarantineFloor_keeps fits.known inside

theorem effect_solitary {here next : Installation} {event : Event} (solitary : here.Solitary) (alone : here.Alone event)
    (effect : Effect crypto here event next) : next.Solitary ∧ ∀ state ∈ here.file, ∃ later ∈ next.file, Later state later := by
  have stays : ∀ state ∈ here.file, ∃ later ∈ here.file, Later state later := fun state held => ⟨state,held,.refl state⟩
  cases effect with
  | idle => exact ⟨solitary,stays⟩
  | @loaded trust inventory world which =>
    subst which
    have placed {index : Nat} {user : User}
        (found : (here.users ++ [.registering trust inventory here.file])[index]? = some user) (live : user ≠ .ended) :
        index = here.users.length ∧ user = .registering trust inventory here.file := by
      rcases Nat.lt_or_ge index here.users.length with early | late
      · rw [List.getElem?_append_left early] at found
        exact absurd (alone user (List.mem_of_getElem? found)) live
      · have short := (List.getElem?_eq_some_iff.mp found).1
        rw [List.length_append,List.length_singleton] at short
        have last : index = here.users.length := by omega
        subst last
        rw [List.getElem?_concat_length] at found
        exact ⟨rfl,(Option.some.inj found).symm⟩
    refine ⟨⟨?_,?_,solitary.floored,solitary.active⟩,stays⟩
    · intro left right user other leftFound rightFound leftLive rightLive
      rw [(placed leftFound leftLive).1,(placed rightFound rightLive).1]
    · intro user member live
      obtain ⟨index,found⟩ := List.mem_iff_getElem?.mp member
      rw [(placed found live).2]
      rfl
  | accepted found verifies draws verified =>
    obtain ⟨sound,later⟩ := accepted_solitary solitary found verifies verified
    exact ⟨sound,fun state held => ⟨_,rfl,later state held⟩⟩
  | ended user =>
    have still {index : Nat} {other : User} (found : (here.users.set user .ended)[index]? = some other) (live : other ≠ .ended) :
        here.users[index]? = some other := by
      by_cases same : user = index
      · subst same
        have inside := (List.getElem?_eq_some_iff.mp found).1
        rw [List.getElem?_set_self (by rwa [List.length_set] at inside)] at found
        exact absurd (Option.some.inj found).symm live
      · rw [List.getElem?_set_ne same] at found
        exact found
    refine ⟨⟨?_,?_,solitary.floored,solitary.active⟩,stays⟩
    · intro left right first second leftFound rightFound leftLive rightLive
      exact solitary.single left right first second (still leftFound leftLive) (still rightFound rightLive) leftLive rightLive
    · intro other member live
      obtain ⟨index,found⟩ := List.mem_iff_getElem?.mp member
      exact solitary.knows other (List.mem_of_getElem? (still found live)) live
  | rewritten which =>
    subst which
    cases alone

end Alone

section Runs
variable {crypto : Cryptography} {allowed : Installation → Event → Prop}

theorem run_holds {here : Installation} (run : Run crypto allowed fresh here) : ∀ client ∈ here.clients, client.Holds := by
  induction run with
  | refl =>
    intro client member
    cases member
  | tail _ step ih =>
    obtain ⟨event,-,rfl⟩ := step
    exact effect_holds (step_effect _ event) ih

theorem run_advances {here next : Installation} (run : Run crypto allowed here next) {index : Nat} {before : User}
    (found : here.users[index]? = some before) : ∃ after, next.users[index]? = some after ∧ Advances before after := by
  induction run with
  | refl => exact ⟨before,found,.same before⟩
  | tail _ step ih =>
    obtain ⟨event,-,rfl⟩ := step
    obtain ⟨middle,reached,early⟩ := ih
    obtain ⟨after,placed,late⟩ := effect_advances (step_effect _ event) reached
    exact ⟨after,placed,early.trans late⟩

/-- No entry of a state is out of the quarantine of a later one, unless a state of the run between them has a newer list
that names it active. -/
def Kept (crypto : Cryptography) (allowed : Installation → Event → Prop) (here next : Installation) (state current : PersistedState) :
    Prop :=
  ∀ implementation ∈ state.quarantined, implementation ∈ current.quarantined ∨ ∃ between, Run crypto allowed here between ∧
    Run crypto allowed between next ∧ ∃ restored ∈ between.file, state.listVersion < restored.listVersion ∧
      restored.listVersion ≤ current.listVersion ∧ restored.statuses[implementation]? = some "active"

theorem run_solitary (alone : ∀ here event, allowed here event → here.Alone event) {here next : Installation}
    (solitary : here.Solitary) (run : Run crypto allowed here next) :
    next.Solitary ∧ ∀ state ∈ here.file, ∃ current ∈ next.file, Succeeds state current ∧ Kept crypto allowed here next state current := by
  induction run with
  | refl => exact ⟨solitary,fun state held => ⟨state,held,.refl state,fun _ => .inl⟩⟩
  | @tail middle next goes step ih =>
    obtain ⟨event,allows,rfl⟩ := step
    obtain ⟨reached,follows⟩ := ih
    obtain ⟨sound,further⟩ := effect_solitary reached (alone middle event allows) (step_effect middle event)
    have last : Run crypto allowed middle (middle.step crypto event) := .single ⟨event,allows,rfl⟩
    refine ⟨sound,fun state held => ?_⟩
    obtain ⟨current,between,first,kept⟩ := follows state held
    obtain ⟨later,behind,second⟩ := further current between
    refine ⟨later,behind,first.trans second.toSucceeds,fun implementation inside => ?_⟩
    rcases kept implementation inside with still | ⟨place,before,after,restored,holds,newer,older,named⟩
    · rcases second.kept implementation still with stays | ⟨newer,named⟩
      · exact .inl stays
      · exact .inr ⟨_,goes.trans last,.refl,later,behind,Nat.lt_of_le_of_lt first.listVersion newer,Nat.le_refl _,named⟩
    · exact .inr ⟨place,before,after.trans last,restored,holds,newer,Nat.le_trans older second.listVersion,named⟩

/-- Over any run, whoever else writes the file, what a user knows never goes back, and a client holds a composition that was
verified for its binary. Where the file has one user, the file never goes back, and the client holds what the file has. -/
theorem composition_never_rolls_back {earlier later : Installation} (reached : Run crypto allowed fresh earlier)
    (goes : Run crypto allowed earlier later) :
    (∀ (index : Nat) (before after : User), earlier.users[index]? = some before → later.users[index]? = some after →
      ∀ state ∈ before.knows, ∀ current ∈ after.knows, Succeeds state current) ∧
    (∀ client ∈ later.clients, client.composition = client.state.implementations ∧ client.revision = client.state.revision ∧
      client.listVersion = client.state.listVersion ∧ Fits client.inventory client.composition client.state.statuses) ∧
    ((∀ here event, allowed here event → here.Alone event) →
      (∀ state ∈ earlier.file, ∃ current ∈ later.file, Succeeds state current) ∧
      ∀ client ∈ later.clients, later.file = some client.state) := by
  refine ⟨?_,?_,fun alone => ⟨?_,?_⟩⟩
  · intro index before after found placed
    obtain ⟨last,there,advances⟩ := run_advances goes found
    cases Option.some.inj (there.symm.trans placed)
    exact advances.succeeds
  · intro client member
    obtain ⟨made,fits⟩ := run_holds (reached.trans goes) client member
    rw [made]
    exact ⟨rfl,rfl,rfl,fits⟩
  · intro state held
    obtain ⟨solitary,-⟩ := run_solitary alone fresh_solitary reached
    obtain ⟨current,behind,succeeds,-⟩ := (run_solitary alone solitary goes).2 state held
    exact ⟨current,behind,succeeds⟩
  · intro client member
    obtain ⟨solitary,-⟩ := run_solitary alone fresh_solitary (reached.trans goes)
    exact (solitary.knows _ (mem_clients.mp member) nofun).symm

section Sample

def sampleTrust : ReleaseTrust := ⟨1,"7","app","1.0","","root","key","seal"⟩

/-- A service whose composition key verifies the given messages, and whose release key the delegation. -/
def sampleCrypto (signed : List String) : Cryptography where
  decode text := .ok (if text = "root" then List.replicate 32 1 else List.replicate (if text = "key" then 32 else 64) 0)
  readKey _ := .ok ()
  verifies key message _ :=
    if key = List.replicate 32 1 then message == compositionDelegationMessage sampleTrust else signed.contains message
  digest := id

def sampleOffer (implementations statuses : List (String × String)) (version : Nat) : Assignment :=
  ⟨"client",.text "7",version,.ofList implementations,version,.ofList statuses,"ab","key","seal","sign"⟩

/-- A world in which every operation gets the offer. -/
def sampleWorld (offer : Assignment) : World := ⟨.ok (),.ok [0xab],.ok offer,.ok ()⟩

/-- The first composition, and a later one behind a list that quarantines its implementation. -/
def sampleFirst : Assignment := sampleOffer [("parse","one")] [("one","active"),("two","active")] 1

def sampleSecond : Assignment := sampleOffer [("parse","two")] [("one","quarantined"),("two","active")] 2

def sampleService : Cryptography := sampleCrypto ([sampleFirst,sampleSecond].map compositionAssignmentMessage)

def sampleInventory : ImplementationInventory := ExtTreeMap.ofList [("parse",ExtTreeSet.ofList ["one","two"])]

def sampleLoad : Event := .load sampleTrust sampleInventory (sampleWorld sampleFirst)

def sampleLoaded : Installation := fresh.step sampleService sampleLoad

def sampleRegistered : Installation := sampleLoaded.step sampleService (.complete 0 (sampleWorld sampleFirst))

def sampleRefreshed : Installation := sampleRegistered.step sampleService (.refresh 0 (sampleWorld sampleSecond))

theorem sampleRegistered_run : Run sampleService Installation.Alone fresh sampleRegistered :=
  (Relation.ReflTransGen.single ⟨sampleLoad,nofun,rfl⟩).tail ⟨.complete 0 (sampleWorld sampleFirst),trivial,rfl⟩

theorem sampleRefreshed_run : Run sampleService Installation.Alone sampleRegistered sampleRefreshed :=
  .single ⟨.refresh 0 (sampleWorld sampleSecond),trivial,rfl⟩

end Sample

/-- A refresh of the only user of the file. -/
theorem composition_never_rolls_back_sample : sampleRefreshed.file.map (·.revision) = some 2 ∧
    (∀ state ∈ sampleRegistered.file, ∃ current ∈ sampleRefreshed.file, Succeeds state current) ∧
    ∀ client ∈ sampleRefreshed.clients, sampleRefreshed.file = some client.state :=
  ⟨by decide +kernel,(composition_never_rolls_back sampleRegistered_run sampleRefreshed_run).2.2 fun _ _ => id⟩

/-- A second registration on the file of a client that serves, as where a reload changes the settings, and a refresh of the
first client behind it: the file goes back. -/
theorem two_clients_roll_back : ∃ earlier later, Run sampleService (fun _ _ => True) fresh earlier ∧
    Run sampleService (fun _ _ => True) earlier later ∧ earlier.file.map (·.revision) = some 2 ∧
      later.file.map (·.revision) = some 1 := by
  have step (here : Installation) (event : Event) : Run sampleService (fun _ _ => True) here (here.step sampleService event) :=
    .single ⟨event,trivial,rfl⟩
  have second := (step sampleRegistered sampleLoad).trans (step _ (.complete 1 (sampleWorld sampleSecond)))
  refine ⟨_,_,((step fresh sampleLoad).trans (step _ (.complete 0 (sampleWorld sampleFirst)))).trans second,
    step _ (.refresh 0 (sampleWorld sampleFirst)),?_,?_⟩
  · decide +kernel
  · decide +kernel

/-- Where the file has one user, its quarantine has of the listed implementations those that are not active, an implementation
comes back out of it only by a newer list of the run that names it active, and the next verification is decided by its first
three checks. -/
theorem quarantine_is_exact (alone : ∀ here event, allowed here event → here.Alone event) {earlier later : Installation}
    (reached : Run crypto allowed fresh earlier) (goes : Run crypto allowed earlier later) {state : PersistedState}
    (held : state ∈ later.file) :
    (∀ implementation status : String, state.statuses[implementation]? = some status →
      (implementation ∈ state.quarantined ↔ status ≠ "active")) ∧
    (∀ previous ∈ earlier.file, Kept crypto allowed earlier later previous state) ∧
    (∀ previous ∈ earlier.file, ∀ implementation ∈ previous.quarantined,
      ∀ function : String, state.implementations[function]? = some implementation →
        previous.listVersion < state.listVersion ∧ state.statuses[implementation]? = some "active") ∧
    ∀ (assignment : Assignment) (nonce : String) (trust : ReleaseTrust) (inventory : ImplementationInventory)
      (next : PersistedState), verifyAssignment crypto assignment nonce trust inventory (some state) = .ok next ↔
        authenticate crypto assignment nonce trust = .ok () ∧ checkInventory assignment inventory = .ok () ∧
        checkRollback assignment state = .ok () ∧ next = acceptedState crypto assignment (some state) := by
  obtain ⟨solitary,-⟩ := run_solitary alone fresh_solitary reached
  obtain ⟨sound,follows⟩ := run_solitary alone solitary goes
  have kept : ∀ previous ∈ earlier.file, Kept crypto allowed earlier later previous state := by
    intro previous before
    obtain ⟨current,found,-,kept⟩ := follows previous before
    rw [Option.mem_unique held found]
    exact kept
  refine ⟨sound.floored state held,kept,?_,?_⟩
  · intro previous before implementation inside function assigned
    have active := sound.active state held function implementation assigned
    refine ⟨?_,active⟩
    rcases kept previous before implementation inside with still | ⟨_,-,-,restored,-,newer,older,-⟩
    · exact absurd rfl ((sound.floored state held implementation "active" active).mp still)
    · exact Nat.lt_of_lt_of_le newer older
  · intro assignment nonce trust inventory next
    rw [verifyAssignment_accepts_iff]
    · simp only [Option.mem_some_iff,forall_eq']
    · rintro previous ⟨⟩
      exact sound.floored _ held

theorem quarantine_is_exact_sample : ∃ state ∈ sampleRefreshed.file, "one" ∈ state.quarantined := by
  have listed : (sampleRefreshed.file.any fun state => state.statuses["one"]? == some "quarantined") = true := by decide +kernel
  obtain ⟨state,held,status⟩ := (Option.any_eq_true _ _).mp listed
  refine ⟨state,held,?_⟩
  exact ((quarantine_is_exact (fun _ _ => id) sampleRegistered_run sampleRefreshed_run held).1 "one" "quarantined"
    (beq_iff_eq.mp status)).mpr (by decide)

end Runs

section Signatures
variable {crypto : Cryptography} (signed : String → Prop)

/-- The names of a binary as registries spell them: no line end and no equals sign. -/
def PlainBinary (inventory : ImplementationInventory) : Prop :=
  ∀ (function : String) (allowed : ExtTreeSet String), inventory[function]? = some allowed →
    Plain function ∧ '=' ∉ function.toList ∧ ∀ implementation ∈ allowed, Plain implementation ∧ '=' ∉ implementation.toList

theorem PlainBinary.of_list {inventory : ImplementationInventory} (plain : ∀ entry ∈ inventory.toList, Plain entry.1 ∧
    '=' ∉ entry.1.toList ∧ ∀ implementation ∈ entry.2.toList, Plain implementation ∧ '=' ∉ implementation.toList) :
    PlainBinary inventory := by
  intro function allowed known
  obtain ⟨name,free,all⟩ := plain _ (ExtTreeMap.mem_toList_iff_getElem?_eq_some.mpr known)
  exact ⟨name,free,fun implementation among => all implementation (ExtTreeSet.mem_toList.mpr among)⟩

theorem compiled_plain {inventory : ImplementationInventory} (binary : PlainBinary inventory) {implementation : String}
    (compiled : implementation ∈ compiledImplementations inventory) : Plain implementation ∧ '=' ∉ implementation.toList := by
  rw [compiledImplementations,ExtTreeSet.mem_ofList,List.contains_iff_mem,List.mem_flatMap] at compiled
  obtain ⟨⟨function,allowed⟩,entry,among⟩ := compiled
  have known := ExtTreeMap.mem_toList_iff_getElem?_eq_some.mp entry
  exact (binary function allowed known).2.2 implementation (ExtTreeSet.mem_toList.mp among)

theorem fits_plain {inventory : ImplementationInventory} (binary : PlainBinary inventory)
    {implementations statuses : ExtTreeMap String String} (fits : Fits inventory implementations statuses) :
    PlainEntries implementations ∧ PlainEntries statuses := by
  constructor
  · intro function implementation assigned
    have compiled := fits.compiled function implementation assigned
    rw [isCompiled,Option.any_eq_true] at compiled
    obtain ⟨allowed,known,among⟩ := compiled
    obtain ⟨name,free,implemented⟩ := binary function allowed known
    exact ⟨name,(implemented implementation (ExtTreeSet.contains_iff_mem.mp among)).1,free⟩
  · intro implementation status listed
    have member : implementation ∈ statuses := ExtTreeMap.mem_iff_isSome_getElem?.mpr (Option.isSome_of_eq_some listed)
    rw [← ExtTreeMap.mem_keys,fits.listed,ExtTreeSet.mem_toList] at member
    obtain ⟨name,free⟩ := compiled_plain binary member
    refine ⟨name,?_,free⟩
    have known := fits.known implementation status listed
    simp only [isKnownStatus,Bool.or_eq_true,beq_iff_eq] at known
    rcases known with (rfl | rfl) | rfl
    all_goals decide

theorem newNonce_plain {world : World} {nonce : String} (drawn : newNonce world = .ok nonce) : Plain nonce := by
  obtain ⟨bytes,-,rfl⟩ := map_iff.mp drawn
  intro inside
  rw [hexEncode,String.toList_ofList,List.mem_flatMap] at inside
  obtain ⟨byte,-,digit⟩ := inside
  have nibble : ∀ value < 16, '\n' ≠ Nat.digitChar value := by decide
  have small := byte.toNat_lt
  simp only [List.mem_cons,List.not_mem_nil,or_false] at digit
  rcases digit with high | low
  · exact nibble _ (by omega) high
  · exact nibble _ (by omega) low

/-- Nothing else writes the file, and under the composition key of every registration the service has signed what verifies. -/
def Guarded (crypto : Cryptography) (signed : String → Prop) (_ : Installation) : Event → Prop
  | .load trust _ _ => ∀ message, Signs crypto trust.compositionPublicKey message → signed message
  | .rewrite _ => False
  | _ => True

/-- The users trust what guarded registrations gave them. -/
def Installation.Guards (crypto : Cryptography) (signed : String → Prop) (here : Installation) : Prop :=
  ∀ user ∈ here.users, ∀ trust inventory prior, Verifies user trust inventory prior →
    ∀ message, Signs crypto trust.compositionPublicKey message → signed message

theorem effect_guards {here next : Installation} {event : Event} (guards : here.Guards crypto signed)
    (guarded : Guarded crypto signed here event) (effect : Effect crypto here event next) : next.Guards crypto signed := by
  intro user member trust inventory prior verifies
  cases effect with
  | idle => exact guards user member trust inventory prior verifies
  | loaded which =>
    subst which
    rcases List.mem_append.mp member with inside | added
    · exact guards user inside trust inventory prior verifies
    · cases List.mem_singleton.mp added
      cases verifies
      exact guarded
  | accepted found holder draws verified =>
    rcases List.mem_or_eq_of_mem_set member with inside | same
    · exact guards user inside trust inventory prior verifies
    · cases same
      cases verifies
      exact guards _ (List.mem_of_getElem? found) _ _ _ holder
  | ended index =>
    rcases List.mem_or_eq_of_mem_set member with inside | same
    · exact guards user inside trust inventory prior verifies
    · cases same
      cases verifies
  | rewritten which =>
    subst which
    cases guarded

theorem run_guards {here : Installation} (run : Run crypto (Guarded crypto signed) fresh here) : here.Guards crypto signed := by
  induction run with
  | refl =>
    intro user member
    cases member
  | tail _ step ih =>
    obtain ⟨event,guarded,rfl⟩ := step
    exact effect_guards signed ih guarded (step_effect _ event)

/-- The message of the assignment has one reading among those of plain names. -/
def ReadsOnce (trust : ReleaseTrust) (inventory : ImplementationInventory) (assignment : Assignment) : Prop :=
  Plain trust.releaseId → PlainBinary inventory → ∀ original, PlainBehind original → Plain original.clientId →
    compositionAssignmentMessage original = compositionAssignmentMessage assignment → SameContents assignment original

theorem verified_reads_once {assignment : Assignment} {nonce : String} {trust : ReleaseTrust} {inventory : ImplementationInventory}
    {prior : Option PersistedState} {state : PersistedState} (plain : Plain nonce)
    (verified : verifyAssignment crypto assignment nonce trust inventory prior = .ok state) :
    ReadsOnce trust inventory assignment := by
  obtain ⟨authentic,checked,-,-,-⟩ := verifyAssignment_iff.mp verified
  obtain ⟨release,answers,-,-⟩ := authenticate_ok authentic
  intro releasePlain binary original behind client message
  obtain ⟨implementations,statuses⟩ := fits_plain binary (checkInventory_ok checked)
  exact message_determines ⟨release ▸ releasePlain,answers ▸ plain,implementations,statuses⟩ behind client message.symm

/-- Whatever the replies are and however the steps of several users interleave, a step that changes the file accepted an
assignment whose message the service signed, for the nonce of this very step and behind the state that its user knew. -/
theorem changes_were_issued {here : Installation} (run : Run crypto (Guarded crypto signed) fresh here) (event : Event)
    (guarded : Guarded crypto signed here event) {state : PersistedState} (held : state ∈ (here.step crypto event).file) :
    here.file = some state ∨ ∃ user ∈ here.users, ∃ trust inventory prior assignment, Verifies user trust inventory prior ∧
      signed (compositionAssignmentMessage assignment) ∧ event.Draws assignment.nonce ∧
      state = acceptedState crypto assignment prior ∧ ReadsOnce trust inventory assignment := by
  have effect := @step_effect crypto here event
  generalize here.step crypto event = next at held effect
  cases effect with
  | idle => exact .inl held
  | loaded which => exact .inl held
  | @accepted user holder trust inventory prior assignment nonce accepted found verifies draws verified =>
    cases held
    obtain ⟨authentic,-,-,-,same⟩ := verifyAssignment_iff.mp verified
    obtain ⟨-,answers,-,genuine⟩ := authenticate_ok authentic
    have member := List.mem_of_getElem? found
    have plain : Plain nonce := by
      cases event with
      | complete user world => exact newNonce_plain draws
      | refresh user world => exact newNonce_plain draws
      | load trust inventory world => cases draws
      | stop user => cases draws
      | rewrite content => cases draws
    refine .inr ⟨holder,member,trust,inventory,prior,assignment,verifies,
      run_guards signed run holder member trust inventory prior verifies _ genuine,?_,same,verified_reads_once plain verified⟩
    rw [answers]
    exact draws
  | ended user => exact .inl held
  | rewritten which =>
    subst which
    cases guarded

theorem samples_plain : ∀ offer ∈ [sampleFirst,sampleSecond], PlainBehind offer ∧ Plain offer.clientId := by
  intro offer listed
  simp only [List.mem_cons,List.not_mem_nil,or_false] at listed
  rcases listed with rfl | rfl
  · exact ⟨⟨by decide +kernel,by decide +kernel,.of_list (by decide +kernel),.of_list (by decide +kernel)⟩,by decide +kernel⟩
  · exact ⟨⟨by decide +kernel,by decide +kernel,.of_list (by decide +kernel),.of_list (by decide +kernel)⟩,by decide +kernel⟩

theorem sampleInventory_plain : PlainBinary sampleInventory := .of_list (by decide +kernel)

/-- The messages that the sample service has signed. -/
def sampleSigned (message : String) : Prop := message ∈ [sampleFirst,sampleSecond].map compositionAssignmentMessage

theorem sampleSigned_genuine (message : String) (signs : Signs sampleService sampleTrust.compositionPublicKey message) :
    sampleSigned message := by
  obtain ⟨key,bytes,decoded,verified⟩ := signs
  cases decoded
  exact List.contains_iff_mem.mp verified

/-- The registration of the sample: its state is that of an assignment for the nonce of the step, with the contents of one
that the service had signed. -/
theorem changes_were_issued_sample : ∃ state ∈ sampleRegistered.file, ∃ assignment, ∃ offer ∈ [sampleFirst,sampleSecond],
    SameContents assignment offer ∧ assignment.nonce = "ab" ∧ state = acceptedState sampleService assignment none := by
  have changed : sampleRegistered.file.isSome := by decide +kernel
  obtain ⟨state,held⟩ := Option.isSome_iff_exists.mp changed
  refine ⟨state,held,?_⟩
  rcases changes_were_issued sampleSigned (.single ⟨sampleLoad,sampleSigned_genuine,rfl⟩)
    (.complete 0 (sampleWorld sampleFirst)) trivial held with same | ⟨user,member,trust,inventory,prior,assignment,verifies,genuine,draws,rest⟩
  · cases same
  · cases List.mem_singleton.mp member
    cases verifies
    obtain ⟨offer,listed,message⟩ := List.mem_map.mp genuine
    obtain ⟨behind,client⟩ := samples_plain offer listed
    exact ⟨assignment,offer,listed,rest.2 (by decide +kernel) sampleInventory_plain offer behind client message,
      (Except.ok.inj draws).symm,rest.1⟩

end Signatures
end Polyguard.Polyform
