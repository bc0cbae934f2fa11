import Polyguard.Polyform.Client

/-! What a verified assignment is.
A verification accepts an assignment only when it is signed for the request, fits the
binary and follows the state before it. The quarantine that it computes is read entry by
entry of the status list; where the state before kept its quarantine exact, so does the
state behind it, and the last check cannot fail. -/
namespace Polyguard.Polyform
open Std Fallible

section Stages
variable {crypto : Cryptography}

/-- The message has a signature under the key. -/
def Signs (crypto : Cryptography) (publicKey message : String) : Prop :=
  ∃ key bytes, crypto.decode publicKey = .ok key ∧ crypto.verifies key message bytes = true

theorem verifyEd25519_ok {publicKey signature message label : String}
    (verified : verifyEd25519 crypto publicKey signature message label = .ok ()) : Signs crypto publicKey message := by
  unfold verifyEd25519 at verified
  cases decoded : crypto.decode publicKey with
  | error error =>
    rw [decoded] at verified
    cases verified
  | ok key =>
    rw [decoded] at verified
    dsimp only at verified
    repeat' split at verified
    all_goals cases verified
    rename_i bytes _ _ _ _ held
    exact ⟨key,bytes,decoded,held⟩

/-- The assignment answers the request and is signed by the trusted key. -/
structure Authentic (crypto : Cryptography) (assignment : Assignment) (nonce : String) (trust : ReleaseTrust) : Prop where
  release : jsonScalar assignment.releaseId = trust.releaseId
  nonce : assignment.nonce = nonce
  delegated : Signs crypto trust.releasePublicKey (compositionDelegationMessage trust)
  signed : Signs crypto trust.compositionPublicKey (compositionAssignmentMessage assignment)

theorem authenticate_ok {assignment : Assignment} {nonce : String} {trust : ReleaseTrust}
    (verified : authenticate crypto assignment nonce trust = .ok ()) : Authentic crypto assignment nonce trust := by
  simp only [authenticate,unless_iff,bind_iff,not_not] at verified
  obtain ⟨-,release,answers,-,_,delegated,signed⟩ := verified
  exact ⟨release,answers,verifyEd25519_ok delegated,verifyEd25519_ok signed⟩

/-- The composition and the status list fit the binary. -/
structure Fits (inventory : ImplementationInventory) (implementations statuses : ExtTreeMap String String) : Prop where
  functions : implementations.keys = inventory.keys
  compiled : ∀ function implementation : String, implementations[function]? = some implementation →
    isCompiled inventory (function,implementation)
  listed : statuses.keys = (compiledImplementations inventory).toList
  known : ∀ implementation status : String, statuses[implementation]? = some status → isKnownStatus status
  active : ∀ function implementation : String, implementations[function]? = some implementation →
    statuses[implementation]? = some "active"

theorem entries_clear {entries : ExtTreeMap String String} {faulty : String × String → Bool}
    (clear : entries.toList.find? faulty = none) {key value : String} (held : entries[key]? = some value) :
    faulty (key,value) = false := by
  rw [List.find?_eq_none] at clear
  simpa using clear _ (ExtTreeMap.mem_toList_iff_getElem?_eq_some.mpr held)

theorem checkInventory_ok {assignment : Assignment} {inventory : ImplementationInventory}
    (checked : checkInventory assignment inventory = .ok ()) : Fits inventory assignment.implementations assignment.statuses := by
  unfold checkInventory at checked
  rw [unless_iff,unless_iff,not_not] at checked
  obtain ⟨-,functions,checked⟩ := checked
  split at checked
  · cases checked
  · rename_i compiled
    rw [unless_iff,not_not] at checked
    obtain ⟨listed,checked⟩ := checked
    split at checked
    · cases checked
    · rename_i known
      split at checked
      · cases checked
      · rename_i active
        refine ⟨functions,?_,listed,?_,?_⟩
        · intro function implementation assigned
          simpa using entries_clear compiled assigned
        · intro implementation status held
          simpa using entries_clear known held
        · intro function implementation assigned
          simpa using entries_clear active assigned

/-- A state that may follow another one: nothing goes back, and nothing changes under one version. -/
structure Succeeds (earlier later : PersistedState) : Prop where
  release : later.releaseId = earlier.releaseId
  client : earlier.clientId ≠ "" → later.clientId = earlier.clientId
  listVersion : earlier.listVersion ≤ later.listVersion
  revision : earlier.revision ≤ later.revision
  statuses : later.listVersion = earlier.listVersion → later.statuses = earlier.statuses
  implementations : later.revision = earlier.revision → later.implementations = earlier.implementations

theorem Succeeds.refl (state : PersistedState) : Succeeds state state :=
  ⟨rfl,fun _ => rfl,Nat.le_refl _,Nat.le_refl _,fun _ => rfl,fun _ => rfl⟩

theorem Succeeds.trans {first second third : PersistedState} (left : Succeeds first second) (right : Succeeds second third) :
    Succeeds first third := by
  have lists := left.listVersion
  have revisions := left.revision
  have laterLists := right.listVersion
  have laterRevisions := right.revision
  refine ⟨right.release.trans left.release,?_,by omega,by omega,?_,?_⟩
  · intro named
    have kept := left.client named
    rw [right.client (by rwa [kept]),kept]
  · intro same
    rw [right.statuses (by omega),left.statuses (by omega)]
  · intro same
    rw [right.implementations (by omega),left.implementations (by omega)]

theorem checkRollback_ok {assignment : Assignment} {previous : PersistedState} {prior : Option PersistedState}
    (checked : checkRollback assignment previous = .ok ()) : Succeeds previous (acceptedState crypto assignment prior) := by
  simp only [checkRollback,unless_iff,not_and,not_not,Nat.not_lt,and_true] at checked
  obtain ⟨release,client,lists,revisions,statuses,implementations⟩ := checked
  exact ⟨release.symm,fun named => (client named).symm,lists,revisions,statuses,implementations⟩

theorem forM_ok {prior : Option PersistedState} {check : PersistedState → RuntimeResult Unit} :
    prior.forM check = .ok () ↔ ∀ previous ∈ prior, check previous = .ok () := by
  cases prior with
  | none => exact ⟨fun _ _ absent => (by cases absent),fun _ => rfl⟩
  | some previous => exact ⟨fun checked _ held => Option.some.inj held ▸ checked,fun checked => checked previous rfl⟩

theorem verifyAssignment_iff {assignment : Assignment} {nonce : String} {trust : ReleaseTrust}
    {inventory : ImplementationInventory} {prior : Option PersistedState} {state : PersistedState} :
    verifyAssignment crypto assignment nonce trust inventory prior = .ok state ↔
      authenticate crypto assignment nonce trust = .ok () ∧ checkInventory assignment inventory = .ok () ∧
      (∀ previous ∈ prior, checkRollback assignment previous = .ok ()) ∧
      (∀ function implementation : String, assignment.implementations[function]? = some implementation →
        implementation ∉ quarantineFloor assignment prior) ∧ state = acceptedState crypto assignment prior := by
  have free : (assignment.implementations.toList.find? fun assigned =>
      (quarantineFloor assignment prior).contains assigned.2) = none ↔
      ∀ function implementation : String, assignment.implementations[function]? = some implementation →
        implementation ∉ quarantineFloor assignment prior := by
    constructor
    · intro clear function implementation assigned
      have absent := entries_clear clear assigned
      rwa [← Bool.not_eq_true,ExtTreeMap.contains_iff_mem] at absent
    · intro free
      rw [List.find?_eq_none]
      intro assigned member
      simpa using free assigned.1 assigned.2 (ExtTreeMap.mem_toList_iff_getElem?_eq_some.mp member)
  simp only [verifyAssignment,bind_iff,← free]
  constructor
  · rintro ⟨_,signed,_,fits,_,follows,ended⟩
    refine ⟨signed,fits,forM_ok.mp follows,?_⟩
    split at ended
    · cases ended
    · rename_i clear
      exact ⟨clear,(Except.ok.inj ended).symm⟩
  · rintro ⟨signed,fits,follows,clear,rfl⟩
    refine ⟨(),signed,(),fits,(),forM_ok.mpr follows,?_⟩
    simp only [clear]
    rfl

end Stages

section Floor
variable {listVersion : Nat} {canRestore : Bool}

theorem raiseFloor_other {quarantined : ExtTreeMap String Nat} {listed : String × String} {implementation : String}
    (other : listed.1 ≠ implementation) :
    implementation ∈ raiseFloor listVersion canRestore quarantined listed ↔ implementation ∈ quarantined := by
  have apart : compare listed.1 implementation ≠ .eq := fun same => other (LawfulEqOrd.eq_of_compare same)
  unfold raiseFloor
  split
  · simp [ExtTreeMap.mem_insertIfNew,apart]
  · split
    · simp [ExtTreeMap.mem_erase,apart]
    · rfl

theorem raiseFloor_self {quarantined : ExtTreeMap String Nat} {implementation status : String} (known : isKnownStatus status) :
    implementation ∈ raiseFloor listVersion canRestore quarantined (implementation,status) ↔
      status ≠ "active" ∨ (canRestore = false ∧ implementation ∈ quarantined) := by
  unfold raiseFloor
  unfold isKnownStatus at known
  by_cases active : status = "active"
  · subst active
    cases canRestore with
    | true => simp [ExtTreeMap.mem_erase]
    | false => simp
  · have lowered : (status == "quarantined" || status == "disabled") = true := by simpa [active] using known
    rw [if_pos lowered]
    simp [ExtTreeMap.mem_insertIfNew,active]

/-- The loop over the status list, for an implementation that the list does not name. -/
theorem floor_unlisted {entries : List (String × String)} {implementation : String}
    (absent : ∀ entry ∈ entries, entry.1 ≠ implementation) (quarantined : ExtTreeMap String Nat) :
    implementation ∈ entries.foldl (raiseFloor listVersion canRestore) quarantined ↔ implementation ∈ quarantined := by
  induction entries generalizing quarantined with
  | nil => rfl
  | cons entry entries ih =>
    rw [List.foldl_cons,ih fun later member => absent later (List.mem_cons_of_mem _ member)]
    exact raiseFloor_other (absent entry List.mem_cons_self)

/-- The loop over the status list, for an implementation that the list names. -/
theorem floor_listed {entries : List (String × String)} (distinct : entries.Pairwise fun left right => left.1 ≠ right.1)
    {implementation status : String} (listed : (implementation,status) ∈ entries) (known : isKnownStatus status)
    (quarantined : ExtTreeMap String Nat) :
    implementation ∈ entries.foldl (raiseFloor listVersion canRestore) quarantined ↔
      status ≠ "active" ∨ (canRestore = false ∧ implementation ∈ quarantined) := by
  induction entries generalizing quarantined with
  | nil => cases listed
  | cons entry entries ih =>
    rw [List.pairwise_cons] at distinct
    rw [List.foldl_cons]
    rcases List.mem_cons.mp listed with rfl | later
    · rw [floor_unlisted fun other member => (distinct.1 other member).symm]
      exact raiseFloor_self known
    · rw [ih distinct.2 later,raiseFloor_other (distinct.1 _ later)]

theorem statuses_distinct (statuses : ExtTreeMap String String) : statuses.toList.Pairwise fun left right => left.1 ≠ right.1 := by
  apply statuses.distinct_keys_toList.imp
  intro left right apart same
  exact apart (by rw [same,ReflOrd.compare_self])

end Floor

section Verification
variable {crypto : Cryptography} {assignment : Assignment} {nonce : String} {trust : ReleaseTrust}
  {inventory : ImplementationInventory} {prior : Option PersistedState}

/-- The quarantine of a state has of the listed implementations those that are not active. -/
def PersistedState.Floored (state : PersistedState) : Prop :=
  ∀ implementation status : String, state.statuses[implementation]? = some status →
    (implementation ∈ state.quarantined ↔ status ≠ "active")

theorem quarantineFloor_exact
    (known : ∀ implementation status : String, assignment.statuses[implementation]? = some status → isKnownStatus status)
    (floored : ∀ previous ∈ prior, previous.Floored)
    (follows : ∀ previous ∈ prior, assignment.listVersion ≤ previous.listVersion → assignment.statuses = previous.statuses)
    {implementation status : String} (listed : assignment.statuses[implementation]? = some status) :
    implementation ∈ quarantineFloor assignment prior ↔ status ≠ "active" := by
  have member : (implementation,status) ∈ assignment.statuses.toList := ExtTreeMap.mem_toList_iff_getElem?_eq_some.mpr listed
  unfold quarantineFloor
  rw [floor_listed (statuses_distinct assignment.statuses) member (known _ _ listed)]
  constructor
  · rintro (lowered | ⟨blocked,inside⟩)
    · exact lowered
    · cases prior with
      | none => cases blocked
      | some previous =>
        -- a list that is not newer is the list of the state before, whose quarantine was exact
        have same : assignment.statuses = previous.statuses := by
          apply follows previous rfl
          simpa using blocked
        rw [same] at listed
        exact (floored previous rfl implementation status listed).mp inside
  · exact Or.inl

theorem quarantineFloor_keeps {previous : PersistedState}
    (known : ∀ implementation status : String, assignment.statuses[implementation]? = some status → isKnownStatus status)
    {implementation : String} (inside : implementation ∈ previous.quarantined) :
    implementation ∈ quarantineFloor assignment (some previous) ∨
      previous.listVersion < assignment.listVersion ∧ assignment.statuses[implementation]? = some "active" := by
  unfold quarantineFloor
  cases listed : assignment.statuses[implementation]? with
  | none =>
    apply Or.inl
    rw [floor_unlisted]
    · exact inside
    · intro entry member same
      have found := ExtTreeMap.mem_toList_iff_getElem?_eq_some.mp member
      rw [same,listed] at found
      cases found
  | some status =>
    have member : (implementation,status) ∈ assignment.statuses.toList := ExtTreeMap.mem_toList_iff_getElem?_eq_some.mpr listed
    rw [floor_listed (statuses_distinct assignment.statuses) member (known _ _ listed)]
    by_cases active : status = "active"
    · subst active
      by_cases newer : previous.listVersion < assignment.listVersion
      · exact .inr ⟨newer,rfl⟩
      · exact .inl (.inr ⟨by simpa using newer,inside⟩)
    · exact .inl (.inl active)

theorem acceptedState_floored (crypto : Cryptography) (fits : Fits inventory assignment.implementations assignment.statuses)
    (floored : ∀ previous ∈ prior, previous.Floored)
    (follows : ∀ previous ∈ prior, checkRollback assignment previous = .ok ()) : (acceptedState crypto assignment prior).Floored := by
  intro implementation status listed
  apply quarantineFloor_exact fits.known floored _ listed
  intro previous held older
  have behind : Succeeds previous (acceptedState crypto assignment prior) := checkRollback_ok (follows previous held)
  exact behind.statuses (Nat.le_antisymm older behind.listVersion)

/-- Behind a state with an exact quarantine the three checks decide: the last one has nothing to reject. -/
theorem verifyAssignment_accepts_iff (floored : ∀ previous ∈ prior, previous.Floored) (state : PersistedState) :
    verifyAssignment crypto assignment nonce trust inventory prior = .ok state ↔
      authenticate crypto assignment nonce trust = .ok () ∧ checkInventory assignment inventory = .ok () ∧
      (∀ previous ∈ prior, checkRollback assignment previous = .ok ()) ∧ state = acceptedState crypto assignment prior := by
  rw [verifyAssignment_iff]
  constructor
  · rintro ⟨signed,fits,follows,-,same⟩
    exact ⟨signed,fits,follows,same⟩
  · rintro ⟨signed,fits,follows,same⟩
    refine ⟨signed,fits,follows,?_,same⟩
    intro function implementation assigned blocked
    have listed := (checkInventory_ok fits).active function implementation assigned
    exact (acceptedState_floored crypto (checkInventory_ok fits) floored follows implementation "active" listed).mp blocked rfl

end Verification
end Polyguard.Polyform
