import Polyguard.Collections.Fallible
import Mathlib.Data.List.Basic
import Mathlib.Logic.Relation

/-! The client of the composition service.
A composition names one compiled implementation for each protocol function. The service
signs it for one request; the client verifies it against the trust of its release, the
inventory of the binary and the state that it accepted last, and writes the new state to
a file before it takes it over. What the world decides (whether the file can be read and
written, the nonce, the reply) is a parameter of each operation, and so is the cryptography. -/
namespace Polyguard.Polyform
open Std

section Data

/-- The errors of the runtime. That of a wrong set of functions has the two sets that its text prints. -/
inductive RuntimeError where
  | http (text : String)
  | json (text : String)
  | authentication (text : String)
  | rollback (text : String)
  | inventory (text : String)
  | functions (expected received : List String)
  | state (text : String)
deriving DecidableEq, Repr

abbrev RuntimeResult := Except RuntimeError

abbrev ImplementationInventory := ExtTreeMap String (ExtTreeSet String)

/-- A JSON value as the client reads it: a text, or anything else with the text it is printed as. -/
inductive JsonValue where
  | text (value : String)
  | other (printed : String)
deriving DecidableEq, Repr

def jsonScalar : JsonValue → String
  | .text value => value
  | .other printed => printed

structure Assignment where
  clientId : String
  releaseId : JsonValue
  revision : Nat
  implementations : ExtTreeMap String String
  listVersion : Nat
  statuses : ExtTreeMap String String
  nonce : String
  compositionPublicKey : String
  compositionDelegationSignature : String
  signature : String

structure ReleaseTrust where
  schemaVersion : Nat
  releaseId : String
  application : String
  version : String
  artifactSha256 : String
  releasePublicKey : String
  compositionPublicKey : String
  compositionDelegationSignature : String

structure PersistedState where
  releaseId : String
  clientId : String
  listVersion : Nat
  revision : Nat
  implementations : ExtTreeMap String String
  statuses : ExtTreeMap String String
  quarantined : ExtTreeMap String Nat
  assignmentHash : String

/-- The cryptography: the decoder of keys and signatures, the reading of a key, the verification of
a signature on a message, and the printed digest of a message. -/
structure Cryptography where
  decode : String → Except String (List UInt8)
  readKey : List UInt8 → Except String Unit
  verifies : List UInt8 → String → List UInt8 → Bool
  digest : String → String

end Data

section Messages

def compositionDelegationMessage (trust : ReleaseTrust) : String :=
  "polyform-composition-delegation-v1\napplication=" ++ trust.application ++ "\nversion=" ++ trust.version ++
    "\nartifact_sha256=" ++ trust.artifactSha256 ++ "\ncomposition_public_key=" ++ trust.compositionPublicKey

def entryLine (label : String) (entry : String × String) : String := label ++ entry.1 ++ "=" ++ entry.2

def assignmentLine : String × String → String := entryLine "assignment:"

def statusLine : String × String → String := entryLine "status:"

def assignmentLines (assignment : Assignment) : List String :=
  ["polyform-composition-v1",
    "client_id=" ++ assignment.clientId,
    "release_id=" ++ jsonScalar assignment.releaseId,
    "list_version=" ++ toString assignment.listVersion,
    "revision=" ++ toString assignment.revision,
    "nonce=" ++ assignment.nonce] ++
  assignment.implementations.toList.map assignmentLine ++ assignment.statuses.toList.map statusLine

def compositionAssignmentMessage (assignment : Assignment) : String := "\n".intercalate (assignmentLines assignment)

end Messages

section Verification
variable (crypto : Cryptography)

def verifyEd25519 (publicKey signature message label : String) : RuntimeResult Unit :=
  match crypto.decode publicKey with
  | .error error => .error (.authentication ("invalid " ++ label ++ " key: " ++ error))
  | .ok key =>
    if key.length ≠ 32 then .error (.authentication (label ++ " key must be 32 bytes"))
    else match crypto.decode signature with
      | .error error => .error (.authentication ("invalid " ++ label ++ " signature: " ++ error))
      | .ok bytes =>
        if bytes.length ≠ 64 then .error (.authentication (label ++ " signature must be 64 bytes"))
        else match crypto.readKey key with
          | .error error => .error (.authentication ("invalid " ++ label ++ " key: " ++ error))
          | .ok () =>
            if crypto.verifies key message bytes then .ok ()
            else .error (.authentication ("invalid " ++ label ++ " signature"))

def ReleaseTrust.verifyDelegation (trust : ReleaseTrust) : RuntimeResult Unit :=
  verifyEd25519 crypto trust.releasePublicKey trust.compositionDelegationSignature (compositionDelegationMessage trust)
    "composition-key delegation"

/-- The assignment answers this request and carries the signature of the trusted composition key. -/
def authenticate (assignment : Assignment) (expectedNonce : String) (trust : ReleaseTrust) : RuntimeResult Unit :=
  if trust.schemaVersion ≠ 1 then
    .error (.authentication ("unsupported release trust schema " ++ toString trust.schemaVersion))
  else if jsonScalar assignment.releaseId ≠ trust.releaseId then
    .error (.authentication ("expected release " ++ trust.releaseId ++ ", received " ++ jsonScalar assignment.releaseId))
  else if assignment.nonce ≠ expectedNonce then .error (.authentication "response nonce did not match this request")
  else if assignment.compositionPublicKey ≠ trust.compositionPublicKey ∨
      assignment.compositionDelegationSignature ≠ trust.compositionDelegationSignature then
    .error (.authentication "composition signer did not match the verified release trust")
  else do
    trust.verifyDelegation crypto
    verifyEd25519 crypto trust.compositionPublicKey assignment.signature (compositionAssignmentMessage assignment)
      "composition assignment"

end Verification

section Checks

def isCompiled (inventory : ImplementationInventory) (assigned : String × String) : Bool :=
  (inventory[assigned.1]?).any fun allowed => allowed.contains assigned.2

def isKnownStatus (status : String) : Bool := status == "active" || status == "quarantined" || status == "disabled"

/-- Every implementation of the binary, each once. -/
def compiledImplementations (inventory : ImplementationInventory) : ExtTreeSet String :=
  ExtTreeSet.ofList (inventory.toList.flatMap fun entry => entry.2.toList)

def checkInventory (assignment : Assignment) (inventory : ImplementationInventory) : RuntimeResult Unit :=
  if inventory.isEmpty then .error (.inventory "the binary supplied an empty implementation inventory")
  else if assignment.implementations.keys ≠ inventory.keys then
    .error (.functions inventory.keys assignment.implementations.keys)
  else match assignment.implementations.toList.find? fun assigned => !isCompiled inventory assigned with
    | some assigned =>
      .error (.inventory ("implementation '" ++ assigned.2 ++ "' is not compiled for '" ++ assigned.1 ++ "'"))
    | none =>
      if assignment.statuses.keys ≠ (compiledImplementations inventory).toList then
        .error (.inventory "signed status list did not exactly match the binary inventory")
      else match assignment.statuses.toList.find? fun listed => !isKnownStatus listed.2 with
        | some listed => .error (.inventory ("unknown status '" ++ listed.2 ++ "' for '" ++ listed.1 ++ "'"))
        | none =>
          match assignment.implementations.toList.find? fun assigned => assignment.statuses[assigned.2]? != some "active" with
          | some assigned => .error (.inventory ("assigned implementation '" ++ assigned.2 ++ "' is not active"))
          | none => .ok ()

def checkRollback (assignment : Assignment) (previous : PersistedState) : RuntimeResult Unit :=
  if previous.releaseId ≠ jsonScalar assignment.releaseId then
    .error (.rollback "persisted state belongs to another release")
  else if previous.clientId ≠ "" ∧ previous.clientId ≠ assignment.clientId then
    .error (.rollback "server changed the installation's client identity")
  else if assignment.listVersion < previous.listVersion then
    .error (.rollback ("list version " ++ toString assignment.listVersion ++ " is older than " ++ toString previous.listVersion))
  else if assignment.revision < previous.revision then
    .error (.rollback ("composition revision " ++ toString assignment.revision ++ " is older than " ++
      toString previous.revision))
  else if assignment.listVersion = previous.listVersion ∧ assignment.statuses ≠ previous.statuses then
    .error (.rollback "status list changed without a higher list version")
  else if assignment.revision = previous.revision ∧ assignment.implementations ≠ previous.implementations then
    .error (.rollback "composition changed without a higher revision")
  else .ok ()

/-- What one entry of the status list does to the local quarantine. -/
def raiseFloor (listVersion : Nat) (canRestore : Bool) (quarantined : ExtTreeMap String Nat) (listed : String × String) :
    ExtTreeMap String Nat :=
  if listed.2 == "quarantined" || listed.2 == "disabled" then quarantined.insertIfNew listed.1 listVersion
  else if listed.2 == "active" && canRestore then quarantined.erase listed.1
  else quarantined

def quarantineFloor (assignment : Assignment) (prior : Option PersistedState) : ExtTreeMap String Nat :=
  let canRestore := prior.all fun state => decide (assignment.listVersion > state.listVersion)
  assignment.statuses.toList.foldl (raiseFloor assignment.listVersion canRestore) ((prior.map (·.quarantined)).getD ∅)

end Checks

section Operations
variable (crypto : Cryptography)

/-- The state that an accepted assignment leads to. -/
def acceptedState (assignment : Assignment) (prior : Option PersistedState) : PersistedState where
  releaseId := jsonScalar assignment.releaseId
  clientId := assignment.clientId
  listVersion := assignment.listVersion
  revision := assignment.revision
  implementations := assignment.implementations
  statuses := assignment.statuses
  quarantined := quarantineFloor assignment prior
  assignmentHash := crypto.digest (compositionAssignmentMessage assignment)

def verifyAssignment (assignment : Assignment) (expectedNonce : String) (trust : ReleaseTrust)
    (inventory : ImplementationInventory) (prior : Option PersistedState) : RuntimeResult PersistedState := do
  authenticate crypto assignment expectedNonce trust
  checkInventory assignment inventory
  prior.forM (checkRollback assignment)
  match assignment.implementations.toList.find? fun assigned => (quarantineFloor assignment prior).contains assigned.2 with
  | some assigned => .error (.rollback ("local quarantine floor blocks '" ++ assigned.2 ++ "'"))
  | none => return acceptedState crypto assignment prior

structure Client where
  clientId : String
  releaseId : String
  revision : Nat
  listVersion : Nat
  composition : ExtTreeMap String String
  trust : ReleaseTrust
  inventory : ImplementationInventory
  state : PersistedState

def Client.fromVerified (trust : ReleaseTrust) (inventory : ImplementationInventory) (state : PersistedState) : Client :=
  ⟨state.clientId,state.releaseId,state.revision,state.listVersion,state.implementations,trust,inventory,state⟩

/-- What the world decides for one operation: whether the file can be read, the random bytes of the
nonce, the reply of the service, and whether the new state replaces the file. -/
structure World where
  reads : RuntimeResult Unit
  random : RuntimeResult (List UInt8)
  reply : RuntimeResult Assignment
  writes : RuntimeResult Unit

/-- The operations work on the state file. -/
abbrev Filing := EStateM RuntimeError (Option PersistedState)

def hexEncode (bytes : List UInt8) : String :=
  String.ofList (bytes.flatMap fun byte => [Nat.digitChar (byte.toNat / 16),Nat.digitChar (byte.toNat % 16)])

def newNonce (world : World) : RuntimeResult String := world.random.map hexEncode

def loadState (world : World) : Filing (Option PersistedState) := do
  MonadExcept.ofExcept world.reads
  get

/-- The file is replaced as a whole, by a rename, or left as it is. -/
def persistState (world : World) (state : PersistedState) : Filing Unit := do
  MonadExcept.ofExcept world.writes
  set (some state)

/-- What a registration does once it has read the file. -/
def Client.complete (trust : ReleaseTrust) (inventory : ImplementationInventory) (prior : Option PersistedState) (world : World) :
    Filing Client := do
  let nonce ← MonadExcept.ofExcept (newNonce world)
  let assignment ← MonadExcept.ofExcept world.reply
  let state ← MonadExcept.ofExcept (verifyAssignment crypto assignment nonce trust inventory prior)
  persistState world state
  return .fromVerified trust inventory state

def Client.register (trust : ReleaseTrust) (inventory : ImplementationInventory) (world : World) : Filing Client := do
  let prior ← loadState world
  Client.complete crypto trust inventory prior world

/-- The client behind a refresh, and whether it changed. -/
def Client.refresh (client : Client) (world : World) : Filing (Client × Bool) := do
  let nonce ← MonadExcept.ofExcept (newNonce world)
  let assignment ← MonadExcept.ofExcept world.reply
  let next ← MonadExcept.ofExcept (verifyAssignment crypto assignment nonce client.trust client.inventory (some client.state))
  let changed := next.revision != client.revision || next.listVersion != client.listVersion
  persistState world next
  return (.fromVerified client.trust client.inventory next,changed)

end Operations

section Runs
variable (crypto : Cryptography)

/-- Who uses a state file: a registration that has read it and waits for its reply, a client, or nobody any more. -/
inductive User where
  | registering (trust : ReleaseTrust) (inventory : ImplementationInventory) (prior : Option PersistedState)
  | serving (client : Client)
  | ended

/-- A state file and its users. A reload with other settings registers a second client on the file while the first one serves. -/
structure Installation where
  file : Option PersistedState
  users : List User

/-- A registration reads the file and completes later, a client refreshes, a user ends. Between these the file may get any
content from elsewhere, as from another process or from two writes that meet in the temporary file. -/
inductive Event where
  | load (trust : ReleaseTrust) (inventory : ImplementationInventory) (world : World)
  | complete (user : Nat) (world : World)
  | refresh (user : Nat) (world : World)
  | stop (user : Nat)
  | rewrite (content : Option PersistedState)

/-- The two halves of a registration are steps of their own; a refresh reads the memory of its client only. -/
def Installation.step (here : Installation) : Event → Installation
  | .load trust inventory world =>
    match loadState world here.file with
    | .ok prior file => ⟨file,here.users ++ [.registering trust inventory prior]⟩
    | .error _ file => ⟨file,here.users⟩
  | .complete user world =>
    match here.users[user]? with
    | some (.registering trust inventory prior) =>
      match Client.complete crypto trust inventory prior world here.file with
      | .ok client file => ⟨file,here.users.set user (.serving client)⟩
      | .error _ file => ⟨file,here.users.set user .ended⟩
    | _ => here
  | .refresh user world =>
    match here.users[user]? with
    | some (.serving client) =>
      match client.refresh crypto world here.file with
      | .ok (refreshed,_) file => ⟨file,here.users.set user (.serving refreshed)⟩
      -- a refresh that fails leaves the client as it is
      | .error _ file => ⟨file,here.users⟩
    | _ => here
  | .stop user => ⟨here.file,here.users.set user .ended⟩
  | .rewrite content => ⟨content,here.users⟩

def User.client : User → Option Client
  | .serving client => some client
  | _ => none

def Installation.clients (here : Installation) : List Client := here.users.filterMap User.client

/-- A machine without a state file. -/
def fresh : Installation := ⟨none,[]⟩

/-- The file has one user: a registration begins only where all earlier users have ended, and nothing else writes the file. -/
def Installation.Alone (here : Installation) : Event → Prop
  | .load _ _ _ => ∀ user ∈ here.users, user = .ended
  | .rewrite _ => False
  | _ => True

/-- The installations that a run with allowed events leads to. -/
def Run (allowed : Installation → Event → Prop) : Installation → Installation → Prop :=
  Relation.ReflTransGen fun here next => ∃ event, allowed here event ∧ next = here.step crypto event

end Runs
end Polyguard.Polyform
