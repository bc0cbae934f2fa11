import Polyguard.Proxy.Generations
import Polyguard.Proxy.Memory
import Mathlib.Data.List.Basic

/-! The server over its whole life.
The main thread accepts connections, reloads the configuration and ends the server, one step
after the other; each admitted connection has a worker thread that may end at any time. The
counter of the active connections is shared by all of them. A refresh assigns primaries and
touches nothing else that a state has here; they are left to the composition, and what is
told here holds for any of them. -/
namespace Polyguard.Proxy.Server
open Memory Ascii

variable {Key Client Operation : Type}

/-- An accepted connection: its listener, the generation that was live and what this has for the listener. -/
structure Session (Key Client : Type) where
  address : SocketAddr
  generation : Generation Key Client
  tls : Option (ServerNameResolver Key)

def Session.capacity (session : Session Key Client) : Nat := session.generation.config.listener.maxConnections

/-- What the main thread does. A connection is `counted` with the number that stood in the counter
before it, and `unserved` when it was counted and no worker could be started. -/
inductive Main (Key Client : Type) where
  | polling
  | accepted (session : Session Key Client)
  | counted (session : Session Key Client) (before : Nat)
  | refused (session : Session Key Client)
  | unserved
  | publishing (generation : Generation Key Client)
  | draining
  | stopped

def Main.session : Main Key Client → Option (Session Key Client)
  | .accepted session => some session
  | .counted session _ => some session
  | .refused session => some session
  | _ => none

/-- The connections that are counted and have no worker. -/
def Main.pending : Main Key Client → Nat
  | .counted _ _ => 1
  | .unserved => 1
  | _ => 0

/-- The generation whose limits are in force. -/
def Main.governing (live : Generation Key Client) : Main Key Client → Generation Key Client
  | .publishing generation => generation
  | _ => live

structure State (Key Client : Type) where
  bound : List SocketAddr
  management : Option SocketAddr
  live : Generation Key Client
  bodyLimit : Nat
  active : Nat
  workers : List (Session Key Client)
  main : Main Key Client

inductive Event (Key Client : Type) where
  | reload (loading : Loading Key Client)
  | panic (loading : Loading Key Client)
  | publish
  | accept (address : SocketAddr)
  | acceptFails
  | drop
  | count
  | admission
  | spawnFails
  | uncount
  | refuse
  | busy (plaintext : Bool)
  | finish (worker : Nat)
  | terminate
  | drained
  | expired

def wrappingAdd (left right : Nat) : Nat := (left + right) % usizeModulus

def inflightLimit (generation : Generation Key Client) : Nat := generation.config.limits.maxInflightBodyBytes

inductive Step (registry : List (Implementation Operation)) (state : State Key Client) : Event Key Client → State Key Client → Prop where
  | reloadFails {loading : Loading Key Client} (phase : state.main = .polling)
      (failed : reloadGeneration registry loading state.bound state.management state.live = none) :
      Step registry state (.reload loading) state
  | reload {loading : Loading Key Client} {generation : Generation Key Client} (phase : state.main = .polling)
      (built : reloadGeneration registry loading state.bound state.management state.live = some generation) :
      Step registry state (.reload loading) { state with bodyLimit := inflightLimit generation, main := .publishing generation }
  -- a root was a directory at the check and cannot be resolved behind it, so that the main thread ends
  | panic {loading : Loading Key Client} {directory : List UInt8} (phase : state.main = .polling)
      (failed : reloadGeneration registry loading state.bound state.management state.live = none)
      (found : loading.isDirectory directory) (unresolved : loading.canonicalize directory = none) :
      Step registry state (.panic loading) { state with main := .stopped }
  | publish {generation : Generation Key Client} (phase : state.main = .publishing generation) :
      Step registry state .publish { state with live := generation, main := .polling }
  | accept {address : SocketAddr} (phase : state.main = .polling) (listens : address ∈ state.bound) :
      Step registry state (.accept address)
        { state with main := .accepted ⟨address,state.live,(Ledger.find address state.live.tls).join⟩ }
  -- an error other than that there is no connection ends the loop, without draining
  | acceptFails (phase : state.main = .polling) : Step registry state .acceptFails { state with main := .stopped }
  -- the socket could not be made blocking
  | drop {session : Session Key Client} (phase : state.main = .accepted session) :
      Step registry state .drop { state with main := .polling }
  | count {session : Session Key Client} (phase : state.main = .accepted session) :
      Step registry state .count { state with active := wrappingAdd state.active 1, main := .counted session state.active }
  | admission {session : Session Key Client} {before : Nat} (phase : state.main = .counted session before)
      (below : before < session.capacity) :
      Step registry state .admission { state with workers := state.workers ++ [session], main := .polling }
  | spawnFails {session : Session Key Client} {before : Nat} (phase : state.main = .counted session before)
      (below : before < session.capacity) : Step registry state .spawnFails { state with main := .unserved }
  | uncount (phase : state.main = .unserved) :
      Step registry state .uncount { state with active := wrappingSub state.active 1, main := .polling }
  | refuse {session : Session Key Client} {before : Nat} (phase : state.main = .counted session before)
      (full : session.capacity ≤ before) :
      Step registry state .refuse { state with active := wrappingSub state.active 1, main := .refused session }
  -- a reply in plaintext, or the end of a connection that was to be encrypted
  | busy {session : Session Key Client} (phase : state.main = .refused session) :
      Step registry state (.busy session.tls.isNone) { state with main := .polling }
  -- the handshake failed or the connection was served to its end
  | finish {worker : Nat} (serves : worker < state.workers.length) :
      Step registry state (.finish worker)
        { state with active := wrappingSub state.active 1, workers := state.workers.eraseIdx worker }
  | terminate (phase : state.main = .polling) : Step registry state .terminate { state with main := .draining }
  | drained (phase : state.main = .draining) (idle : state.active = 0) :
      Step registry state .drained { state with main := .stopped }
  | expired (phase : state.main = .draining) : Step registry state .expired { state with main := .stopped }

def initial (generation : Generation Key Client) (management : Option SocketAddr) : State Key Client :=
  ⟨generation.tls.map Prod.fst,management,generation,inflightLimit generation,0,[],.polling⟩

inductive Reachable (registry : List (Implementation Operation)) : State Key Client → Prop where
  | start {loading : Loading Key Client} {generation : Generation Key Client} {management : Option SocketAddr}
      (started : startGeneration registry loading = some (generation,management)) : Reachable registry (initial generation management)
  | step {state next : State Key Client} {event : Event Key Client} :
      Reachable registry state → Step registry state event next → Reachable registry next

section Invariant
variable {registry : List (Implementation Operation)} {state next : State Key Client} {event : Event Key Client}

/-- A connection was accepted on a bound listener, with what its generation has for it. -/
structure Proper (registry : List (Implementation Operation)) (bound : List SocketAddr) (management : Option SocketAddr)
    (session : Session Key Client) : Prop where
  configured : Configured registry bound management session.generation
  listens : session.address ∈ bound
  tls : session.tls = (Ledger.find session.address session.generation.tls).join

structure Sound (registry : List (Implementation Operation)) (state : State Key Client) : Prop where
  live : Configured registry state.bound state.management state.live
  governing : Configured registry state.bound state.management (state.main.governing state.live)
  workers : ∀ session ∈ state.workers, Proper registry state.bound state.management session
  main : ∀ session ∈ state.main.session, Proper registry state.bound state.management session
  active : state.active = state.workers.length + state.main.pending
  few : state.workers.length ≤ 1024
  counted : ∀ session before, state.main = .counted session before → state.workers.length ≤ before ∧ before ≤ 1024
  bodyLimit : state.bodyLimit = inflightLimit (state.main.governing state.live)

theorem initial_sound {loading : Loading Key Client} {generation : Generation Key Client} {management : Option SocketAddr}
    (started : startGeneration registry loading = some (generation,management)) : Sound registry (initial generation management) where
  live := startGeneration_configured started
  governing := startGeneration_configured started
  workers := by simp [initial]
  main := by simp [initial,Main.session]
  active := rfl
  few := Nat.zero_le _
  counted := by simp [initial]
  bodyLimit := rfl

theorem wrappingAdd_small {count : Nat} (few : count ≤ 1024) : wrappingAdd count 1 = count + 1 :=
  Nat.mod_eq_of_lt (Nat.lt_of_le_of_lt (Nat.succ_le_succ few) (by decide))

theorem wrappingSub_small {count : Nat} (few : count ≤ 1024) : wrappingSub (count + 1) 1 = count := by
  unfold wrappingSub
  rw [show count + 1 + usizeModulus - 1 = count + usizeModulus by omega,Nat.add_mod_right]
  exact Nat.mod_eq_of_lt (Nat.lt_of_le_of_lt few (by decide))

theorem step_sound (sound : Sound registry state) (step : Step registry state event next) : Sound registry next := by
  obtain ⟨live,governing,workers,main,active,few,counted,bodyLimit⟩ := sound
  cases step with
  | reloadFails phase failed => exact ⟨live,governing,workers,main,active,few,counted,bodyLimit⟩
  | reload phase built =>
    rw [phase] at active
    exact ⟨live,reloadGeneration_configured built,workers,by simp [Main.session],active,few,by simp,rfl⟩
  | panic phase =>
    rw [phase] at active bodyLimit
    exact ⟨live,live,workers,by simp [Main.session],active,few,by simp,bodyLimit⟩
  | acceptFails phase =>
    rw [phase] at active bodyLimit
    exact ⟨live,live,workers,by simp [Main.session],active,few,by simp,bodyLimit⟩
  | publish phase =>
    rw [phase] at active governing bodyLimit
    exact ⟨governing,governing,workers,by simp [Main.session],active,few,by simp,bodyLimit⟩
  | accept phase listens =>
    rw [phase] at active bodyLimit
    refine ⟨live,live,workers,?_,active,few,by simp,bodyLimit⟩
    intro session taken
    cases taken
    exact ⟨live,listens,rfl⟩
  | drop phase =>
    rw [phase] at active bodyLimit
    exact ⟨live,live,workers,by simp [Main.session],active,few,by simp,bodyLimit⟩
  | @count session phase =>
    rw [phase] at active bodyLimit main
    have number : state.active = state.workers.length := active
    refine ⟨live,live,workers,main,?_,few,?_,bodyLimit⟩
    · dsimp only [Main.pending]
      rw [number,wrappingAdd_small few]
    · intro other before same
      cases same
      rw [number]
      exact ⟨Nat.le_refl _,few⟩
  | @admission session before phase below =>
    obtain ⟨others,-⟩ := counted session before phase
    rw [phase] at active bodyLimit main
    have proper := main session rfl
    refine ⟨live,live,?_,by simp [Main.session],?_,?_,by simp,bodyLimit⟩
    · intro other among
      rcases List.mem_append.mp among with serving | new
      · exact workers other serving
      · rw [List.mem_singleton.mp new]
        exact proper
    · rw [active,List.length_append]
      rfl
    · have capacity := proper.configured.capacity.2
      rw [List.length_append,List.length_singleton]
      exact Nat.le_trans (Nat.succ_le_of_lt (Nat.lt_of_le_of_lt others below)) capacity
  | spawnFails phase below =>
    rw [phase] at active bodyLimit
    exact ⟨live,live,workers,by simp [Main.session],active,few,by simp,bodyLimit⟩
  | uncount phase =>
    rw [phase] at active bodyLimit
    refine ⟨live,live,workers,by simp [Main.session],?_,few,by simp,bodyLimit⟩
    dsimp only [Main.pending] at active ⊢
    rw [active,wrappingSub_small few]
    rfl
  | refuse phase full =>
    rw [phase] at active bodyLimit main
    refine ⟨live,live,workers,main,?_,few,by simp,bodyLimit⟩
    dsimp only [Main.pending] at active ⊢
    rw [active,wrappingSub_small few]
    rfl
  | busy phase =>
    rw [phase] at active bodyLimit
    exact ⟨live,live,workers,by simp [Main.session],active,few,by simp,bodyLimit⟩
  | @finish worker serves =>
    have shorter : (state.workers.eraseIdx worker).length + 1 = state.workers.length := List.length_eraseIdx_add_one serves
    refine ⟨live,governing,fun session among => workers session (List.mem_of_mem_eraseIdx among),main,?_,?_,?_,bodyLimit⟩
    · have number : state.active = (state.workers.eraseIdx worker).length + state.main.pending + 1 := by omega
      have bounded : (state.workers.eraseIdx worker).length + state.main.pending ≤ 1024 := by
        unfold Main.pending
        split <;> omega
      dsimp only
      rw [number,wrappingSub_small bounded]
    · dsimp only
      omega
    · intro session before same
      obtain ⟨others,bounded⟩ := counted session before same
      exact ⟨by dsimp only; omega,bounded⟩
  | terminate phase =>
    rw [phase] at active bodyLimit
    exact ⟨live,live,workers,by simp [Main.session],active,few,by simp,bodyLimit⟩
  | drained phase idle =>
    rw [phase] at active bodyLimit
    exact ⟨live,live,workers,by simp [Main.session],active,few,by simp,bodyLimit⟩
  | expired phase =>
    rw [phase] at active bodyLimit
    exact ⟨live,live,workers,by simp [Main.session],active,few,by simp,bodyLimit⟩

theorem reachable_sound (reached : Reachable registry state) : Sound registry state := by
  induction reached with
  | start started => exact initial_sound started
  | step _ step ih => exact step_sound ih step

/-- What one step leaves of the listeners, of the live generation and of the connections that are served. -/
theorem step_frame (step : Step registry state event next) : next.bound = state.bound ∧ next.management = state.management ∧
    (next.live = state.live ∨ state.main = .publishing next.live) ∧
    ∀ session ∈ state.workers, session ∈ next.workers ∨ ∃ worker, event = .finish worker ∧ state.workers[worker]? = some session := by
  cases step with
  | publish phase => exact ⟨rfl,rfl,.inr phase,fun session among => .inl among⟩
  | admission => exact ⟨rfl,rfl,.inl rfl,fun session among => .inl (List.mem_append_left _ among)⟩
  | @finish worker serves =>
    refine ⟨rfl,rfl,.inl rfl,fun session among => ?_⟩
    obtain ⟨index,inside,rfl⟩ := List.getElem_of_mem among
    rcases eq_or_ne index worker with rfl | other
    · exact .inr ⟨index,rfl,List.getElem?_eq_getElem inside⟩
    · exact .inl (List.mem_eraseIdx_iff_getElem.mpr ⟨index,inside,other,rfl⟩)
  | _ => exact ⟨rfl,rfl,.inl rfl,fun session among => .inl among⟩

theorem reachable_started (reached : Reachable registry state) : ∃ (loading : Loading Key Client) (first : Generation Key Client),
    startGeneration registry loading = some (first,state.management) ∧ state.bound = first.tls.map Prod.fst := by
  induction reached with
  | start started => exact ⟨_,_,started,rfl⟩
  | step _ step ih =>
    obtain ⟨bound,management,-⟩ := step_frame step
    rw [bound,management]
    exact ih

end Invariant

section Sample

/-- Two entries that implement every function. -/
def serverRegistry : List (Implementation Unit) := [⟨"one",fun _ => some ()⟩,⟨"two",fun _ => some ()⟩]

/-- A listener in plaintext and an encrypted one. -/
def serverConfig : LoadedConfig where
  listener := ⟨ascii "127.0.0.1:8080",none,none,false,ascii "agreement",2,[],128,5000,30000,3000,30000,10000⟩
  listeners := [⟨ascii "127.0.0.1:8443",some ⟨ascii "chain",ascii "key",[]⟩⟩]
  limits := ⟨⟨32768,67108864⟩,16777216,134217728⟩
  compression := ⟨false,1024,[ascii "text/plain"]⟩
  upstreams := [⟨ascii "app",ascii "127.0.0.1:9000"⟩]
  routes := [⟨ascii "a.test",ascii "/",ascii "app"⟩]
  sites := []
  polyform := none
  required := false
  reportTelemetry := false

def serverLoading : Loading (List UInt8) Unit :=
  ⟨some serverConfig,fun _ => false,some,fun chain _ => some chain,fun _ => none,fun _ _ => none⟩

def serverAddress : SocketAddr := ⟨.v4 [127,0,0,1],0,8443⟩

/-- The configuration of a reload, with one connection at a time and more memory for bodies. -/
def serverReloaded : LoadedConfig :=
  { serverConfig with
    listener := { serverConfig.listener with maxConnections := 1 }
    limits := { serverConfig.limits with maxInflightBodyBytes := 268435456 } }

def serverReloading : Loading (List UInt8) Unit := { serverLoading with source := some serverReloaded }

theorem serverLoading_starts : ∃ generation next, startGeneration serverRegistry serverLoading = some (generation,none) ∧
    serverAddress ∈ generation.tls.map Prod.fst ∧ generation.config = serverConfig ∧
    reloadGeneration serverRegistry serverReloading (generation.tls.map Prod.fst) none generation = some next ∧
      next.config = serverReloaded := by
  have begins : (startGeneration serverRegistry serverLoading).any (fun started => started.2 = none ∧
      (started.1.tls.map Prod.fst).contains serverAddress ∧ started.1.config = serverConfig ∧
      (reloadGeneration serverRegistry serverReloading (started.1.tls.map Prod.fst) none started.1).any
        (fun next => next.config = serverReloaded)) := by decide +kernel
  obtain ⟨⟨generation,management⟩,started,holds⟩ := (Option.any_eq_true _ _).mp begins
  rw [decide_eq_true_eq] at holds
  obtain ⟨rfl,listed,configured,reloads⟩ := holds
  obtain ⟨next,built,same⟩ := (Option.any_eq_true _ _).mp reloads
  exact ⟨generation,next,started,List.contains_iff_mem.mp listed,configured,built,of_decide_eq_true same⟩

/-- A server that serves one connection on its encrypted listener, over a reload that was published behind its accept. -/
theorem serving_reached : ∃ (state : State (List UInt8) Unit) (session : Session (List UInt8) Unit),
    Reachable serverRegistry state ∧ state.workers = [session] ∧ state.main = .polling ∧ session.address = serverAddress ∧
      session.generation.config = serverConfig ∧ state.live.config = serverReloaded := by
  obtain ⟨generation,next,started,listed,configured,built,same⟩ := serverLoading_starts
  have begun := Reachable.start started
  have accepted := begun.step (.accept rfl listed)
  have counted := accepted.step (.count rfl)
  have below : (0 : Nat) < generation.config.listener.maxConnections := by
    rw [configured]
    decide
  have admitted := counted.step (.admission rfl below)
  have reloaded := admitted.step (.reload rfl built)
  exact ⟨_,_,reloaded.step (.publish rfl),rfl,rfl,rfl,configured,same⟩

end Sample

section Results
variable {registry : List (Implementation Operation)} {state : State Key Client}

/-- The counter has every connection that is served and the one that is about to be, a connection is admitted only below
the capacity of its generation and refused only when that was full, and a server that drains ends without any. -/
theorem connections_are_counted (reached : Reachable registry state) :
    state.active = state.workers.length + state.main.pending ∧ state.workers.length ≤ 1024 ∧
    (∀ next, Step registry state .count next → ∃ session, state.main = .accepted session ∧
      next.main = .counted session state.workers.length) ∧
    (∀ next, Step registry state .admission next → ∃ session, next.workers = state.workers ++ [session] ∧
      next.workers.length ≤ session.capacity) ∧
    (∀ next, Step registry state .refuse next → ∃ session before, state.main = .counted session before ∧
      session.capacity ≤ before ∧ state.workers.length ≤ before) ∧
    ∀ next, Step registry state .drained next → state.workers = [] := by
  have sound := reachable_sound reached
  refine ⟨sound.active,sound.few,?_,?_,?_,?_⟩
  · intro next step
    cases step with
    | @count session phase =>
      have number := sound.active
      rw [phase] at number
      refine ⟨session,phase,?_⟩
      rw [number]
      rfl
  · intro next step
    cases step with
    | @admission session before phase below =>
      obtain ⟨others,-⟩ := sound.counted session before phase
      refine ⟨session,rfl,?_⟩
      rw [List.length_append,List.length_singleton]
      exact Nat.succ_le_of_lt (Nat.lt_of_le_of_lt others below)
  · intro next step
    cases step with
    | @refuse session before phase full => exact ⟨session,before,phase,full,(sound.counted session before phase).1⟩
  · intro next step
    cases step with
    | drained phase idle =>
      have number := sound.active
      rw [idle] at number
      exact List.length_eq_zero_iff.mp (by omega)

theorem connections_are_counted_sample : ∃ state : State (List UInt8) Unit, Reachable serverRegistry state ∧
    state.workers.length = 1 ∧ state.active = 1 := by
  obtain ⟨state,session,reached,serving,polling,-⟩ := serving_reached
  refine ⟨state,reached,by rw [serving]; rfl,?_⟩
  rw [(connections_are_counted reached).1,serving,polling]
  rfl

/-- The connections that are served and the one that the main thread has in hand. -/
def State.sessions (state : State Key Client) : List (Session Key Client) := state.workers ++ state.main.session.toList

/-- Over all reloads a connection keeps the generation it was accepted under. That one was checked as a whole, and says for the
listener of the connection whether it is encrypted and by which certificates; a refusal is in plaintext only where it is not. -/
theorem connections_keep_their_configuration (unique : (registry.map (·.id)).Nodup) (reached : Reachable registry state)
    {session : Session Key Client} (held : session ∈ state.sessions) :
    (∃ loading : Loading Key Client, loading.source = some session.generation.config ∧
      buildRuntime registry loading session.generation.config session.generation.polyform session.generation.tls =
        some session.generation ∧
      ∃ listener ∈ trafficListeners session.generation.config.toConfig, parseSocketAddr listener.address = some session.address ∧
        loadTlsConfig loading.certificate listener.tls = some session.tls ∧ session.tls.isSome = listener.tls.isSome ∧
        ∀ plaintext next, state.main.session = some session → Step registry state (.busy plaintext) next →
          (plaintext ↔ listener.tls = none)) ∧
    (∀ primary, isComplete registry (session.generation.agreement.updatePrimary primary)) ∧
    ∀ event next, Step registry state event next → session ∈ state.workers →
      session ∈ next.workers ∨ ∃ worker, event = .finish worker ∧ state.workers[worker]? = some session := by
  have sound := reachable_sound reached
  have proper : Proper registry state.bound state.management session := by
    rcases List.mem_append.mp held with serving | here
    · exact sound.workers session serving
    · exact sound.main session (Option.mem_toList.mp here)
  obtain ⟨loading,given,built,listener,among,parsed,settings,found,same,loaded⟩ := proper.configured.listener proper.listens
  have tls : session.tls = settings := by
    rw [proper.tls,found]
    rfl
  refine ⟨⟨loading,given,built,listener,among,parsed,by rw [tls,loaded],by rw [tls,same],?_⟩,
    proper.configured.stays_complete unique,fun event next step => (step_frame step).2.2.2 session⟩
  intro plaintext next here step
  cases step with
  | @busy refused phase =>
    rw [phase] at here
    obtain rfl := Option.some.inj here
    rw [tls,Option.isNone_iff_eq_none,← Option.not_isSome_iff_eq_none,same,Option.not_isSome_iff_eq_none]

theorem connections_keep_their_configuration_sample : ∃ (state : State (List UInt8) Unit) (session : Session (List UInt8) Unit),
    Reachable serverRegistry state ∧ session ∈ state.workers ∧ session.generation.config ≠ state.live.config ∧ ∃ listener ∈ trafficListeners session.generation.config.toConfig,
      parseSocketAddr listener.address = some serverAddress ∧ session.tls.isSome = listener.tls.isSome := by
  obtain ⟨state,session,reached,serving,-,here,configured,live⟩ := serving_reached
  have held : session ∈ state.sessions := List.mem_append_left _ (by rw [serving]; exact List.mem_singleton_self _)
  obtain ⟨⟨_,-,-,listener,among,parsed,-,same,-⟩,-⟩ := connections_keep_their_configuration (by decide) reached held
  refine ⟨state,session,reached,by rw [serving]; exact List.mem_singleton_self _,?_,listener,among,by rw [parsed,here],same⟩
  rw [configured,live]
  decide

/-- A reload replaces the live generation as a whole or leaves everything as it is: what is live was checked for the listeners
of the start, its limit is in force, and it has the client of the one before when it keeps the settings of the service. -/
theorem reloads_are_whole (reached : Reachable registry state) :
    (∃ (loading : Loading Key Client) (first : Generation Key Client), startGeneration registry loading = some (first,state.management) ∧
      state.bound = first.tls.map Prod.fst) ∧
    Configured registry state.bound state.management state.live ∧
    state.bodyLimit = inflightLimit (state.main.governing state.live) ∧
    (∀ event next, Step registry state event next → next.live ≠ state.live → event = .publish ∧ state.main = .publishing next.live) ∧
    ∀ loading next, Step registry state (.reload loading) next → next = state ∨
      ∃ generation, next = { state with bodyLimit := inflightLimit generation, main := .publishing generation } ∧
        Configured registry state.bound state.management generation ∧
        (generation.config.settings = state.live.config.settings → state.live.polyform.isSome →
          generation.polyform = state.live.polyform) := by
  have sound := reachable_sound reached
  refine ⟨reachable_started reached,sound.live,sound.bodyLimit,?_,?_⟩
  · intro event next step changed
    cases step with
    | publish phase => exact ⟨rfl,phase⟩
    | _ => exact absurd rfl changed
  · intro loading next step
    cases step with
    | reloadFails phase failed => exact .inl rfl
    | @reload _ generation phase built =>
      exact .inr ⟨generation,rfl,reloadGeneration_configured built,reloadGeneration_client built⟩

theorem reloads_are_whole_sample : ∃ state : State (List UInt8) Unit, Reachable serverRegistry state ∧
    state.bodyLimit = 268435456 := by
  obtain ⟨state,session,reached,-,polling,-,-,live⟩ := serving_reached
  refine ⟨state,reached,?_⟩
  rw [(reloads_are_whole reached).2.2.1,polling]
  change state.live.config.limits.maxInflightBodyBytes = 268435456
  rw [live]
  rfl

end Results
end Polyguard.Proxy.Server
