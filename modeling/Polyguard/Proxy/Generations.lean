import Polyguard.Proxy.ServerNames
import Polyguard.Proxy.Validated
import Polyguard.Polyform.Selection

/-! The generations of the configuration.
A start and each reload take a configuration, check it, read its certificates and build what
requests are served with. A reload publishes the new generation as a whole or not at all, and
only for the listeners that were bound at the start. What is read from the file system and
from the composition service is a parameter. -/
namespace Polyguard.Proxy
open Ascii

section Loading
variable {Key Client Operation : Type}

/-- A configuration with the settings of the composition service that its checks do not read. -/
structure LoadedConfig extends Config where
  required : Bool
  reportTelemetry : Bool
deriving DecidableEq, Repr

def LoadedConfig.settings (config : LoadedConfig) : Option (PolyformConfig × Bool × Bool) :=
  config.polyform.map (·,config.required,config.reportTelemetry)

/-- What a start or a reload reads: the configuration, the file system, the certificates and the service. -/
structure Loading (Key Client : Type) where
  source : Option LoadedConfig
  isDirectory : List UInt8 → Bool
  canonicalize : List UInt8 → Option (List UInt8)
  certificate : List UInt8 → List UInt8 → Option Key
  register : PolyformConfig → Option Client
  composition : Client → String → Option String

/-- The TLS settings by the addresses of the listeners, the last one that was inserted first. -/
abbrev ListenerTls (Key : Type) := List (SocketAddr × Option (ServerNameResolver Key))

def loadTlsConfig (certificate : List UInt8 → List UInt8 → Option Key) : Option TlsConfig → Option (Option (ServerNameResolver Key))
  | none => some none
  | some settings => (loadResolver certificate settings).map some

def trafficListeners (config : Config) : List AdditionalListenerConfig :=
  ⟨config.listener.address,config.listener.tls⟩ :: config.listeners

def insertListenerTls (certificate : List UInt8 → List UInt8 → Option Key) (tls : ListenerTls Key)
    (listener : AdditionalListenerConfig) : Option (ListenerTls Key) := do
  let address ← parseSocketAddr listener.address
  let settings ← loadTlsConfig certificate listener.tls
  return (address,settings) :: tls

def loadListenerTls (certificate : List UInt8 → List UInt8 → Option Key) (config : Config) : Option (ListenerTls Key) :=
  (trafficListeners config).foldlM (insertListenerTls certificate) []

def managementAddress (config : Config) : Option (Option SocketAddr) := config.listener.managementAddress.mapM parseSocketAddr

def validated (loading : Loading Key Client) (config : LoadedConfig) : Option Unit :=
  (validateConfig loading.isDirectory config.toConfig).toOption

/-- The client of the service. A registration that fails is an error only where it is required. -/
def initializePolyform (loading : Loading Key Client) (config : LoadedConfig) : Option (Option Client) :=
  match config.polyform with
  | none => some none
  | some settings =>
    match loading.register settings with
    | some client => some (some client)
    | none => if config.required then none else some none

/-- The runtime and the TLS settings that are published together. -/
structure Generation (Key Client : Type) where
  config : LoadedConfig
  agreement : Agreement
  upstreams : List (List UInt8 × SocketAddr)
  routes : List RuntimeRoute
  polyform : Option Client
  tls : ListenerTls Key

/-- Every function has as many selected implementations as the width. -/
def isComplete (registry : List (Implementation Operation)) (agreement : Agreement) : Bool :=
  Polyform.specFunctions.all fun function => (agreement.selectedIds registry function).length == agreement.width

variable (registry : List (Implementation Operation)) (loading : Loading Key Client)

def buildRuntime (config : LoadedConfig) (polyform : Option Client) (tls : ListenerTls Key) : Option (Generation Key Client) := do
  validated loading config
  let agreement : Agreement := ⟨config.listener.agreementImplementations,config.listener.quarantinedImplementations,
    fun function => polyform.bind fun client => loading.composition client function⟩
  guard (isComplete registry agreement)
  let upstreams ← config.upstreams.mapM fun upstream => (parseSocketAddr upstream.address).map (upstream.name,·)
  let routes ← compileRuntimeRoutes loading.canonicalize config.toConfig
  return ⟨config,agreement,upstreams,routes,polyform,tls⟩

/-- The first generation, with the address of the management listener. -/
def startGeneration : Option (Generation Key Client × Option SocketAddr) := do
  let config ← loading.source
  validated loading config
  let management ← managementAddress config.toConfig
  let tls ← loadListenerTls loading.certificate config.toConfig
  let polyform ← initializePolyform loading config
  let generation ← buildRuntime registry loading config polyform tls
  return (generation,management)

/-- Sets of addresses, listed in any order. -/
def sameAddresses (left right : List SocketAddr) : Bool := left.all right.contains && right.all left.contains

/-- The client of the live generation is kept while its settings are. -/
def reloadPolyform (live : Generation Key Client) (config : LoadedConfig) : Option (Option Client) :=
  if config.settings = live.config.settings ∧ live.polyform.isSome then some live.polyform else initializePolyform loading config

/-- The generation that a reload publishes. -/
def reloadGeneration (bound : List SocketAddr) (management : Option SocketAddr) (live : Generation Key Client) :
    Option (Generation Key Client) := do
  let config ← loading.source
  validated loading config
  let newManagement ← managementAddress config.toConfig
  guard (newManagement = management)
  let tls ← loadListenerTls loading.certificate config.toConfig
  guard (sameAddresses bound (tls.map Prod.fst))
  let polyform ← reloadPolyform loading live config
  buildRuntime registry loading config polyform tls

end Loading

section Listeners
variable {Key : Type} {certificate : List UInt8 → List UInt8 → Option Key}

theorem requireSocketAddr_ok {text message : List UInt8} {address : SocketAddr} (ok : requireSocketAddr text message = .ok address) :
    parseSocketAddr text = some address := by
  unfold requireSocketAddr at ok
  split at ok
  · rename_i parsed
    cases ok
    exact parsed
  · cases ok

/-- Listeners at distinct socket addresses. -/
def DistinctListeners (listeners : List AdditionalListenerConfig) : Prop :=
  ∃ addresses : List SocketAddr, addresses.Nodup ∧
    List.Forall₂ (fun listener address => parseSocketAddr listener.address = some address) listeners addresses

/-- The round of `validate_config` for a further listener. -/
theorem listenersLoop_distinct {step : List SocketAddr → AdditionalListenerConfig × Nat → Validation (List SocketAddr)}
    (adds : ∀ before entry after, step before entry = .ok after →
      ∃ address, parseSocketAddr entry.1.address = some address ∧ address ∉ before ∧ after = address :: before)
    {listeners : List AdditionalListenerConfig} {start : Nat} {before after : List SocketAddr} (distinct : before.Nodup)
    (ok : (listeners.zipIdx start).foldlM step before = .ok after) :
    ∃ addresses, List.Forall₂ (fun listener address => parseSocketAddr listener.address = some address) listeners addresses ∧
      after = addresses.reverse ++ before ∧ after.Nodup := by
  induction listeners generalizing start before with
  | nil =>
    cases ok
    exact ⟨[],.nil,rfl,distinct⟩
  | cons listener listeners ih =>
    rw [List.zipIdx_cons,List.foldlM_cons] at ok
    obtain ⟨next,added,ok⟩ := validation_bind ok
    obtain ⟨address,parsed,fresh,rfl⟩ := adds _ _ _ added
    obtain ⟨addresses,others,rfl,apart⟩ := ih (List.nodup_cons.mpr ⟨fresh,distinct⟩) ok
    refine ⟨address :: addresses,.cons parsed others,by simp,apart⟩

theorem validateListeners_distinct {config : Config} (ok : validateListeners config = .ok ()) :
    DistinctListeners (trafficListeners config) := by
  unfold validateListeners at ok
  obtain ⟨address,parsed,ok⟩ := validation_bind ok
  obtain ⟨management,-,ok⟩ := validation_bind ok
  obtain ⟨_,-,ok⟩ := validation_bind ok
  obtain ⟨_,-,ok⟩ := validation_bind ok
  obtain ⟨_,-,ok⟩ := validation_bind ok
  obtain ⟨after,looped,-⟩ := validation_bind ok
  obtain ⟨addresses,others,rfl,apart⟩ := listenersLoop_distinct (by
    intro before entry after round
    obtain ⟨listener,index⟩ := entry
    obtain ⟨found,foundAs,round⟩ := validation_bind round
    obtain ⟨_,fresh,round⟩ := validation_bind round
    obtain ⟨_,-,round⟩ := validation_bind round
    obtain ⟨_,-,round⟩ := validation_bind round
    cases round
    have absent := require_holds fresh
    rw [Bool.not_eq_true',List.contains_eq_mem,decide_eq_false_iff_not] at absent
    exact ⟨found,requireSocketAddr_ok foundAs,absent,rfl⟩) (List.nodup_singleton address) looped
  refine ⟨address :: addresses,?_,.cons (requireSocketAddr_ok parsed) others⟩
  rw [← List.nodup_reverse]
  simpa using apart

theorem insertListenerTls_entries {listeners : List AdditionalListenerConfig} {before after : ListenerTls Key}
    (ran : listeners.foldlM (insertListenerTls certificate) before = some after) : ∃ entries : ListenerTls Key,
      List.Forall₂ (fun listener entry => parseSocketAddr listener.address = some entry.1 ∧
        loadTlsConfig certificate listener.tls = some entry.2) listeners entries ∧ after = entries.reverse ++ before := by
  induction listeners generalizing before with
  | nil =>
    cases ran
    exact ⟨[],.nil,rfl⟩
  | cons listener listeners ih =>
    rw [List.foldlM_cons,Option.bind_eq_bind,Option.bind_eq_some_iff] at ran
    obtain ⟨next,added,ran⟩ := ran
    simp only [insertListenerTls,Option.bind_eq_bind,Option.bind_eq_some_iff] at added
    obtain ⟨address,parsed,settings,loaded,made⟩ := added
    cases made
    obtain ⟨entries,others,rfl⟩ := ih ran
    exact ⟨(address,settings) :: entries,.cons ⟨parsed,loaded⟩ others,by simp⟩

theorem listenerTls_keys {listeners : List AdditionalListenerConfig} {entries : ListenerTls Key} {addresses : List SocketAddr}
    (made : List.Forall₂ (fun listener entry => parseSocketAddr listener.address = some entry.1 ∧
      loadTlsConfig certificate listener.tls = some entry.2) listeners entries)
    (parsed : List.Forall₂ (fun listener address => parseSocketAddr listener.address = some address) listeners addresses) :
    entries.map Prod.fst = addresses := by
  induction made generalizing addresses with
  | nil =>
    cases parsed
    rfl
  | cons first _ ih =>
    cases parsed with
    | cons address others =>
      rw [List.map_cons,ih others,Option.some.inj (first.1.symm.trans address)]

theorem loadListenerTls_found {config : Config} (ok : validateListeners config = .ok ()) {tls : ListenerTls Key}
    (loaded : loadListenerTls certificate config = some tls) {address : SocketAddr} (listed : address ∈ tls.map Prod.fst) :
    ∃ listener ∈ trafficListeners config, parseSocketAddr listener.address = some address ∧
      ∃ settings, loadTlsConfig certificate listener.tls = some settings ∧ Ledger.find address tls = some settings := by
  obtain ⟨entries,made,rfl⟩ := insertListenerTls_entries loaded
  obtain ⟨addresses,distinct,parsed⟩ := validateListeners_distinct ok
  have keys := listenerTls_keys made parsed
  rw [List.append_nil,List.map_reverse,List.mem_reverse,List.mem_map] at listed
  obtain ⟨entry,member,rfl⟩ := listed
  obtain ⟨index,inside,rfl⟩ := List.getElem_of_mem member
  have short := made.length_eq
  have here := List.Forall₂.get made (by omega) inside
  refine ⟨_,List.getElem_mem (by omega),here.1,_,here.2,?_⟩
  rw [List.append_nil,Ledger.find_iff_mem (by rw [List.map_reverse,List.nodup_reverse,keys]; exact distinct),List.mem_reverse]
  exact List.getElem_mem inside

theorem loadTlsConfig_some {tls : Option TlsConfig} {settings : Option (ServerNameResolver Key)}
    (loaded : loadTlsConfig certificate tls = some settings) : settings.isSome = tls.isSome := by
  cases tls with
  | none =>
    cases loaded
    rfl
  | some given =>
    obtain ⟨resolver,-,rfl⟩ := Option.map_eq_some_iff.mp loaded
    rfl

end Listeners

section Configured
variable {Key Client Operation : Type} {registry : List (Implementation Operation)} {loading : Loading Key Client}
  {generation live : Generation Key Client} {management : Option SocketAddr} {bound : List SocketAddr}

/-- A generation that was built out of one loading, for these listeners. -/
structure Configured (registry : List (Implementation Operation)) (bound : List SocketAddr) (management : Option SocketAddr)
    (generation : Generation Key Client) : Prop where
  loaded : ∃ loading : Loading Key Client, loading.source = some generation.config ∧
    loadListenerTls loading.certificate generation.config.toConfig = some generation.tls ∧
    buildRuntime registry loading generation.config generation.polyform generation.tls = some generation
  bound : ∀ address, address ∈ bound ↔ address ∈ generation.tls.map Prod.fst
  management : managementAddress generation.config.toConfig = some management

theorem validated_some {config : LoadedConfig} {done : Unit} (ran : validated loading config = some done) :
    validateConfig loading.isDirectory config.toConfig = .ok () := by
  unfold validated at ran
  cases checked : validateConfig loading.isDirectory config.toConfig with
  | ok _ => rfl
  | error message =>
    rw [checked] at ran
    cases ran

theorem guard_some {holds : Prop} [Decidable holds] {done : Unit} (ran : (guard holds : Option Unit) = some done) : holds := by
  unfold guard at ran
  split at ran
  · rename_i given
    exact given
  · cases ran

theorem buildRuntime_some {config : LoadedConfig} {polyform : Option Client} {tls : ListenerTls Key}
    (built : buildRuntime registry loading config polyform tls = some generation) :
    validateConfig loading.isDirectory config.toConfig = .ok () ∧ generation.config = config ∧ generation.tls = tls ∧
      generation.polyform = polyform ∧ compileRuntimeRoutes loading.canonicalize config.toConfig = some generation.routes ∧
      generation.agreement.width = config.listener.agreementImplementations ∧ isComplete registry generation.agreement := by
  simp only [buildRuntime,Option.bind_eq_bind,Option.bind_eq_some_iff] at built
  obtain ⟨_,checked,_,complete,upstreams,-,routes,compiled,made⟩ := built
  cases made
  exact ⟨validated_some checked,rfl,rfl,rfl,compiled,rfl,guard_some complete⟩

theorem startGeneration_configured (started : startGeneration registry loading = some (generation,management)) :
    Configured registry (generation.tls.map Prod.fst) management generation := by
  simp only [startGeneration,Option.bind_eq_bind,Option.bind_eq_some_iff] at started
  obtain ⟨config,given,_,-,found,address,tls,listeners,polyform,-,made,built,rest⟩ := started
  cases rest
  obtain ⟨-,rfl,rfl,rfl,-⟩ := buildRuntime_some built
  exact ⟨⟨loading,given,listeners,built⟩,fun _ => Iff.rfl,address⟩

theorem sameAddresses_iff {left right : List SocketAddr} (same : sameAddresses left right) (address : SocketAddr) :
    address ∈ left ↔ address ∈ right := by
  simp only [sameAddresses,Bool.and_eq_true,List.all_eq_true,List.contains_iff_mem] at same
  exact ⟨same.1 address,same.2 address⟩

theorem reloadGeneration_configured (reloaded : reloadGeneration registry loading bound management live = some generation) :
    Configured registry bound management generation := by
  simp only [reloadGeneration,Option.bind_eq_bind,Option.bind_eq_some_iff] at reloaded
  obtain ⟨config,given,_,-,found,address,_,kept,tls,listeners,_,same,polyform,-,built⟩ := reloaded
  obtain rfl := guard_some kept
  obtain ⟨-,rfl,rfl,rfl,-⟩ := buildRuntime_some built
  exact ⟨⟨loading,given,listeners,built⟩,sameAddresses_iff (guard_some same),address⟩

theorem reloadGeneration_client (reloaded : reloadGeneration registry loading bound management live = some generation)
    (kept : generation.config.settings = live.config.settings) (registered : live.polyform.isSome) :
    generation.polyform = live.polyform := by
  simp only [reloadGeneration,Option.bind_eq_bind,Option.bind_eq_some_iff] at reloaded
  obtain ⟨config,-,_,-,_,-,_,-,tls,-,_,-,polyform,chosen,built⟩ := reloaded
  obtain ⟨-,rfl,-,same,-⟩ := buildRuntime_some built
  rw [reloadPolyform,if_pos ⟨kept,registered⟩] at chosen
  exact same.trans (Option.some.inj chosen).symm

theorem validateConfig_bounds {isDirectory : List UInt8 → Bool} {config : Config} (ok : validateConfig isDirectory config = .ok ()) :
    validateListeners config = .ok () ∧ 2 ≤ config.listener.agreementImplementations ∧
      1 ≤ config.listener.maxConnections ∧ config.listener.maxConnections ≤ 1024 := by
  unfold validateConfig at ok
  obtain ⟨_,listeners,ok⟩ := validation_bind ok
  obtain ⟨_,width,ok⟩ := validation_bind ok
  obtain ⟨_,connections,-⟩ := validation_bind ok
  have sets := require_holds width
  have capacity := require_holds connections
  simp only [Bool.and_eq_true,bne_iff_ne,decide_eq_true_eq] at sets capacity
  exact ⟨listeners,sets.1,Nat.one_le_iff_ne_zero.mpr capacity.1,capacity.2⟩

theorem Configured.listener (configured : Configured registry bound management generation) {address : SocketAddr} (listens : address ∈ bound) :
    ∃ loading : Loading Key Client, loading.source = some generation.config ∧
      buildRuntime registry loading generation.config generation.polyform generation.tls = some generation ∧
      ∃ listener ∈ trafficListeners generation.config.toConfig, parseSocketAddr listener.address = some address ∧
        ∃ settings, Ledger.find address generation.tls = some settings ∧ settings.isSome = listener.tls.isSome ∧
          loadTlsConfig loading.certificate listener.tls = some settings := by
  obtain ⟨loading,given,loaded,built⟩ := configured.loaded
  obtain ⟨listeners,-⟩ := validateConfig_bounds (buildRuntime_some built).1
  obtain ⟨listener,among,parsed,settings,made,found⟩ := loadListenerTls_found listeners loaded ((configured.bound address).mp listens)
  exact ⟨loading,given,built,listener,among,parsed,settings,found,loadTlsConfig_some made,made⟩

theorem Configured.capacity (configured : Configured registry bound management generation) :
    1 ≤ generation.config.listener.maxConnections ∧ generation.config.listener.maxConnections ≤ 1024 := by
  obtain ⟨loading,-,-,built⟩ := configured.loaded
  exact (validateConfig_bounds (buildRuntime_some built).1).2.2

theorem Configured.stays_complete (configured : Configured registry bound management generation)
    (unique : (registry.map (·.id)).Nodup) (primary : String → Option String) :
    isComplete registry (generation.agreement.updatePrimary primary) := by
  obtain ⟨loading,-,-,built⟩ := configured.loaded
  obtain ⟨valid,-,-,-,-,width,complete⟩ := buildRuntime_some built
  have positive : 1 ≤ generation.agreement.width := by
    rw [width]
    exact Nat.le_of_succ_le (validateConfig_bounds valid).2.1
  simp only [isComplete,List.all_eq_true,beq_iff_eq] at complete ⊢
  intro function spec
  exact (Agreement.updates_length generation.agreement unique positive function [primary]).trans (complete function spec)

end Configured
end Polyguard.Proxy
