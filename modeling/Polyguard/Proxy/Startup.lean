import Polyguard.Proxy.Server

/-! A configuration that was accepted starts.
The checks of a configuration parse every address and every network and look at every
directory, and the building parses them again and takes for granted that this works. It does:
a start fails for reasons only that the source reports, among them a socket that the machine
does not give, and every upstream that a compiled route names has its address. -/
namespace Polyguard.Proxy
open Ascii

section Binding
variable {Key Client Operation : Type}

/-- What a machine gives to a start: whether an address can be bound beside those that are bound, and a thread. -/
structure Host where
  binds : List SocketAddr → SocketAddr → Bool
  spawns : Bool

/-- Version 4 comes first, then the parts of the address, the port and the scope decide. -/
def SocketAddr.key (address : SocketAddr) : List Nat :=
  match address.ip with
  | .v4 octets => 0 :: octets ++ [address.port]
  | .v6 segments => 1 :: segments ++ [address.port,address.scopeId]

/-- Addresses in the order of the map of the listeners. -/
def inOrder (addresses : List SocketAddr) : List SocketAddr :=
  addresses.insertionSort fun left right => left.key ≤ right.key

/-- The addresses are bound one after the other, behind those that are bound already. -/
def bindListeners (host : Host) : List SocketAddr → List SocketAddr → Option (List SocketAddr)
  | bound,[] => some bound
  | bound,address :: later => if host.binds bound address then bindListeners host (bound ++ [address]) later else none

/-- The server behind its start: the first generation, with the sockets of its listeners and of the management. -/
def startServer (registry : List (Implementation Operation)) (loading : Loading Key Client) (host : Host) :
    Option (Server.State Key Client) := do
  let (generation,management) ← startGeneration registry loading
  let bound ← bindListeners host [] (inOrder (generation.tls.map Prod.fst).reverse)
  let _ ← bindListeners host bound management.toList
  guard (management.isSome → host.spawns)
  return Server.initial generation management

/-- Each address can be bound beside those in front of it. -/
def Bindable (host : Host) (addresses : List SocketAddr) : Prop :=
  ∀ front address back, addresses = front ++ address :: back → host.binds front address

/-- The sockets of a configuration in the order in which they are bound, the management last. -/
def sockets (config : Config) : List SocketAddr :=
  inOrder ((trafficListeners config).filterMap fun listener => parseSocketAddr listener.address) ++
    (config.listener.managementAddress.bind parseSocketAddr).toList

/-- What a configuration asks of the machine: its sockets, and a thread for the management. -/
structure Hosted (host : Host) (config : Config) : Prop where
  bindable : Bindable host (sockets config)
  spawns : config.listener.managementAddress.isSome → host.spawns

theorem bindListeners_iff {host : Host} {bound addresses after : List SocketAddr} : bindListeners host bound addresses = some after ↔
    after = bound ++ addresses ∧ ∀ front address back, addresses = front ++ address :: back → host.binds (bound ++ front) address := by
  induction addresses generalizing bound with
  | nil =>
    rw [bindListeners,Option.some.injEq,List.append_nil]
    exact ⟨fun same => ⟨same.symm,by simp⟩,fun both => both.1.symm⟩
  | cons address later ih =>
    rw [bindListeners]
    split
    · rename_i given
      rw [ih,List.append_assoc]
      apply and_congr_right
      intro _
      constructor
      · intro each front other back same
        cases front with
        | nil =>
          obtain ⟨rfl,-⟩ := List.cons.inj same
          rwa [List.append_nil]
        | cons first front =>
          obtain ⟨rfl,rest⟩ := List.cons.inj same
          have held := each front other back rest
          rwa [List.append_assoc] at held
      · intro each front other back same
        rw [List.append_assoc]
        exact each (address :: front) other back (congrArg (address :: ·) same)
    · rename_i refused
      constructor
      · intro none
        cases none
      · rintro ⟨-,each⟩
        have first := each [] address later rfl
        rw [List.append_nil] at first
        exact absurd first refused

theorem bindListeners_append (host : Host) (bound front back : List SocketAddr) :
    ((bindListeners host bound front).bind fun after => bindListeners host after back) = bindListeners host bound (front ++ back) := by
  induction front generalizing bound with
  | nil => rfl
  | cons address front ih =>
    rw [bindListeners,List.cons_append,bindListeners]
    split
    · exact ih _
    · rfl

end Binding

section Parsed

theorem mapM_isSome {α β : Type} {f : α → Option β} {items : List α} (each : ∀ item ∈ items, (f item).isSome) :
    (items.mapM f).isSome := by
  induction items with
  | nil => rfl
  | cons item items ih =>
    obtain ⟨first,rest⟩ := List.forall_mem_cons.mp each
    obtain ⟨result,here⟩ := Option.isSome_iff_exists.mp first
    obtain ⟨results,later⟩ := Option.isSome_iff_exists.mp (ih rest)
    rw [List.mapM_cons,here,later]
    rfl

variable {config : Config}

theorem validateListeners_parsed (ok : validateListeners config = .ok ()) :
    ∀ listener ∈ trafficListeners config, (parseSocketAddr listener.address).isSome := by
  obtain ⟨addresses,-,parsed⟩ := validateListeners_distinct ok
  have sized := parsed.length_eq
  intro listener member
  obtain ⟨index,inside,rfl⟩ := List.getElem_of_mem member
  exact Option.isSome_iff_exists.mpr ⟨_,parsed.get inside (by omega)⟩

theorem validateListeners_management (ok : validateListeners config = .ok ()) : (managementAddress config).isSome := by
  unfold validateListeners at ok
  obtain ⟨_,-,ok⟩ := validation_bind ok
  obtain ⟨management,parsed,-⟩ := validation_bind ok
  unfold managementAddress
  cases given : config.listener.managementAddress with
  | none => rfl
  | some text =>
    rw [given] at parsed
    cases found : parseSocketAddr text with
    | some address =>
      rw [Option.mapM_some,found]
      rfl
    | none =>
      rw [Option.mapM_some,requireSocketAddr,found] at parsed
      cases parsed

theorem validateUpstreams_parsed {upstreams : List UpstreamConfig} {names : List (List UInt8)} (ok : validateUpstreams upstreams = .ok names) :
    (∀ upstream ∈ upstreams, (parseSocketAddr upstream.address).isSome) ∧ (upstreams.map (·.name)).Nodup ∧
      ∀ name, name ∈ names ↔ name ∈ upstreams.map (·.name) := by
  have loop (before after : List (List UInt8)) (apart : before.Nodup) (ok : upstreams.foldlM (fun names upstream => do
      validateIdentifier (ascii "upstream name") upstream.name
      require (!names.contains upstream.name) (ascii "duplicate upstream " ++ upstream.name)
      let _ ← requireSocketAddr upstream.address
        (ascii "upstream " ++ upstream.name ++ ascii " address must be a literal socket address")
      return upstream.name :: names) before = .ok after) :
      (∀ upstream ∈ upstreams, (parseSocketAddr upstream.address).isSome) ∧ after = (upstreams.map (·.name)).reverse ++ before ∧
        after.Nodup := by
    clear * - apart ok
    induction upstreams generalizing before with
    | nil =>
      cases ok
      exact ⟨by simp,rfl,apart⟩
    | cons upstream upstreams ih =>
      rw [List.foldlM_cons] at ok
      obtain ⟨next,here,ok⟩ := validation_bind ok
      obtain ⟨_,-,here⟩ := validation_bind here
      obtain ⟨_,fresh,here⟩ := validation_bind here
      obtain ⟨address,parsed,here⟩ := validation_bind here
      cases here
      have absent := require_holds fresh
      rw [Bool.not_eq_true',List.contains_eq_mem,decide_eq_false_iff_not] at absent
      obtain ⟨others,rfl,distinct⟩ := ih _ (List.nodup_cons.mpr ⟨absent,apart⟩) ok
      refine ⟨List.forall_mem_cons.mpr ⟨Option.isSome_iff_exists.mpr ⟨address,requireSocketAddr_ok parsed⟩,others⟩,?_,distinct⟩
      rw [List.map_cons,List.reverse_cons,List.append_assoc]
      rfl
  obtain ⟨parsed,rfl,distinct⟩ := loop [] names .nil ok
  rw [List.append_nil] at distinct ⊢
  exact ⟨parsed,List.nodup_reverse.mp distinct,fun name => List.mem_reverse⟩

end Parsed

section Routes
variable {isDirectory : List UInt8 → Bool} {canonicalize : List UInt8 → Option (List UInt8)} {config : Config}

/-- What the checks leave for the building of a configuration. -/
structure Buildable (isDirectory : List UInt8 → Bool) (config : Config) (upstreams : List (List UInt8)) : Prop where
  listeners : validateListeners config = .ok ()
  width : 2 ≤ config.listener.agreementImplementations
  gathered : validateUpstreams config.upstreams = .ok upstreams
  routes : ∀ route ∈ config.routes, route.upstream ∈ upstreams
  sites : ∀ site ∈ config.sites, AcceptedSite isDirectory upstreams site
  deny : ∀ site ∈ config.sites, ∀ network ∈ site.deny, (IpNetwork.parse network).isSome

theorem validateSite_deny {limits : ConfiguredLimits} {upstreams names after : List (List UInt8)} {entry : SiteConfig × Nat}
    (ok : validateSite isDirectory limits upstreams names entry = .ok after) :
    ∀ network ∈ entry.1.deny, (IpNetwork.parse network).isSome := by
  obtain ⟨site,index⟩ := entry
  obtain ⟨_,-,ok⟩ := validation_bind ok
  obtain ⟨_,-,ok⟩ := validation_bind ok
  obtain ⟨_,-,ok⟩ := validation_bind ok
  obtain ⟨_,-,ok⟩ := validation_bind ok
  obtain ⟨_,denied,-⟩ := validation_bind ok
  exact validateDeny_parses denied

theorem validateConfig_buildable (valid : validateConfig isDirectory config = .ok ()) :
    ∃ upstreams, Buildable isDirectory config upstreams := by
  obtain ⟨listeners,width,-⟩ := validateConfig_bounds valid
  obtain ⟨_,-,valid⟩ := validation_bind valid
  obtain ⟨_,-,valid⟩ := validation_bind valid
  obtain ⟨_,-,valid⟩ := validation_bind valid
  obtain ⟨_,-,valid⟩ := validation_bind valid
  obtain ⟨_,-,valid⟩ := validation_bind valid
  obtain ⟨_,-,valid⟩ := validation_bind valid
  obtain ⟨upstreams,gathered,valid⟩ := validation_bind valid
  obtain ⟨_,-,valid⟩ := validation_bind valid
  obtain ⟨_,routes,valid⟩ := validation_bind valid
  obtain ⟨_,sites,-⟩ := validation_bind valid
  have each : ∀ site ∈ config.sites, AcceptedSite isDirectory upstreams site ∧ ∀ network ∈ site.deny, (IpNetwork.parse network).isSome := by
    intro site member
    obtain ⟨index,entry⟩ := indexed_mem member
    obtain ⟨before,next,ok⟩ := foldlM_ok sites _ entry
    exact ⟨validateSite_ok ok,validateSite_deny ok⟩
  refine ⟨upstreams,listeners,width,gathered,?_,fun site member => (each site member).1,fun site member => (each site member).2⟩
  intro route member
  exact List.contains_iff_mem.mp (require_holds (forM_ok routes route member))

variable {upstreams : List (List UInt8)}

theorem runtimeAction_isSome (roots : ∀ directory, isDirectory directory → (canonicalize directory).isSome) {label : List UInt8}
    {action : RouteActionConfig} (ok : validateAction isDirectory upstreams label action = .ok ()) :
    (runtimeAction canonicalize action).isSome := by
  cases action with
  | files directory mapping index tryFiles errorPage =>
    obtain ⟨_,exists',-⟩ := validation_bind ok
    have found := require_holds exists'
    rw [Bool.and_eq_true] at found
    rw [runtimeAction,Option.isSome_map]
    exact roots directory found.2
  | _ => rfl

theorem siteRoute_isSome (roots : ∀ directory, isDirectory directory → (canonicalize directory).isSome)
    (buildable : Buildable isDirectory config upstreams) {site : SiteConfig} (listed : site ∈ config.sites) (name : List UInt8)
    {route : ActionRouteConfig} (member : route ∈ site.routes) : (siteRoute canonicalize config.limits site name route).isSome := by
  have accepted := (buildable.sites site listed).routes route member
  obtain ⟨label,action⟩ := accepted.action
  obtain ⟨denied,first⟩ := Option.isSome_iff_exists.mp (mapM_isSome (buildable.deny site listed))
  obtain ⟨others,second⟩ := Option.isSome_iff_exists.mp (mapM_isSome accepted.deny)
  obtain ⟨done,third⟩ := Option.isSome_iff_exists.mp (runtimeAction_isSome roots action)
  unfold siteRoute
  rw [first,second,third]
  rfl

theorem compileRuntimeRoutes_isSome (roots : ∀ directory, isDirectory directory → (canonicalize directory).isSome)
    (buildable : Buildable isDirectory config upstreams) : (compileRuntimeRoutes canonicalize config).isSome := by
  have made : (config.sites.mapM (siteRoutes canonicalize config.limits)).isSome := by
    apply mapM_isSome
    intro site listed
    apply mapM_isSome
    intro entry among
    obtain ⟨name,-,paired⟩ := List.mem_flatMap.mp among
    obtain ⟨route,member,rfl⟩ := List.mem_map.mp paired
    exact siteRoute_isSome roots buildable listed name member
  obtain ⟨sites,compiled⟩ := Option.isSome_iff_exists.mp made
  unfold compileRuntimeRoutes
  rw [compiled]
  rfl

theorem compiled_upstream (buildable : Buildable isDirectory config upstreams) {routes : List RuntimeRoute}
    (compiled : compileRuntimeRoutes canonicalize config = some routes) {route : RuntimeRoute} (listed : route ∈ routes)
    {upstream : List UInt8} {replaces hostHeader : Option (List UInt8)} (action : route.action = .proxy upstream replaces hostHeader) :
    upstream ∈ upstreams := by
  unfold compileRuntimeRoutes at compiled
  cases made : config.sites.mapM (siteRoutes canonicalize config.limits) with
  | none =>
    rw [made] at compiled
    cases compiled
  | some parts =>
    rw [made] at compiled
    cases compiled
    obtain ⟨⟨draft,order⟩,among,rfl⟩ := List.mem_map.mp listed
    have drafted := List.fst_mem_of_mem_zipIdx among
    rcases List.mem_append.mp drafted with legacy | sited
    · obtain ⟨given,member,made⟩ := List.mem_map.mp legacy
      dsimp only at made action
      rw [← made] at action
      cases action
      exact buildable.routes given member
    · obtain ⟨source,from',read⟩ := siteRoutes_source made _ sited
      obtain ⟨site,listed,names⟩ := List.mem_flatMap.mp from'
      obtain ⟨name,-,paired⟩ := List.mem_flatMap.mp names
      obtain ⟨given,member,rfl⟩ := List.mem_map.mp paired
      obtain ⟨label,checked⟩ := ((buildable.sites site listed).routes given member).action
      simp only [siteRoute,Option.bind_eq_bind,Option.bind_eq_some_iff] at read
      obtain ⟨_,-,_,-,done,runs,made⟩ := read
      dsimp only at action made
      rw [← Option.some.inj made] at action
      have same : done = .proxy upstream replaces hostHeader := action
      cases given' : given.action with
      | proxy other prefix' host =>
        rw [given'] at runs checked
        cases runs
        cases same
        obtain ⟨_,known,-⟩ := validation_bind checked
        exact List.contains_iff_mem.mp (require_holds known)
      | files directory mapping index tryFiles errorPage =>
        rw [given',runtimeAction,Option.map_eq_some_iff] at runs
        obtain ⟨_,-,other⟩ := runs
        rw [← other] at same
        cases same
      | redirect status location =>
        rw [given'] at runs
        cases runs
        cases same
      | respond status body contentType =>
        rw [given'] at runs
        cases runs
        cases same

end Routes

section Starts
variable {Key Client Operation : Type} {registry : List (Implementation Operation)} {loading : Loading Key Client}

theorem loadListenerTls_isSome {config : Config} (parsed : ∀ listener ∈ trafficListeners config, (parseSocketAddr listener.address).isSome) :
    (loadListenerTls loading.certificate config).isSome ↔
      ∀ listener ∈ trafficListeners config, (loadTlsConfig loading.certificate listener.tls).isSome := by
  unfold loadListenerTls
  generalize ([] : ListenerTls Key) = before
  generalize trafficListeners config = listeners at parsed ⊢
  induction listeners generalizing before with
  | nil => simp
  | cons listener listeners ih =>
    obtain ⟨here,others⟩ := List.forall_mem_cons.mp parsed
    obtain ⟨address,found⟩ := Option.isSome_iff_exists.mp here
    rw [List.foldlM_cons,insertListenerTls,found,List.forall_mem_cons]
    cases loadTlsConfig loading.certificate listener.tls with
    | none => simp
    | some settings =>
      simp only [Option.isSome_some,true_and]
      exact ih _ others

theorem initializePolyform_isSome (config : LoadedConfig) : (initializePolyform loading config).isSome ↔
    ∀ settings, config.polyform = some settings → config.required → (loading.register settings).isSome := by
  unfold initializePolyform
  cases config.polyform with
  | none => simp
  | some settings =>
    simp only [Option.some.injEq,forall_eq']
    cases loading.register settings <;> cases config.required <;> simp

/-- The implementations of a function that a configuration does not quarantine. -/
def available (registry : List (Implementation Operation)) (config : Config) (function : String) : List (Implementation Operation) :=
  registry.filter fun entry => !config.listener.quarantinedImplementations.contains entry.id && (entry.operation function).isSome

/-- Every function has as many implementations as the agreement asks for. -/
def Staffed (registry : List (Implementation Operation)) (config : Config) : Prop :=
  ∀ function ∈ Polyform.specFunctions, config.listener.agreementImplementations ≤ (available registry config function).length

theorem isComplete_staffed (unique : (registry.map (·.id)).Nodup) {config : Config} (positive : 1 ≤ config.listener.agreementImplementations)
    (primary : String → Option String) :
    isComplete registry ⟨config.listener.agreementImplementations,config.listener.quarantinedImplementations,primary⟩ ↔
      Staffed registry config := by
  simp only [isComplete,List.all_eq_true,beq_iff_eq,Staffed]
  apply forall₂_congr
  intro function spec
  rw [Agreement.selectedIds_length _ unique positive]
  exact min_eq_left_iff

theorem upstreams_names {upstreams : List UpstreamConfig} {addressed : List (List UInt8 × SocketAddr)}
    (parsed : (upstreams.mapM fun upstream => (parseSocketAddr upstream.address).map (upstream.name,·)) = some addressed) :
    addressed.map Prod.fst = upstreams.map (·.name) := by
  induction upstreams generalizing addressed with
  | nil =>
    cases parsed
    rfl
  | cons upstream upstreams ih =>
    simp only [List.mapM_cons,Option.bind_eq_bind,Option.bind_eq_some_iff,Option.map_eq_some_iff] at parsed
    obtain ⟨_,⟨address,-,rfl⟩,others,later,made⟩ := parsed
    cases made
    rw [List.map_cons,List.map_cons,ih later]

variable (unique : (registry.map (·.id)).Nodup) (roots : ∀ directory, loading.isDirectory directory → (loading.canonicalize directory).isSome)
include unique roots

theorem buildRuntime_isSome {config : LoadedConfig} (valid : validateConfig loading.isDirectory config.toConfig = .ok ())
    (polyform : Option Client) (tls : ListenerTls Key) :
    (buildRuntime registry loading config polyform tls).isSome ↔ Staffed registry config.toConfig := by
  obtain ⟨names,buildable⟩ := validateConfig_buildable valid
  obtain ⟨routes,compiled⟩ := Option.isSome_iff_exists.mp (compileRuntimeRoutes_isSome roots buildable)
  have addresses : (config.upstreams.mapM fun upstream => (parseSocketAddr upstream.address).map (upstream.name,·)).isSome := by
    apply mapM_isSome
    intro upstream member
    rw [Option.isSome_map]
    exact (validateUpstreams_parsed buildable.gathered).1 upstream member
  obtain ⟨upstreams,parsed⟩ := Option.isSome_iff_exists.mp addresses
  have checked : validated loading config = some () := by
    rw [validated,valid]
    rfl
  unfold buildRuntime
  rw [← isComplete_staffed unique (Nat.le_of_succ_le buildable.width) fun function =>
    polyform.bind fun client => loading.composition client function,checked,parsed,compiled]
  by_cases complete : isComplete registry ⟨config.listener.agreementImplementations,config.listener.quarantinedImplementations,
      fun function => polyform.bind fun client => loading.composition client function⟩
  · simp [guard,complete]
  · simp [guard,complete]

/-- What a start needs besides an accepted configuration: the certificates, the service where it is required, the implementations. -/
def Startable (registry : List (Implementation Operation)) (loading : Loading Key Client) (config : LoadedConfig) : Prop :=
  (∀ listener ∈ trafficListeners config.toConfig, (loadTlsConfig loading.certificate listener.tls).isSome) ∧
    (∀ settings, config.polyform = some settings → config.required → (loading.register settings).isSome) ∧
    Staffed registry config.toConfig

theorem startGeneration_isSome : (startGeneration registry loading).isSome ↔ ∃ config, loading.source = some config ∧
    validateConfig loading.isDirectory config.toConfig = .ok () ∧ Startable registry loading config := by
  constructor
  · intro starts
    obtain ⟨⟨generation,management⟩,started⟩ := Option.isSome_iff_exists.mp starts
    simp only [startGeneration,Option.bind_eq_bind,Option.bind_eq_some_iff] at started
    obtain ⟨config,given,_,checked,found,address,tls,loaded,polyform,registered,made,built,-⟩ := started
    have valid := validated_some checked
    obtain ⟨names,buildable⟩ := validateConfig_buildable valid
    refine ⟨config,given,valid,?_,?_,?_⟩
    · exact (loadListenerTls_isSome (validateListeners_parsed buildable.listeners)).mp (Option.isSome_of_eq_some loaded)
    · exact (initializePolyform_isSome config).mp (Option.isSome_of_eq_some registered)
    · exact (buildRuntime_isSome unique roots valid polyform tls).mp (Option.isSome_of_eq_some built)
  · rintro ⟨config,given,valid,certified,served,staffed⟩
    obtain ⟨names,buildable⟩ := validateConfig_buildable valid
    obtain ⟨management,managed⟩ := Option.isSome_iff_exists.mp (validateListeners_management buildable.listeners)
    obtain ⟨tls,loaded⟩ := Option.isSome_iff_exists.mp
      ((loadListenerTls_isSome (validateListeners_parsed buildable.listeners)).mpr certified)
    obtain ⟨polyform,registered⟩ := Option.isSome_iff_exists.mp ((initializePolyform_isSome config).mpr served)
    obtain ⟨generation,built⟩ := Option.isSome_iff_exists.mp ((buildRuntime_isSome unique roots valid polyform tls).mpr staffed)
    have checked : validated loading config = some () := by
      rw [validated,valid]
      rfl
    unfold startGeneration
    simp [given,checked,managed,loaded,registered,built]

omit unique roots

theorem startGeneration_upstreams {generation : Generation Key Client} {management : Option SocketAddr}
    (started : startGeneration registry loading = some (generation,management)) :
    (generation.upstreams.map Prod.fst).Nodup ∧ ∀ route ∈ generation.routes, ∀ upstream replaces hostHeader,
      route.action = .proxy upstream replaces hostHeader → ∃ address, (upstream,address) ∈ generation.upstreams := by
  simp only [startGeneration,Option.bind_eq_bind,Option.bind_eq_some_iff] at started
  obtain ⟨config,-,_,checked,_,-,tls,-,polyform,-,made,built,rest⟩ := started
  cases rest
  obtain ⟨names,buildable⟩ := validateConfig_buildable (validated_some checked)
  simp only [buildRuntime,Option.bind_eq_bind,Option.bind_eq_some_iff] at built
  obtain ⟨_,-,_,-,upstreams,parsed,routes,compiled,done⟩ := built
  cases done
  obtain ⟨-,distinct,known⟩ := validateUpstreams_parsed buildable.gathered
  have listed := upstreams_names parsed
  refine ⟨by rw [listed]; exact distinct,?_⟩
  intro route member upstream replaces hostHeader action
  have among := (known upstream).mp (compiled_upstream buildable compiled member action)
  rw [← listed] at among
  obtain ⟨⟨name,address⟩,entry,rfl⟩ := List.mem_map.mp among
  exact ⟨address,entry⟩

theorem startGeneration_source {generation : Generation Key Client} {management : Option SocketAddr}
    (started : startGeneration registry loading = some (generation,management)) : loading.source = some generation.config := by
  simp only [startGeneration,Option.bind_eq_bind,Option.bind_eq_some_iff] at started
  obtain ⟨config,given,_,-,_,-,tls,-,polyform,-,made,built,rest⟩ := started
  cases rest
  obtain ⟨-,rfl,-⟩ := buildRuntime_some built
  exact given

theorem startGeneration_sockets {generation : Generation Key Client} {management : Option SocketAddr}
    (started : startGeneration registry loading = some (generation,management)) :
    inOrder (generation.tls.map Prod.fst).reverse ++ management.toList = sockets generation.config.toConfig ∧
      management.isSome = generation.config.listener.managementAddress.isSome := by
  obtain ⟨⟨_,-,loaded,-⟩,-,managed⟩ := startGeneration_configured started
  obtain ⟨entries,made,same⟩ := insertListenerTls_entries loaded
  have addresses : (generation.tls.map Prod.fst).reverse =
      (trafficListeners generation.config.toConfig).filterMap fun listener => parseSocketAddr listener.address := by
    rw [same,List.append_nil,List.map_reverse,List.reverse_reverse]
    generalize trafficListeners generation.config.toConfig = listeners at made
    clear * - made
    induction made with
    | nil => rfl
    | cons here _ ih => rw [List.map_cons,List.filterMap_cons,here.1,ih]
  unfold sockets
  rw [addresses]
  unfold managementAddress at managed
  cases given : generation.config.listener.managementAddress with
  | none =>
    rw [given] at managed
    cases managed
    exact ⟨rfl,rfl⟩
  | some text =>
    rw [given,Option.mapM_some,Option.map_eq_map,Option.map_eq_some_iff] at managed
    obtain ⟨address,parsed,rfl⟩ := managed
    rw [Option.bind_some,parsed]
    exact ⟨rfl,rfl⟩

theorem startServer_iff {host : Host} {state : Server.State Key Client} : startServer registry loading host = some state ↔
    ∃ generation management, startGeneration registry loading = some (generation,management) ∧
      Hosted host generation.config.toConfig ∧ state = Server.initial generation management := by
  unfold startServer
  simp only [Option.bind_eq_bind,Option.bind_eq_some_iff,Prod.exists]
  apply exists₂_congr
  intro generation management
  apply and_congr_right
  intro started
  obtain ⟨named,managed⟩ := startGeneration_sockets started
  constructor
  · rintro ⟨bound,first,all,second,_,given,made⟩
    have whole := bindListeners_append host [] (inOrder (generation.tls.map Prod.fst).reverse) management.toList
    rw [first,Option.bind_some,second,named] at whole
    cases made
    refine ⟨⟨(bindListeners_iff.mp whole.symm).2,?_⟩,rfl⟩
    rw [← managed]
    exact guard_some given
  · rintro ⟨hosted,rfl⟩
    have whole := bindListeners_append host [] (inOrder (generation.tls.map Prod.fst).reverse) management.toList
    have all : bindListeners host [] (sockets generation.config.toConfig) = some (sockets generation.config.toConfig) :=
      bindListeners_iff.mpr ⟨rfl,hosted.bindable⟩
    rw [named,all,Option.bind_eq_some_iff] at whole
    obtain ⟨bound,first,second⟩ := whole
    have spawns := hosted.spawns
    rw [← managed] at spawns
    have allowed : (guard (management.isSome → host.spawns) : Option Unit) = some () := if_pos spawns
    exact ⟨bound,first,_,second,(),allowed,rfl⟩

include unique roots

theorem startServer_isSome (host : Host) : (startServer registry loading host).isSome ↔ ∃ config, loading.source = some config ∧
    validateConfig loading.isDirectory config.toConfig = .ok () ∧ Startable registry loading config ∧ Hosted host config.toConfig := by
  constructor
  · intro starts
    obtain ⟨state,server⟩ := Option.isSome_iff_exists.mp starts
    obtain ⟨generation,management,started,hosted,-⟩ := startServer_iff.mp server
    obtain ⟨config,given,valid,startable⟩ := (startGeneration_isSome unique roots).mp (Option.isSome_of_eq_some started)
    obtain rfl := Option.some.inj (given.symm.trans (startGeneration_source started))
    exact ⟨_,given,valid,startable,hosted⟩
  · rintro ⟨config,given,valid,startable,hosted⟩
    obtain ⟨⟨generation,management⟩,started⟩ := Option.isSome_iff_exists.mp
      ((startGeneration_isSome unique roots).mpr ⟨config,given,valid,startable⟩)
    obtain rfl := Option.some.inj (given.symm.trans (startGeneration_source started))
    exact Option.isSome_of_eq_some (startServer_iff.mpr ⟨generation,management,started,hosted,rfl⟩)

/-- A start fails for the reasons only that the source reports: there is no configuration, it is refused, a certificate does not load,
a service that is required is not there, a function lacks implementations, a socket cannot be bound beside those in front of it,
or there is no thread for the management. Nothing that a check has parsed fails to parse again, and each upstream that a
compiled route names has its address. -/
theorem configurations_start_iff (host : Host) :
    ((startServer registry loading host).isSome ↔ ∃ config, loading.source = some config ∧
      validateConfig loading.isDirectory config.toConfig = .ok () ∧ Startable registry loading config ∧ Hosted host config.toConfig) ∧
    ∀ state, startServer registry loading host = some state → Server.Reachable registry state ∧
      (state.live.upstreams.map Prod.fst).Nodup ∧ ∀ route ∈ state.live.routes, ∀ upstream replaces hostHeader,
        route.action = .proxy upstream replaces hostHeader → ∃ address, (upstream,address) ∈ state.live.upstreams := by
  refine ⟨startServer_isSome unique roots host,?_⟩
  intro state server
  obtain ⟨generation,management,started,-,rfl⟩ := startServer_iff.mp server
  exact ⟨.start started,startGeneration_upstreams started⟩

omit unique roots

section Sample

/-- The loading of the sample server, over a file system with one directory. -/
def rootLoading : Loading (List UInt8) Unit :=
  { Server.serverLoading with
    isDirectory := (· == ascii "/")
    canonicalize := fun directory => if directory == ascii "/" then some directory else none }

/-- No part of the address is set. -/
def SocketAddr.isUnspecified (address : SocketAddr) : Bool :=
  match address.ip with
  | .v4 octets => octets.all (· == 0)
  | .v6 segments => segments.all (· == 0)

/-- Two sockets of one family at one port, which are the same or of which one takes every address. -/
def SocketAddr.meets (left right : SocketAddr) : Bool :=
  left.port == right.port && left.key.head? == right.key.head? && (left == right || left.isUnspecified || right.isUnspecified)

/-- A machine that has all ports free, and gives each socket once. -/
def freeHost : Host := ⟨fun bound address => bound.all fun other => !other.meets address,true⟩

theorem configurations_start_iff_sample : (startServer Server.serverRegistry rootLoading freeHost).isSome := by
  apply (configurations_start_iff (by decide) (by
    intro directory found
    have same : (directory == ascii "/") = true := found
    change (if directory == ascii "/" then some directory else none).isSome
    rw [if_pos same]
    rfl) freeHost).1.mpr
  refine ⟨Server.serverConfig,rfl,by decide +kernel,⟨?_,by simp [Server.serverConfig],?_⟩,?_,by decide +kernel⟩
  · intro listener member
    simp only [trafficListeners,Server.serverConfig,List.mem_cons,List.not_mem_nil,or_false] at member
    rcases member with rfl | rfl
    · rfl
    · decide +kernel
  · unfold Staffed
    decide +kernel
  · have bound : bindListeners freeHost [] (sockets Server.serverConfig.toConfig) =
        some (sockets Server.serverConfig.toConfig) := by decide +kernel
    exact (bindListeners_iff.mp bound).2

end Sample

end Starts
end Polyguard.Proxy
