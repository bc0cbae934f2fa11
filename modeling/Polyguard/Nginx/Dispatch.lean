import Polyguard.Nginx.HostReturns
import Polyguard.Nginx.Rearranged

/-! The location that answers a request, and the action it answers with.
A location becomes one route for each condition on the method that returns and one route
behind them. The routes of the location that Nginx takes stand above all others, and of
them the first that is for the method is selected. -/
namespace Polyguard.Nginx
open Ascii Slices Decimal Proxy

section Actions

/-- The content type that a directive inside a condition sets. -/
def writtenContentType (nested : Directive) : Option (List UInt8) :=
  match nested.keyword with
  | .addHeader => (headerFromAdd nested []).bind fun header => if header.name == ascii "content-type" then some header.value else none
  | _ => none

/-- The actions of the returns that a directive puts under the condition that the method is the given one, with the content
type that the condition sets. -/
def methodReturns (method : List UInt8) (child : Directive) : List RouteActionConfig :=
  match child.keyword with
  | .condition =>
    match ifCondition child with
    | some condition =>
      if condition.name = ascii "$request_method" ∧ condition.operator = ascii "=" ∧ eqIgnoreAsciiCase condition.value method then
        (child.children.flatMap plainReturns).map (withContentType (child.children.filterMap writtenContentType).getLast?)
      else []
    | none => []
  | _ => []

/-- The returns of a location that apply to a method, as they are written. -/
def applicableActions (method : List UInt8) (location : Directive) : List RouteActionConfig :=
  location.children.flatMap fun child => plainReturns child ++ methodReturns method child

/-- The returns that are tried for a method: the last one of each condition on it, and behind them the last plain one. -/
def triedActions (method : List UInt8) (location : Directive) : List RouteActionConfig :=
  (location.children.filterMap fun child => (methodReturns method child).getLast?) ++
    (location.children.flatMap plainReturns).getLast?.toList

theorem conditionalStep_read (methods : List (List UInt8)) (state : ConditionalState) (nested : Directive) :
    (conditionalStep methods state nested).action = (plainReturns nested).getLast?.or state.action ∧
      (conditionalStep methods state nested).contentType = (writtenContentType nested).or state.contentType := by
  unfold conditionalStep plainReturns writtenContentType
  rw [headerFromAdd_methods nested methods]
  cases nested.keyword with
  | addHeader =>
    refine ⟨?_,?_⟩
    · cases headerFromAdd nested [] with
      | none => rfl
      | some header =>
        dsimp only [Option.map_some]
        split
        · rfl
        · split
          · rfl
          · rfl
    · cases headerFromAdd nested [] with
      | none => rfl
      | some header =>
        dsimp only [Option.map_some,Option.bind_some]
        split
        · rename_i length
          rw [Bool.and_eq_true,beq_iff_eq] at length
          rw [if_neg,Option.none_or]
          rw [length.1]
          decide
        · split
          · rename_i typed
            rfl
          · rename_i untyped
            rfl
  | returns =>
    cases returnAction nested with
    | none => exact ⟨rfl,rfl⟩
    | some action => exact ⟨rfl,rfl⟩
  | _ => exact ⟨rfl,rfl⟩

theorem foldl_last {σ β : Type} {step : σ → Directive → σ} (field : σ → Option β) (gives : Directive → List β)
    (steps : ∀ state child, field (step state child) = (gives child).getLast?.or (field state)) (children : List Directive) :
    ∀ state, field (children.foldl step state) = (children.flatMap gives).getLast?.or (field state) := by
  induction children with
  | nil => exact fun state => rfl
  | cons child children ih =>
    intro state
    rw [List.foldl_cons,ih,steps,List.flatMap_cons,List.getLast?_append,Option.or_assoc]

theorem methodRun_read (method : List UInt8) (children : List Directive) :
    (methodRun method children).action = (children.flatMap plainReturns).getLast? ∧
      (methodRun method children).contentType = (children.filterMap writtenContentType).getLast? := by
  refine ⟨?_,?_⟩
  · rw [methodRun,foldl_last ConditionalState.action plainReturns (fun state nested => (conditionalStep_read _ state nested).1)]
    exact Option.or_none
  · have listed : children.filterMap writtenContentType = children.flatMap fun nested => (writtenContentType nested).toList := by
      rw [List.filterMap_eq_flatMap_toList]
    rw [methodRun,foldl_last ConditionalState.contentType (fun nested => (writtenContentType nested).toList) fun state nested => ?_,listed]
    · exact Option.or_none
    · rw [(conditionalStep_read _ state nested).2]
      cases writtenContentType nested with
      | none => rfl
      | some value => rfl

end Actions

section Upstreams

/-- No address loses its name. -/
def NamesKept (before after : List (SocketAddr × List UInt8)) : Prop :=
  ∀ address name, Ledger.find address before = some name → Ledger.find address after = some name

theorem NamesKept.refl (names : List (SocketAddr × List UInt8)) : NamesKept names names := fun _ _ => id

theorem NamesKept.trans {first second third : List (SocketAddr × List UInt8)} (early : NamesKept first second)
    (late : NamesKept second third) : NamesKept first third := fun address name found => late address name (early address name found)

theorem pass_named (address : SocketAddr) (replacement : Option (List UInt8)) (settings : UpstreamSettings) : ∃ name,
    (settings.pass address replacement).proxy = some (name,replacement) ∧
      Ledger.find address (settings.pass address replacement).names = some name ∧
        NamesKept settings.names (settings.pass address replacement).names := by
  unfold UpstreamSettings.pass Translation.upstream
  dsimp only
  cases found : Ledger.find address settings.names with
  | some name => exact ⟨name,rfl,found,.refl _⟩
  | none =>
    refine ⟨_,rfl,Ledger.find_opened,fun other name held => ?_⟩
    rw [Ledger.find_open]
    · exact held
    · rintro rfl
      rw [found] at held
      cases held

/-- The upstream that a directive passes to: its address, and what takes the place of the path. -/
def passOf (child : Directive) : Option (SocketAddr × Option (List UInt8)) :=
  match child.keyword,child.args with
  | .proxyPass,[target] => parseProxyPass target
  | _,_ => none

theorem upstreamAfter_pass (child : Directive) (settings : UpstreamSettings) : upstreamAfter child.keyword child.args settings =
    match passOf child with
    | some (address,replacement) => settings.pass address replacement
    | none => settings := by
  unfold upstreamAfter passOf
  cases child.keyword with
  | proxyPass => rcases child.args with _ | ⟨target,_ | ⟨second,rest⟩⟩ <;> rfl
  | _ => rfl

theorem upstreams_last (children : List Directive) : ∀ settings : UpstreamSettings,
    NamesKept settings.names
        (children.foldl (fun settings child => upstreamAfter child.keyword child.args settings) settings).names ∧
      match (children.filterMap passOf).getLast? with
      | some (address,replacement) => ∃ name,
          (children.foldl (fun settings child => upstreamAfter child.keyword child.args settings) settings).proxy = some (name,replacement) ∧
            Ledger.find address (children.foldl (fun settings child => upstreamAfter child.keyword child.args settings) settings).names =
              some name
      | none => (children.foldl (fun settings child => upstreamAfter child.keyword child.args settings) settings).proxy = settings.proxy := by
  induction children with
  | nil => exact fun settings => ⟨.refl _,rfl⟩
  | cons child children ih =>
    intro settings
    obtain ⟨kept,last⟩ := ih (upstreamAfter child.keyword child.args settings)
    rw [List.foldl_cons]
    have step := upstreamAfter_pass child settings
    cases passed : passOf child with
    | none =>
      rw [passed] at step
      rw [List.filterMap_cons_none passed]
      rw [step] at kept last ⊢
      exact ⟨kept,last⟩
    | some pass =>
      obtain ⟨address,replacement⟩ := pass
      rw [passed] at step
      obtain ⟨name,proxied,found,grown⟩ := pass_named address replacement settings
      rw [List.filterMap_cons_some passed,List.getLast?_cons]
      rw [step] at kept last ⊢
      refine ⟨grown.trans kept,?_⟩
      cases later : (children.filterMap passOf).getLast? with
      | some other =>
        rw [later] at last
        exact last
      | none =>
        rw [later] at last
        exact ⟨name,last.trans proxied,kept address name found⟩

end Upstreams

section Groups

/-- The routes of a location, as they were read in a translation that ended in the names. -/
def Located (snapshot : ServerSpec) (final : List (SocketAddr × List UInt8)) (location : Directive) (routes : List ActionRouteConfig) :
    Prop :=
  ∃ before, outcome location snapshot before = some routes ∧
    NamesKept (parseLocation location snapshot before).2.upstreamNames final

theorem parseLocation_names (location : Directive) (snapshot : ServerSpec) (before : Translation) :
    NamesKept before.upstreamNames (parseLocation location snapshot before).2.upstreamNames := by
  cases matched : locationMatch location with
  | none =>
    unfold parseLocation
    rw [matched]
    exact .refl _
  | some kind =>
    obtain ⟨matchKind,path⟩ := kind
    obtain ⟨message,parsed⟩ := @parseLocation_matched path matchKind location snapshot before matched
    have ran := (@locationEnd_ran path matchKind location snapshot before).upstream
    have kept := (upstreams_last location.children ⟨none,before.upstreamNames⟩).1
    have names : (locationEnd location snapshot before matchKind path).translation.upstreamNames = _ :=
      congrArg UpstreamSettings.names ran
    rw [parsed]
    cases finalRoutes path matchKind snapshot (locationEnd location snapshot before matchKind path) with
    | some routes =>
      dsimp only
      rw [names]
      exact kept
    | none =>
      change NamesKept before.upstreamNames (locationEnd location snapshot before matchKind path).translation.upstreamNames
      rw [names]
      exact kept

theorem locationsStep_other {child : Directive} (other : child.keyword ≠ .location) (snapshot : ServerSpec) (state : ServerState) :
    locationsStep snapshot state child = state := by
  unfold locationsStep
  split
  · rename_i read
    exact absurd read other
  · rfl

theorem locations_groups (snapshot : ServerSpec) (locations : List Directive) :
    ∀ state : ServerState, (∀ location ∈ locations, location.keyword = .location) →
      (locations.foldl (locationsStep snapshot) state).translation.issues = [] →
      state.translation.issues = [] ∧
        NamesKept state.translation.upstreamNames (locations.foldl (locationsStep snapshot) state).translation.upstreamNames ∧
        ∃ groups : List (Directive × List ActionRouteConfig), groups.map Prod.fst = locations ∧
          (∀ group ∈ groups, Located snapshot (locations.foldl (locationsStep snapshot) state).translation.upstreamNames group.1 group.2) ∧
          (locations.foldl (locationsStep snapshot) state).server.locations = state.server.locations ++
            (groups.flatMap Prod.snd).map (withSchemes (schemesOf snapshot.listens)) := by
  induction locations with
  | nil =>
    intro state _ quiet
    refine ⟨quiet,.refl _,[],rfl,fun group member => ?_,(List.append_nil _).symm⟩
    cases member
  | cons location locations ih =>
    intro state read quiet
    rw [List.foldl_cons] at quiet ⊢
    obtain ⟨settled,kept,groups,firsts,located,listed⟩ :=
      ih (locationsStep snapshot state location) (fun other member => read other (List.mem_cons_of_mem _ member)) quiet
    have names := parseLocation_names location snapshot state.translation
    have calm := @parseLocation_quiet location snapshot state.translation
    generalize locations.foldl (locationsStep snapshot) (locationsStep snapshot state location) = final at kept located listed quiet ⊢
    unfold locationsStep at settled kept listed
    rw [read location List.mem_cons_self] at settled kept listed
    dsimp only at settled kept listed
    cases parsed : parseLocation location snapshot state.translation with
    | mk result translation =>
      rw [parsed] at settled kept listed names calm
      cases result with
      | none =>
        obtain ⟨-,-,routes,impossible,-⟩ := calm settled
        cases impossible
      | some routes =>
        obtain ⟨before,-,-⟩ := calm settled
        dsimp only at settled kept listed names
        refine ⟨before,names.trans kept,(location,routes) :: groups,congrArg _ firsts,fun group member => ?_,?_⟩
        · rcases List.mem_cons.mp member with rfl | later
          · refine ⟨state.translation,?_,?_⟩
            · rw [outcome,parsed]
              exact if_pos (settled.trans before.symm)
            · rw [parsed]
              exact kept
          · exact located group later
        · rw [listed,List.flatMap_cons,List.map_append,List.append_assoc]

end Groups

section Location
variable {path : List UInt8} {matchKind : RouteMatchKind} {location : Directive} {snapshot : ServerSpec} {before : Translation}
  {routes : List ActionRouteConfig}

/-- What the routes of a location are made of. -/
structure RoutesOf (location : Directive) (snapshot : ServerSpec) (before : Translation) (path : List UInt8)
    (matchKind : RouteMatchKind) (routes : List ActionRouteConfig) : Prop where
  matched : locationMatch location = some (matchKind,path)
  made : ∃ headers fallback, routes = (conditionalRun path matchKind location.children snapshot.maxRequestBodyBytes ⟨[],none⟩).map
      (inheritHeaders headers) ++ [fallback] ∧ fallback.path = path ∧ fallback.matchKind = matchKind ∧ fallback.methods = [] ∧
    locationAction snapshot (locationEnd location snapshot before matchKind path) = some fallback.action

theorem outcome_routes (made : outcome location snapshot before = some routes) :
    ∃ path matchKind, RoutesOf location snapshot before path matchKind routes := by
  cases matched : locationMatch location with
  | none =>
    rw [outcome_unmatched matched] at made
    cases made
  | some kind =>
    obtain ⟨matchKind,path⟩ := kind
    rw [outcome_matched matched] at made
    split at made
    · have ran := (@locationEnd_ran path matchKind location snapshot before).routes
      unfold finalRoutes at made
      obtain ⟨action,acts,rfl⟩ := Option.map_eq_some_iff.mp made
      rw [ran]
      exact ⟨path,matchKind,matched,_,_,rfl,rfl,rfl,rfl,acts⟩
    · cases made

theorem conditionalRun_placed (children : List Directive) : ∀ (limit : Option Nat) (settings : RequestSettings),
    ∀ route ∈ conditionalRun path matchKind children limit settings, route.path = path ∧ route.matchKind = matchKind := by
  induction children with
  | nil =>
    intro limit settings route member
    cases member
  | cons child children ih =>
    intro limit settings route member
    rw [conditionalRun] at member
    rcases List.mem_append.mp member with first | later
    · cases returns : returning child with
      | false =>
        rw [conditionalRoute_none returns] at first
        cases first
      | true =>
        obtain ⟨block,action,made⟩ := @conditionalRoute_some path matchKind child returns
        rw [made] at first
        cases List.mem_singleton.mp first
        exact ⟨rfl,rfl⟩
    · exact ih _ _ route later

theorem RoutesOf.placed (made : RoutesOf location snapshot before path matchKind routes) :
    ∀ route ∈ routes, route.path = path ∧ route.matchKind = matchKind := by
  obtain ⟨headers,fallback,rfl,samePath,sameKind,-,-⟩ := made.made
  intro route member
  rcases List.mem_append.mp member with early | last
  · obtain ⟨conditional,inside,rfl⟩ := List.mem_map.mp early
    exact conditionalRun_placed _ _ _ conditional inside
  · rw [List.mem_singleton.mp last]
    exact ⟨samePath,sameKind⟩

/-- The route is for the method. -/
def methodFits (method : List UInt8) (route : ActionRouteConfig) : Bool :=
  route.methods.isEmpty || (route.methods.map (·.map toAsciiLowercase)).contains method

/-- The path is one of the location. -/
def PathFits (matchKind : RouteMatchKind) (path asked : List UInt8) : Prop :=
  match matchKind with
  | .exact => asked = path
  | .pathPrefix => path <+: asked
  | .boundaryPrefix => path = ascii "/" ∨ asked = path ∨ path ++ ascii "/" <+: asked

theorem fits_iff (source : ActionRouteConfig) (asked : Asked) :
    Fits source asked ↔ PathFits source.matchKind source.path asked.target.routingPath ∧ methodFits asked.method source := by
  unfold methodFits
  rw [Bool.or_eq_true,List.isEmpty_iff,List.contains_iff_mem]
  exact Iff.rfl

theorem conditionalRoute_method {method : List UInt8} (lower : method.map toAsciiLowercase = method) (limit : Option Nat)
    (headers : List HeaderValueConfig) (child : Directive) :
    ((conditionalRoute path matchKind limit headers child.keyword child).filter (methodFits method)).map (·.action) =
      (methodReturns method child).getLast? := by
  unfold conditionalRoute methodReturns methodBlock
  cases child.keyword with
  | condition =>
    dsimp only
    cases ifCondition child with
    | none => rfl
    | some condition =>
      rw [Option.bind_some]
      dsimp only
      obtain ⟨action,contentType⟩ := methodRun_read condition.value child.children
      split
      · rename_i unsupported
        rw [Bool.or_eq_true,decide_eq_true_eq,decide_eq_true_eq] at unsupported
        rw [if_neg]
        · rfl
        · rintro ⟨named,compared,-⟩
          exact unsupported.elim (absurd named) (absurd compared)
      · rename_i supported
        rw [Bool.or_eq_true,decide_eq_true_eq,decide_eq_true_eq,not_or,not_not,not_not] at supported
        rw [Option.bind_some]
        dsimp only
        rw [action,contentType]
        by_cases same : eqIgnoreAsciiCase condition.value method = true
        · rw [if_pos ⟨supported.1,supported.2,same⟩,List.getLast?_map]
          rw [eqIgnoreAsciiCase_iff,lower] at same
          cases (child.children.flatMap plainReturns).getLast? with
          | none => rfl
          | some last =>
            dsimp only [Option.map_some]
            rw [Option.filter_some,if_pos]
            · rfl
            · unfold methodFits
              rw [List.map_singleton,same,Bool.or_eq_true]
              exact .inr (List.contains_iff_mem.mpr (List.mem_singleton.mpr rfl))
        · rw [if_neg fun all => same all.2.2]
          rw [eqIgnoreAsciiCase_iff,lower] at same
          cases (child.children.flatMap plainReturns).getLast? with
          | none => rfl
          | some last =>
            dsimp only [Option.map_some]
            rw [Option.filter_some,if_neg]
            · rfl
            · unfold methodFits
              rw [List.map_singleton,Bool.or_eq_true,List.contains_iff_mem,List.mem_singleton]
              rintro (empty | equal)
              · cases empty
              · exact same equal.symm
  | _ => rfl

theorem conditionalRun_first {method : List UInt8} (lower : method.map toAsciiLowercase = method) (children : List Directive) :
    ∀ (limit : Option Nat) (settings : RequestSettings),
      ((conditionalRun path matchKind children limit settings).find? (methodFits method)).map (·.action) =
        (children.filterMap fun child => (methodReturns method child).getLast?).head? := by
  induction children with
  | nil => exact fun limit settings => rfl
  | cons child children ih =>
    intro limit settings
    have first := @conditionalRoute_method path matchKind method lower limit settings.headers child
    rw [conditionalRun,List.find?_append,Option.map_or,ih]
    have head : ((conditionalRoute path matchKind limit settings.headers child.keyword child).toList.find? (methodFits method)).map
        (·.action) = (methodReturns method child).getLast? := by
      rw [← first]
      cases conditionalRoute path matchKind limit settings.headers child.keyword child with
      | none => rfl
      | some route =>
        rw [Option.toList_some,List.find?_singleton,Option.filter_some]
    rw [head]
    cases last : (methodReturns method child).getLast? with
    | none => rw [List.filterMap_cons,last,Option.none_or]
    | some action => rw [List.filterMap_cons,last,Option.some_or,List.head?_cons]

theorem actions_last (children : List Directive) :
    children.foldl (fun action child => actionAfter child.keyword child action) none =
      (children.flatMap plainReturns).getLast? := by
  have steps (action : Option RouteActionConfig) (child : Directive) :
      id (actionAfter child.keyword child action) = (plainReturns child).getLast?.or (id action) := by
    unfold actionAfter plainReturns
    cases child.keyword with
    | returns =>
      cases returnAction child with
      | none => rfl
      | some returned => rfl
    | _ => rfl
  exact (foldl_last id plainReturns steps children none).trans Option.or_none

theorem RoutesOf.first (made : RoutesOf location snapshot before path matchKind routes) {method : List UInt8}
    (lower : method.map toAsciiLowercase = method) : ∃ route, routes.find? (methodFits method) = some route ∧
      match (triedActions method location).head? with
      | some action => route.action = action
      | none => locationAction snapshot (locationEnd location snapshot before matchKind path) = some route.action := by
  obtain ⟨headers,fallback,rfl,-,-,free,acts⟩ := made.made
  have ran := (@locationEnd_ran path matchKind location snapshot before).action
  have first := @conditionalRun_first path matchKind method lower location.children snapshot.maxRequestBodyBytes ⟨[],none⟩
  have action : (locationEnd location snapshot before matchKind path).action = (location.children.flatMap plainReturns).getLast? := by
    rw [ran]
    exact actions_last location.children
  have anyMethod : methodFits method fallback = true := by
    rw [methodFits,free]
    rfl
  rw [List.find?_append,List.find?_map]
  change ∃ route, (((conditionalRun path matchKind location.children snapshot.maxRequestBodyBytes ⟨[],none⟩).find?
    (methodFits method)).map (inheritHeaders headers)).or _ = some route ∧ _
  rw [List.find?_singleton,if_pos anyMethod]
  unfold triedActions
  rw [List.head?_append,← first]
  cases (conditionalRun path matchKind location.children snapshot.maxRequestBodyBytes ⟨[],none⟩).find? (methodFits method) with
  | some route => exact ⟨inheritHeaders headers route,rfl,rfl⟩
  | none =>
    refine ⟨fallback,rfl,?_⟩
    rw [Option.map_none,Option.none_or]
    cases last : (location.children.flatMap plainReturns).getLast? with
    | none => exact acts
    | some plain =>
      rw [last] at action
      unfold locationAction at acts
      rw [action,Option.some_or,Option.some_or] at acts
      exact (Option.some.inj acts).symm

end Location

section Servers
variable {files : Files} {tree : List Directive} {config : Config} {http : Directive} {limit : Nat} {translation : Translation}
  {owners : Owners} {assembly : Assembly}

theorem hostConditionStep_locations (value : List UInt8) (state : ServerState) (nested : Directive) :
    (hostConditionStep value state nested).server.locations = state.server.locations := by
  unfold hostConditionStep
  split
  · split
    · rfl
    · rfl
  · rfl

theorem serverStep_locations (state : ServerState) (child : Directive) :
    (serverStep state child).server.locations = state.server.locations := by
  unfold serverStep
  cases child.keyword with
  | serverName =>
    dsimp only
    split
    · rfl
    · rw [serverNames_fields]
  | condition =>
    dsimp only
    split
    · rfl
    · split
      · rfl
      · exact (foldl_grows (fun before after : ServerState => after.server.locations = before.server.locations) (fun _ => rfl)
          (fun _ _ _ first second => second.trans first) (hostConditionStep_locations _) child.children state).1
  | listen =>
    dsimp only
    split
    · rfl
    · rfl
  | root =>
    dsimp only
    split
    · rfl
    · rfl
  | index =>
    dsimp only
    split
    · rfl
    · rfl
  | errorPage =>
    dsimp only
    split
    · split
      · rfl
      · rfl
    · rfl
  | clientMaxBodySize =>
    dsimp only
    split
    · split
      · rfl
      · rfl
    · rfl
  | sslCertificate =>
    dsimp only
    split
    · rfl
    · rfl
  | sslCertificateKey =>
    dsimp only
    split
    · rfl
    · rfl
  | addHeader =>
    dsimp only
    split
    · rfl
    · rfl
  | deny =>
    dsimp only
    split
    · rfl
    · rfl
  | returns =>
    dsimp only
    split
    · rfl
    · rfl
  | _ => rfl

theorem serverSnapshot_locations (block : Directive) (limit : Option Nat) (started : Translation) :
    (serverSnapshot block limit started).server.locations = [] := by
  have steps := (foldl_grows (fun before after : ServerState => after.server.locations = before.server.locations) (fun _ => rfl)
    (fun _ _ _ first second => second.trans first) serverStep_locations block.children ⟨emptyServer limit,started⟩).1
  unfold serverSnapshot settleServer
  dsimp only
  split
  · exact steps
  · exact steps

/-- The locations of a server block without issues have their routes in a row, for the schemes of the server. -/
theorem parseServer_groups {block : Directive} {limit : Option Nat} {started : Translation}
    (quiet : (parseServer block limit started).translation.issues = []) : ∃ groups : List (Directive × List ActionRouteConfig),
      groups.map Prod.fst = locationsOf block ∧
      (∀ group ∈ groups, Located (serverSnapshot block limit started).server
        (parseServer block limit started).translation.upstreamNames group.1 group.2) ∧
      (parseServer block limit started).server.locations =
        (groups.flatMap Prod.snd).map (withSchemes (schemesOf (serverSnapshot block limit started).server.listens)) := by
  have listed : (ascii "location",Keyword.location) ∈ keywords := by decide
  have only : parseServer block limit started = (locationsOf block).foldl (locationsStep (serverSnapshot block limit started).server)
      (serverSnapshot block limit started) :=
    foldl_inherited listed (fun state child other => locationsStep_other other _ state) block.children _
  have read : ∀ location ∈ locationsOf block, location.keyword = .location :=
    fun location member => (keyword_named listed).mpr (mem_inherited.mp member).2
  rw [only] at quiet ⊢
  obtain ⟨-,-,groups,firsts,located,placed⟩ := locations_groups _ (locationsOf block) _ read quiet
  rw [serverSnapshot_locations,List.nil_append] at placed
  exact ⟨groups,firsts,located,placed⟩

theorem single_server (passes : Translated files tree config http limit translation owners assembly) {block : Directive}
    (single : serverBlocks tree = [block]) : ∃ started, treeServers tree = [(parseServer block (some limit) started).server] ∧
      translation = (parseServer block (some limit) started).translation := by
  have parsed := passes.parsed
  rw [serverBlocks,passes.block,List.flatMap_singleton] at single
  unfold parseServers at parsed
  rw [single] at parsed
  exact ⟨inspectRoot ⟨[],[]⟩ tree,(congrArg Prod.fst parsed).symm,(congrArg Prod.snd parsed).symm⟩

theorem ownDefault_single {owners after : Owners} {listen : ListenSpec} (ran : ownDefault 0 owners listen = .ok after)
    (zero : ∀ address owner, Ledger.find address owners = some owner → owner.1 = 0) :
    (∀ address owner, Ledger.find address after = some owner → owner.1 = 0) ∧ (Ledger.find listen.address after).isSome ∧
      ∀ address, (Ledger.find address owners).isSome → (Ledger.find address after).isSome := by
  unfold ownDefault at ran
  cases found : Ledger.find listen.address owners with
  | none =>
    rw [found] at ran
    cases ran
    refine ⟨fun address owner held => ?_,by rw [Ledger.find_opened]; rfl,fun address held => ?_⟩
    · by_cases same : address = listen.address
      · rw [same,Ledger.find_opened] at held
        cases held
        rfl
      · rw [Ledger.find_open same] at held
        exact zero address owner held
    · by_cases same : address = listen.address
      · rw [same,Ledger.find_opened]
        rfl
      · rw [Ledger.find_open same]
        exact held
  | some entry =>
    obtain ⟨owner,explicit⟩ := entry
    rw [found] at ran
    have kept : (∀ address owner, Ledger.find address owners = some owner → owner.1 = 0) ∧
        (Ledger.find listen.address owners).isSome ∧
          ∀ address, (Ledger.find address owners).isSome → (Ledger.find address owners).isSome :=
      ⟨zero,by rw [found]; rfl,fun _ => id⟩
    cases explicit with
    | true =>
      dsimp only at ran
      split at ran
      · cases ran
      · cases ran
        exact kept
    | false =>
      dsimp only at ran
      cases ran
      split
      · refine ⟨fun address owner held => ?_,by rw [Ledger.find_replace found]; rfl,fun address held => ?_⟩
        · by_cases same : address = listen.address
          · rw [same,Ledger.find_replace found] at held
            cases held
            rfl
          · rw [Ledger.find_replace_other same] at held
            exact zero address owner held
        · by_cases same : address = listen.address
          · rw [same,Ledger.find_replace found]
            rfl
          · rw [Ledger.find_replace_other same]
            exact held
      · exact kept

theorem single_owns {server : ServerSpec} (owned : defaultOwners [server] = .ok owners) :
    ∀ listen ∈ server.listens, ∃ explicit, Ledger.find listen.address owners = some (0,explicit) := by
  have whole (listens : List ListenSpec) : ∀ {before after : Owners}, listens.foldlM (ownDefault 0) before = .ok after →
      (∀ address owner, Ledger.find address before = some owner → owner.1 = 0) →
      (∀ address owner, Ledger.find address after = some owner → owner.1 = 0) ∧
        (∀ listen ∈ listens, (Ledger.find listen.address after).isSome) ∧
          ∀ address, (Ledger.find address before).isSome → (Ledger.find address after).isSome := by
    induction listens with
    | nil =>
      intro before after ran zero
      cases ran
      refine ⟨zero,fun listen member => ?_,fun _ => id⟩
      cases member
    | cons listen listens ih =>
      intro before after ran zero
      rw [List.foldlM_cons] at ran
      obtain ⟨middle,first,ran⟩ := except_bind ran
      obtain ⟨settled,here,kept⟩ := ownDefault_single first zero
      obtain ⟨ended,each,grown⟩ := ih ran settled
      refine ⟨ended,fun other member => ?_,fun address held => grown address (kept address held)⟩
      rcases List.mem_cons.mp member with rfl | later
      · exact grown _ here
      · exact each other later
  unfold defaultOwners at owned
  rw [show [server].zipIdx = [(server,0)] from rfl,List.foldlM_cons] at owned
  obtain ⟨after,ran,rest⟩ := except_bind owned
  cases rest
  have none : ∀ (address : SocketAddr) (owner : Nat × Bool), Ledger.find address ([] : Owners) = some owner → owner.1 = 0 := by
    intro address owner held
    cases held
  obtain ⟨zero,each,-⟩ := whole server.listens ran none
  intro listen member
  obtain ⟨⟨owner,explicit⟩,found⟩ := Option.isSome_iff_exists.mp (each listen member)
  cases zero listen.address (owner,explicit) found
  exact ⟨explicit,found⟩

theorem single_all {server : ServerSpec} (owned : defaultOwners [server] = .ok owners) :
    (server.listens.filter fun listen => (Ledger.find listen.address owners).any fun (owner,_) => owner == 0) = server.listens := by
  rw [List.filter_eq_self]
  intro listen member
  obtain ⟨explicit,found⟩ := single_owns owned listen member
  rw [found]
  rfl

theorem single_answers (passes : Translated files tree config http limit translation owners assembly) {server : ServerSpec}
    (single : treeServers tree = [server]) {scheme : List UInt8} (offered : scheme ∈ schemesOf server.listens) :
    Answers owners (treeServers tree) 0 server (ascii "*") scheme := by
  have owned := passes.owned
  rw [single] at owned
  refine ⟨by rw [single]; rfl,schemesOf server.listens,?_,offered⟩
  unfold keyScopes
  dsimp only
  rw [single_all owned,if_neg]
  · exact List.mem_append_right _ (List.mem_singleton.mpr rfl)
  · intro none
    rw [List.isEmpty_iff] at none
    rw [none] at offered
    cases offered

end Servers

section Choice

/-- The path of a location that is for all paths that start with it. -/
def prefixOf (location : Directive) : Option (List UInt8) :=
  match locationMatch location with
  | some (.pathPrefix,path) => some path
  | _ => none

/-- The location that Nginx takes for a path: the exact one, else the one with the longest prefix of it. -/
def nginxLocation (locations : List Directive) (asked : List UInt8) : Option Directive :=
  (locations.find? fun location => locationMatch location == some (.exact,asked)).or
    ((locations.filter fun location => (prefixOf location).any (·.isPrefixOf asked)).argmax
      fun location => ((prefixOf location).getD []).length)

/-- The location is for the path. -/
def Matches (location : Directive) (asked : List UInt8) : Prop :=
  ∃ matchKind path, locationMatch location = some (matchKind,path) ∧ PathFits matchKind path asked

theorem locationMatch_kind {location : Directive} {matchKind : RouteMatchKind} {path : List UInt8}
    (matched : locationMatch location = some (matchKind,path)) : matchKind = .exact ∨ matchKind = .pathPrefix := by
  unfold locationMatch at matched
  split at matched
  · split at matched
    · cases matched
      exact .inr rfl
    · cases matched
  · split at matched
    · cases matched
      exact .inl rfl
    · split at matched
      · cases matched
        exact .inr rfl
      · cases matched
  · cases matched

/-- The location is for the path, and no other one for it stands above. -/
structure Highest (locations : List Directive) (asked : List UInt8) (location : Directive) (matchKind : RouteMatchKind)
    (path : List UInt8) : Prop where
  inside : location ∈ locations
  matched : locationMatch location = some (matchKind,path)
  fits : PathFits matchKind path asked
  above : ∀ other ∈ locations, ∀ otherKind otherPath, locationMatch other = some (otherKind,otherPath) →
    PathFits otherKind otherPath asked → (otherKind = .exact → matchKind = .exact) ∧
      ((otherKind = .exact ↔ matchKind = .exact) → otherPath.length ≤ path.length)

theorem prefixOf_some {location : Directive} {path : List UInt8} (front : prefixOf location = some path) :
    locationMatch location = some (.pathPrefix,path) := by
  unfold prefixOf at front
  split at front
  · rename_i matched
    cases front
    exact matched
  · cases front

theorem prefixOf_matched {location : Directive} {path : List UInt8} (matched : locationMatch location = some (.pathPrefix,path)) :
    prefixOf location = some path := by
  rw [prefixOf,matched]

theorem nginxLocation_highest {locations : List Directive} {asked : List UInt8} {location : Directive}
    (taken : nginxLocation locations asked = some location) : ∃ matchKind path, Highest locations asked location matchKind path := by
  unfold nginxLocation at taken
  cases exact : locations.find? fun location => locationMatch location == some (.exact,asked) with
  | some found =>
    rw [exact,Option.some_or] at taken
    cases taken
    have matched := List.find?_some exact
    rw [beq_iff_eq] at matched
    refine ⟨.exact,asked,List.mem_of_find?_eq_some exact,matched,rfl,fun other member kind path read fits => ⟨fun _ => rfl,fun same => ?_⟩⟩
    rw [same.mpr rfl] at fits
    rw [show asked = path from fits]
  | none =>
    rw [exact,Option.none_or] at taken
    have none := List.find?_eq_none.mp exact
    obtain ⟨inside,front⟩ := List.mem_filter.mp (List.argmax_mem taken)
    obtain ⟨path,read,starts⟩ := (Option.any_eq_true _ _).mp front
    refine ⟨.pathPrefix,path,inside,prefixOf_some read,List.isPrefixOf_iff_prefix.mp starts,fun other member kind otherPath matched fits => ?_⟩
    rcases locationMatch_kind matched with rfl | rfl
    · rw [show asked = otherPath from fits] at none
      exact absurd (beq_iff_eq.mpr matched) (none other member)
    · refine ⟨fun impossible => (by cases impossible),fun _ => ?_⟩
      have listed : other ∈ locations.filter fun location => (prefixOf location).any (·.isPrefixOf asked) := by
        refine List.mem_filter.mpr ⟨member,?_⟩
        rw [prefixOf_matched matched,Option.any_some]
        exact List.isPrefixOf_iff_prefix.mpr fits
      have bound := List.le_of_mem_argmax listed taken
      rw [prefixOf_matched matched,read] at bound
      exact bound

theorem nginxLocation_some {locations : List Directive} {asked : List UInt8} (matching : ∃ location ∈ locations, Matches location asked) :
    ∃ location, nginxLocation locations asked = some location := by
  obtain ⟨location,member,kind,path,matched,fits⟩ := matching
  rw [← Option.isSome_iff_exists,nginxLocation,Option.isSome_or,Bool.or_eq_true]
  rcases locationMatch_kind matched with rfl | rfl
  · refine .inl (List.find?_isSome.mpr ⟨location,member,beq_iff_eq.mpr ?_⟩)
    rw [matched,show asked = path from fits]
  · refine .inr ?_
    rw [Option.isSome_iff_ne_none,ne_eq,List.argmax_eq_none]
    refine List.ne_nil_of_mem (List.mem_filter.mpr ⟨member,?_⟩)
    rw [prefixOf_matched matched,Option.any_some]
    exact List.isPrefixOf_iff_prefix.mpr fits

theorem filterMap_unique {α β : Type} {f : α → Option β} {items : List α} (distinct : (items.filterMap f).Nodup) {first second : α}
    (here : first ∈ items) (there : second ∈ items) {value : β} (left : f first = some value) (right : f second = some value) :
    first = second := by
  induction items with
  | nil => cases here
  | cons item items ih =>
    have listed {other : α} (member : other ∈ items) (read : f other = some value) : value ∈ items.filterMap f :=
      List.mem_filterMap.mpr ⟨other,member,read⟩
    rcases List.mem_cons.mp here with rfl | later
    · rcases List.mem_cons.mp there with rfl | behind
      · rfl
      · rw [List.filterMap_cons_some left,List.nodup_cons] at distinct
        exact absurd (listed behind right) distinct.1
    · rcases List.mem_cons.mp there with rfl | behind
      · rw [List.filterMap_cons_some right,List.nodup_cons] at distinct
        exact absurd (listed later left) distinct.1
      · refine ih ?_ later behind
        cases read : f item with
        | none =>
          rw [List.filterMap_cons_none read] at distinct
          exact distinct
        | some found =>
          rw [List.filterMap_cons_some read,List.nodup_cons] at distinct
          exact distinct.2

end Choice

section Dispatched

/-- The action that a location answers with: its first return for the method, else its upstream, else its files. -/
def AnswerOf (upstreams : List UpstreamConfig) (root : Option (List UInt8)) (method : List UInt8) (location : Directive)
    (action : RouteActionConfig) : Prop :=
  match (applicableActions method location).head? with
  | some returned => action = returned
  | none =>
    match (location.children.filterMap passOf).getLast? with
    | some (address,replacement) => ∃ name hostHeader, ⟨name,displaySocketAddr address⟩ ∈ upstreams ∧
        action = .proxy name replacement hostHeader
    | none => ∃ directory mapping index tryFiles page, filesFrom location.children (root,.root) = (some directory,mapping) ∧
        action = .files directory mapping index tryFiles page

/-- The selected route is one of the location that Nginx takes, and has the action that the location answers with. -/
def Dispatched (canonicalize : List UInt8 → Option (List UInt8)) (config : Config) (routes : List RuntimeRoute) (block : Directive)
    (server : ServerSpec) (asked : Asked) : Prop :=
  ∃ location, nginxLocation (locationsOf block) asked.target.routingPath = some location ∧
    ∃ selected route action, selectRouteFold routes asked.authority asked.target asked.method asked.scheme = some selected ∧
      routes[selected]? = some route ∧ locationMatch location = some (route.matchKind,route.path) ∧
        runtimeAction canonicalize action = some route.action ∧
          AnswerOf config.upstreams server.root asked.method location action

variable {files : Files} {tree : List Directive} {config : Config} {http : Directive} {limit : Nat} {translation : Translation}
  {owners : Owners} {assembly : Assembly} {canonicalize : List UInt8 → Option (List UInt8)} {routes : List RuntimeRoute}

theorem withContentType_kept {action : RouteActionConfig} (contentType : Option (List UInt8))
    (kept : ∀ canonicalize, runtimeAction canonicalize action = some action) (canonicalize : List UInt8 → Option (List UInt8)) :
    runtimeAction canonicalize (withContentType contentType action) = some (withContentType contentType action) := by
  cases action with
  | respond status body old => rfl
  | redirect status place => rfl
  | proxy upstream replacement host => rfl
  | files directory mapping index tryFiles page => exact kept canonicalize

theorem methodReturns_kept {method : List UInt8} {child : Directive} {action : RouteActionConfig}
    (member : action ∈ methodReturns method child) (canonicalize : List UInt8 → Option (List UInt8)) :
    runtimeAction canonicalize action = some action := by
  unfold methodReturns at member
  split at member
  · split at member
    · split at member
      · obtain ⟨returned,inside,rfl⟩ := List.mem_map.mp member
        obtain ⟨nested,-,held⟩ := List.mem_flatMap.mp inside
        exact withContentType_kept _ (plainReturns_kept held) canonicalize
      · cases member
    · cases member
  · cases member

theorem applicableActions_kept {method : List UInt8} {location : Directive} {action : RouteActionConfig}
    (member : action ∈ applicableActions method location) (canonicalize : List UInt8 → Option (List UInt8)) :
    runtimeAction canonicalize action = some action := by
  obtain ⟨child,-,held⟩ := List.mem_flatMap.mp member
  rcases List.mem_append.mp held with plain | under
  · exact plainReturns_kept plain canonicalize
  · exact methodReturns_kept under canonicalize

theorem triedActions_applicable {method : List UInt8} {location : Directive} {action : RouteActionConfig}
    (member : action ∈ triedActions method location) : action ∈ applicableActions method location := by
  rcases List.mem_append.mp member with under | plain
  · obtain ⟨child,inside,last⟩ := List.mem_filterMap.mp under
    exact List.mem_flatMap.mpr ⟨child,inside,List.mem_append_right _ (List.mem_of_getLast? last)⟩
  · obtain ⟨child,inside,held⟩ := List.mem_flatMap.mp (List.mem_of_getLast? (Option.mem_toList.mp plain))
    exact List.mem_flatMap.mpr ⟨child,inside,List.mem_append_left _ held⟩

theorem triedActions_nil {method : List UInt8} {location : Directive} (none : triedActions method location = []) :
    applicableActions method location = [] := by
  obtain ⟨under,plain⟩ := List.append_eq_nil_iff.mp none
  rw [applicableActions,List.flatMap_eq_nil_iff]
  intro child member
  have noPlain : location.children.flatMap plainReturns = [] := by
    rw [← List.getLast?_eq_none_iff]
    exact Option.toList_eq_nil_iff.mp plain
  have noUnder := List.filterMap_eq_nil_iff.mp under child member
  rw [List.flatMap_eq_nil_iff.mp noPlain child member,List.getLast?_eq_none_iff.mp noUnder]
  rfl

theorem answer_rest {location : Directive} {snapshot : ServerSpec} {before : Translation} {path : List UInt8}
    {matchKind : RouteMatchKind} {names : List (SocketAddr × List UInt8)} {upstreams : List UpstreamConfig} {method : List UInt8}
    {action : RouteActionConfig} (matched : locationMatch location = some (matchKind,path))
    (kept : NamesKept (parseLocation location snapshot before).2.upstreamNames names)
    (named : ∀ address name, Ledger.find address names = some name → ⟨name,displaySocketAddr address⟩ ∈ upstreams)
    (none : applicableActions method location = [])
    (acts : locationAction snapshot (locationEnd location snapshot before matchKind path) = some action) :
    AnswerOf upstreams snapshot.root method location action := by
  have ran := @locationEnd_ran path matchKind location snapshot before
  have silent : (locationEnd location snapshot before matchKind path).action = .none := by
    rw [ran.action]
    refine (actions_last location.children).trans (List.getLast?_eq_none_iff.mpr ?_)
    rw [List.flatMap_eq_nil_iff]
    exact fun child member => (List.append_eq_nil_iff.mp (List.flatMap_eq_nil_iff.mp none child member)).1
  have names' : (parseLocation location snapshot before).2.upstreamNames =
      (locationEnd location snapshot before matchKind path).upstream.names := by
    obtain ⟨message,parsed⟩ := @parseLocation_matched path matchKind location snapshot before matched
    rw [parsed]
    cases finalRoutes path matchKind snapshot (locationEnd location snapshot before matchKind path) with
    | none => rfl
    | some routes => rfl
  obtain ⟨-,last⟩ := upstreams_last location.children ⟨.none,before.upstreamNames⟩
  have upstream : (locationEnd location snapshot before matchKind path).upstream =
      location.children.foldl (fun settings child => upstreamAfter child.keyword child.args settings) ⟨.none,before.upstreamNames⟩ :=
    ran.upstream
  rw [names',upstream] at kept
  rw [← upstream] at last kept
  have place : ((locationEnd location snapshot before matchKind path).root,
      (locationEnd location snapshot before matchKind path).mapping) = filesFrom location.children (snapshot.root,.root) := ran.place
  unfold AnswerOf
  rw [none,List.head?_nil]
  dsimp only
  cases passed : (location.children.filterMap passOf).getLast? with
  | some pass =>
    obtain ⟨address,replacement⟩ := pass
    rw [passed] at last
    obtain ⟨name,proxied,found⟩ := last
    unfold locationAction at acts
    rw [silent,show (locationEnd location snapshot before matchKind path).proxy = some (name,replacement) from proxied] at acts
    exact ⟨name,_,named address name (kept address name found),(Option.some.inj acts).symm⟩
  | none =>
    rw [passed] at last
    rw [locationAction_files silent last] at acts
    obtain ⟨directory,found,made⟩ := Option.map_eq_some_iff.mp acts
    rw [found] at place
    exact ⟨directory,_,_,_,_,place.symm,made.symm⟩

theorem translatedUpstreams_named (translation : Translation) (address : SocketAddr) (name : List UInt8)
    (found : Ledger.find address translation.upstreamNames = some name) :
    ⟨name,displaySocketAddr address⟩ ∈ translatedUpstreams translation := by
  refine List.mem_map.mpr ⟨(address,name),?_,rfl⟩
  rw [List.mem_insertionSort]
  exact Ledger.find_mem found

theorem effectiveRoutes_locations {block : Directive} {server : ServerSpec} (held : ServerOf block server)
    (noReturn : inherited block.children (ascii "return") = []) (noIf : inherited block.children (ascii "if") = []) (key : List UInt8) :
    effectiveRoutes server key = server.locations := by
  have absent {child : Directive} (member : child ∈ block.children) : child.keyword ≠ .returns ∧ child.keyword ≠ .condition := by
    refine ⟨fun read => ?_,fun read => ?_⟩
    · have listed := mem_inherited.mpr ⟨member,keyword_returns.mp read⟩
      rw [noReturn] at listed
      cases listed
    · have listed := mem_inherited.mpr
        ⟨member,(keyword_named (by decide : (ascii "if",Keyword.condition) ∈ keywords)).mp read⟩
      rw [noIf] at listed
      cases listed
  have returns : server.returns = [] := by
    rw [held.returns,List.map_eq_nil_iff,List.flatMap_eq_nil_iff]
    exact fun child member => plainReturns_other (absent member).1
  have under : (Ledger.find key server.hostReturns).getD [] = [] := by
    rw [held.under,List.map_eq_nil_iff,List.flatMap_eq_nil_iff]
    exact fun child member => hostReturns_other (absent member).2 key
  unfold effectiveRoutes
  dsimp only
  rw [under,returns]
  rfl

theorem selected_location (translated : translate files tree = .ok config) (compiled : compileRuntimeRoutes canonicalize config = some routes)
    {block : Directive} {server : ServerSpec} (single : serverBlocks tree = [block]) (read : treeServers tree = [server])
    (noReturn : inherited block.children (ascii "return") = []) (noIf : inherited block.children (ascii "if") = [])
    (distinct : ((locationsOf block).filterMap locationMatch).Nodup) {asked : Asked} (offered : asked.scheme ∈ schemesOf server.listens)
    (lower : asked.method.map toAsciiLowercase = asked.method)
    (matching : ∃ location ∈ locationsOf block, Matches location asked.target.routingPath) : ∃ location selected route action,
      nginxLocation (locationsOf block) asked.target.routingPath = some location ∧
      selectRouteFold routes asked.authority asked.target asked.method asked.scheme = some selected ∧
      routes[selected]? = some route ∧ locationMatch location = some (route.matchKind,route.path) ∧
      runtimeAction canonicalize action = some route.action ∧
      match (triedActions asked.method location).head? with
      | some tried => action = tried
      | none => AnswerOf config.upstreams server.root asked.method location action := by
  obtain ⟨http,limit,translation,owners,assembly,passes⟩ := translate_passes translated
  obtain ⟨builds,built⟩ := translate_built translated passes
  obtain ⟨started,servers,ended⟩ := single_server passes single
  have same : server = (parseServer block (some limit) started).server := (List.cons.inj (read.symm.trans servers)).1
  have quiet : (parseServer block (some limit) started).translation.issues = [] := by
    rw [← ended]
    exact passes.quiet
  obtain ⟨groups,firsts,located,placed⟩ := parseServer_groups quiet
  have held : ServerOf block server := by
    rw [same]
    exact parseServer_of _ _ _
  have root : server.root = (serverSnapshot block (some limit) started).server.root := by
    have kept := congrArg ServerSpec.root (parseServer_server block (some limit) started)
    rw [same]
    exact kept
  rw [← same] at placed
  rw [← ended] at located
  -- under every name the server has the routes of its locations, location by location
  have scopes (key : List UInt8) : scopedRoutes server key asked.scheme =
      groups.flatMap fun group => group.2.map (withSchemes [asked.scheme]) := by
    rw [scopedRoutes,effectiveRoutes_locations held noReturn noIf,placed,List.map_map,List.map_flatMap]
    rfl
  obtain ⟨location,taken⟩ := nginxLocation_some matching
  obtain ⟨matchKind,path,highest⟩ := nginxLocation_highest taken
  -- the taken location has a route for the request, so some route is selected
  obtain ⟨group,inside,named⟩ := List.mem_map.mp (by rw [firsts]; exact highest.inside : location ∈ groups.map Prod.fst)
  obtain ⟨started',made',-⟩ := located group inside
  obtain ⟨otherPath,otherKind,routesOf⟩ := outcome_routes made'
  have again := routesOf.matched
  rw [named,highest.matched] at again
  cases again
  obtain ⟨own,ownFound,-⟩ := routesOf.first lower
  have ownMember := List.mem_of_find?_eq_some ownFound
  obtain ⟨ownPath,ownKind⟩ := routesOf.placed own ownMember
  have ownMethod : methodFits asked.method own = true := List.find?_some ownFound
  have ownFits : Fits (withSchemes [asked.scheme] own) asked := by
    rw [fits_iff]
    refine ⟨?_,ownMethod⟩
    change PathFits own.matchKind own.path asked.target.routingPath
    rw [ownPath,ownKind]
    exact highest.fits
  have ownScoped (key : List UInt8) : withSchemes [asked.scheme] own ∈ scopedRoutes server key asked.scheme := by
    rw [scopes]
    exact List.mem_flatMap.mpr ⟨group,inside,List.mem_map_of_mem ownMember⟩
  obtain ⟨plain,effective,samePlain⟩ := List.mem_map.mp (ownScoped (ascii "*"))
  have serves : Serves owners (treeServers tree) 0 (ascii "*") asked := by
    refine ⟨server,single_answers passes read offered,rfl,plain,effective,?_⟩
    have fits := ownFits
    rw [← samePlain] at fits
    exact fits
  obtain ⟨other,listed,-,able⟩ := serves_eligible passes compiled serves
  cases selecting : selectRouteFold routes asked.authority asked.target asked.method asked.scheme with
  | none => exact absurd able (selectRouteFold_none selecting other listed)
  | some selected =>
    obtain ⟨route,found,eligible,-⟩ := selectRouteFold_best selecting
    obtain ⟨index,origin,-,answers,-,-,-⟩ := eligible_serves passes compiled found eligible
    have only : origin = server := by
      have placed := answers.1
      rw [read] at placed
      exact List.mem_singleton.mp (List.mem_of_getElem? placed)
    rw [only] at answers
    obtain ⟨above,longest⟩ := selected_highest passes compiled selecting found answers (ownScoped route.host) ownFits
    obtain ⟨before,source,after,split,made,fits,none⟩ := selected_first passes compiled selecting found answers
    have keeps := made.keeps
    have placedAt : (scopedRoutes server route.host asked.scheme)[before.length]? = some source := by
      rw [split,List.getElem?_append_right (Nat.le_refl _),Nat.sub_self]
      rfl
    rw [scopes] at placedAt
    obtain ⟨⟨taker,takerRoutes⟩,there,base,place,position,heldAt,run⟩ := flatMap_run groups _ _ placedAt
    rw [List.getElem?_map] at heldAt
    obtain ⟨first,firstAt,sourced⟩ := Option.map_eq_some_iff.mp heldAt
    obtain ⟨takerStart,takerMade,takerNames⟩ := located _ there
    obtain ⟨takerPath,takerKind,takerOf⟩ := outcome_routes takerMade
    obtain ⟨firstPath,firstKind⟩ := takerOf.placed first (List.mem_of_getElem? firstAt)
    have takerInside : taker ∈ locationsOf block := by
      rw [← firsts]
      exact List.mem_map_of_mem there
    have sourcePath : source.path = takerPath := by
      rw [← sourced]
      exact firstPath
    have sourceKind : source.matchKind = takerKind := by
      rw [← sourced]
      exact firstKind
    obtain ⟨takerFits,takerMethod⟩ := (fits_iff source asked).mp fits
    rw [sourcePath,sourceKind] at takerFits
    -- the selected route and the taken location stand above each other, so they are for one path
    obtain ⟨below,shorter⟩ := highest.above taker takerInside takerKind takerPath takerOf.matched takerFits
    rw [keeps.matchKind,sourceKind] at above longest
    rw [keeps.path,sourcePath] at longest
    have above' : matchKind = .exact → takerKind = .exact := fun exact => above (ownKind.trans exact)
    have kinds : matchKind = takerKind := by
      rcases locationMatch_kind highest.matched with exact | front
      · rw [above' exact,exact]
      · rcases locationMatch_kind takerOf.matched with exact | takerFront
        · rw [below exact,exact]
        · rw [front,takerFront]
    have longer : path.length ≤ takerPath.length := by
      rw [← ownPath]
      refine longest ?_
      rw [← kinds]
      exact iff_of_eq (congrArg (· = RouteMatchKind.exact) ownKind)
    have sized : path.length = takerPath.length := Nat.le_antisymm longer (shorter (by rw [kinds]))
    have paths : path = takerPath := by
      have fitting := highest.fits
      rcases locationMatch_kind highest.matched with rfl | rfl
      · rw [← kinds] at takerFits
        exact fitting.symm.trans takerFits
      · rw [← kinds] at takerFits
        exact (List.prefix_of_prefix_length_le fitting takerFits longer).eq_of_length sized
    have taking : taker = location := filterMap_unique distinct takerInside highest.inside takerOf.matched
      (by rw [highest.matched,kinds,paths])
    subst taking
    -- the routes of the location before the selected one are not for the method
    have firstFound : takerRoutes.find? (methodFits asked.method) = some first := by
      dsimp only at firstAt run
      obtain ⟨within,atPlace⟩ := List.getElem?_eq_some_iff.mp firstAt
      rw [List.find?_eq_some_iff_getElem]
      refine ⟨?_,place,within,atPlace,fun earlier before' => ?_⟩
      · rw [← sourced] at takerMethod
        exact takerMethod
      · rw [Bool.not_eq_true']
        rw [Bool.eq_false_iff]
        intro able
        have bound : earlier < takerRoutes.length := Nat.lt_trans before' within
        have earlierAt : takerRoutes[earlier]? = some takerRoutes[earlier] := List.getElem?_eq_getElem bound
        have whole := run earlier (withSchemes [asked.scheme] takerRoutes[earlier]) (by rw [List.getElem?_map,earlierAt]; rfl)
        rw [← scopes route.host,split,List.getElem?_append_left (by omega)] at whole
        obtain ⟨earlierPath,earlierKind⟩ := takerOf.placed _ (List.mem_of_getElem? earlierAt)
        refine none _ (List.mem_of_getElem? whole) ((fits_iff _ asked).mpr ⟨?_,able⟩) (earlierKind.trans sourceKind.symm) ?_
        · change PathFits takerRoutes[earlier].matchKind takerRoutes[earlier].path asked.target.routingPath
          rw [earlierPath,earlierKind]
          exact takerFits
        · rw [sourcePath]
          exact congrArg List.length earlierPath
    obtain ⟨chosen,chosenFound,acts⟩ := takerOf.first lower
    cases Option.some.inj (firstFound.symm.trans chosenFound)
    have action : source.action = first.action := by
      rw [← sourced]
      rfl
    refine ⟨taker,selected,route,first.action,taken,rfl,found,?_,?_,?_⟩
    · rw [keeps.matchKind,keeps.path,sourcePath,sourceKind]
      exact takerOf.matched
    · rw [← action]
      exact keeps.action
    · split at acts
      · rename_i tried head
        rw [head]
        exact acts
      · rename_i head
        rw [head]
        dsimp only
        rw [root]
        refine answer_rest takerOf.matched takerNames ?_ (triedActions_nil (List.head?_eq_none_iff.mp head)) acts
        rw [built.upstreams]
        exact translatedUpstreams_named translation

/-- A route that has the action that is tried first, and the action that the location answers with, has it from one return. -/
theorem answer_tried {upstreams : List UpstreamConfig} {root : Option (List UInt8)} {method : List UInt8} {location : Directive}
    {action other acting : RouteActionConfig} (made : runtimeAction canonicalize action = some acting)
    (otherMade : runtimeAction canonicalize other = some acting) (tried : ∀ first, (triedActions method location).head? = some first →
      action = first) (answers : AnswerOf upstreams root method location other) :
    (triedActions method location).head? = (applicableActions method location).head? := by
  cases first : (triedActions method location).head? with
  | none => rw [triedActions_nil (List.head?_eq_none_iff.mp first),List.head?_nil]
  | some action' =>
    have member := triedActions_applicable (List.mem_of_mem_head? first)
    rw [tried action' first,applicableActions_kept member canonicalize] at made
    cases applicable : (applicableActions method location).head? with
    | none =>
      rw [List.head?_eq_none_iff.mp applicable] at member
      cases member
    | some returned =>
      unfold AnswerOf at answers
      rw [applicable] at answers
      dsimp only at answers
      rw [answers,applicableActions_kept (List.mem_of_mem_head? applicable) canonicalize] at otherMade
      rw [Option.some.inj made,Option.some.inj otherMade]

/-- With one server without returns, a request for the path of some location is dispatched to the location that Nginx takes
exactly when the return that is tried first for the method is the first one that applies to it. -/
theorem locations_dispatched_iff (files : Files) (tree : List Directive) (config : Config)
    (translated : translate files tree = .ok config) (canonicalize : List UInt8 → Option (List UInt8)) (routes : List RuntimeRoute)
    (compiled : compileRuntimeRoutes canonicalize config = some routes) (block : Directive) (server : ServerSpec)
    (single : serverBlocks tree = [block]) (read : treeServers tree = [server])
    (noReturn : inherited block.children (ascii "return") = []) (noIf : inherited block.children (ascii "if") = [])
    (distinct : ((locationsOf block).filterMap locationMatch).Nodup) (asked : Asked) (offered : asked.scheme ∈ schemesOf server.listens)
    (lower : asked.method.map toAsciiLowercase = asked.method)
    (matching : ∃ location ∈ locationsOf block, Matches location asked.target.routingPath) :
    Dispatched canonicalize config routes block server asked ↔
      ∀ location, nginxLocation (locationsOf block) asked.target.routingPath = some location →
        (triedActions asked.method location).head? = (applicableActions asked.method location).head? := by
  obtain ⟨location,selected,route,action,taken,selecting,found,matched,acting,answers⟩ :=
    selected_location translated compiled single read noReturn noIf distinct offered lower matching
  constructor
  · rintro ⟨other,otherTaken,_,otherRoute,otherAction,otherSelecting,otherFound,-,otherActing,otherAnswers⟩ again againTaken
    cases Option.some.inj (taken.symm.trans otherTaken)
    cases Option.some.inj (taken.symm.trans againTaken)
    cases Option.some.inj (selecting.symm.trans otherSelecting)
    cases Option.some.inj (found.symm.trans otherFound)
    refine answer_tried acting otherActing (fun first head => ?_) otherAnswers
    rw [head] at answers
    exact answers
  · intro alike
    refine ⟨location,taken,selected,route,action,selecting,found,matched,acting,?_⟩
    have same := alike location taken
    cases tried : (triedActions asked.method location).head? with
    | none =>
      rw [tried] at answers
      exact answers
    | some first =>
      rw [tried] at answers same
      unfold AnswerOf
      rw [← same]
      exact answers

/-- A server with a location that returns, and a condition that returns before or behind it. -/
def returningTree (first second : Directive) : List Directive :=
  [blockDirective "events" [] [],blockDirective "http" []
    [blockDirective "server" [] [leafDirective "listen" ["127.0.0.1:8080"],leafDirective "server_name" ["app.example.test"],
      blockDirective "location" ["/"] [first,second]]]]

def plainReturn : Directive := leafDirective "return" ["200","any"]

def getReturn : Directive := blockDirective "if" ["($request_method","=","GET)"] [leafDirective "return" ["405","get"]]

/-- What the dispatch of a request reads of a server block. -/
structure BlockFacts where
  noReturn : Bool
  noIf : Bool
  matched : List (RouteMatchKind × List UInt8)
  tried : Option (Option RouteActionConfig)
  applicable : Option (Option RouteActionConfig)
deriving DecidableEq

def blockFacts (asked : Asked) (block : Directive) : BlockFacts :=
  ⟨(inherited block.children (ascii "return")).isEmpty,(inherited block.children (ascii "if")).isEmpty,
    (locationsOf block).filterMap locationMatch,
    (nginxLocation (locationsOf block) asked.target.routingPath).map fun location => (triedActions asked.method location).head?,
    (nginxLocation (locationsOf block) asked.target.routingPath).map fun location => (applicableActions asked.method location).head?⟩

def respond (status : Nat) (body : String) : RouteActionConfig := .respond status (ascii body) textContentType

theorem blockFacts_read {tree : List Directive} {asked : Asked} {tried applicable : Option RouteActionConfig}
    (facts : (serverBlocks tree).map (blockFacts asked) = [⟨true,true,[(.pathPrefix,ascii "/")],some tried,some applicable⟩]) :
    ∃ block, serverBlocks tree = [block] ∧ inherited block.children (ascii "return") = [] ∧
      inherited block.children (ascii "if") = [] ∧ ((locationsOf block).filterMap locationMatch).Nodup ∧
        ∃ location, nginxLocation (locationsOf block) asked.target.routingPath = some location ∧
          (triedActions asked.method location).head? = tried ∧ (applicableActions asked.method location).head? = applicable := by
  obtain ⟨block,single,read⟩ := List.map_eq_singleton_iff.mp facts
  unfold blockFacts at read
  rw [BlockFacts.mk.injEq,List.isEmpty_iff,List.isEmpty_iff] at read
  obtain ⟨noReturn,noIf,distinct,first,second⟩ := read
  obtain ⟨location,found,sameTried⟩ := Option.map_eq_some_iff.mp first
  rw [found] at second
  refine ⟨block,single,noReturn,noIf,?_,location,found,sameTried,Option.some.inj second⟩
  rw [distinct]
  exact List.nodup_singleton _

/-- A return behind the condition that goes before it in the routes, too. -/
theorem locations_dispatched_get : ∃ config routes block server, translate openFiles (returningTree getReturn plainReturn) = .ok config ∧
    compileRuntimeRoutes some config = some routes ∧ serverBlocks (returningTree getReturn plainReturn) = [block] ∧
      treeServers (returningTree getReturn plainReturn) = [server] ∧
      Dispatched some config routes block server (askedFor "app.example.test" "/") := by
  obtain ⟨config,routes,-,-,translated,compiled,-⟩ :=
    @selectedHost_some (returningTree getReturn plainReturn) (askedFor "app.example.test" "/") (ascii "app.example.test") (by decide +kernel)
  obtain ⟨block,single,noReturn,noIf,distinct,location,taken,tried,applicable⟩ :=
    @blockFacts_read (returningTree getReturn plainReturn) (askedFor "app.example.test" "/") (some (respond 405 "get"))
      (some (respond 405 "get")) (by decide +kernel)
  have schemes : (treeServers (returningTree getReturn plainReturn)).map (fun server => schemesOf server.listens) = [[ascii "http"]] := by
    decide +kernel
  obtain ⟨server,read,offered⟩ := List.map_eq_singleton_iff.mp schemes
  obtain ⟨matchKind,path,highest⟩ := nginxLocation_highest taken
  refine ⟨config,routes,block,server,translated,compiled,single,read,
    (locations_dispatched_iff openFiles (returningTree getReturn plainReturn) config translated some routes compiled block server single
      read noReturn noIf distinct (askedFor "app.example.test" "/") (by rw [offered]; decide) (by decide)
      ⟨location,highest.inside,matchKind,path,highest.matched,highest.fits⟩).mpr fun other again => ?_⟩
  cases Option.some.inj (taken.symm.trans again)
  exact tried.trans applicable.symm

/-- A return before the condition that the routes put it behind. -/
theorem location_overtaken : ∃ config routes block server, translate openFiles (returningTree plainReturn getReturn) = .ok config ∧
    compileRuntimeRoutes some config = some routes ∧ serverBlocks (returningTree plainReturn getReturn) = [block] ∧
      treeServers (returningTree plainReturn getReturn) = [server] ∧ inherited block.children (ascii "return") = [] ∧
      inherited block.children (ascii "if") = [] ∧ ((locationsOf block).filterMap locationMatch).Nodup ∧
      (askedFor "app.example.test" "/").scheme ∈ schemesOf server.listens ∧
      (∃ location ∈ locationsOf block, Matches location (ascii "/")) ∧
      ¬ Dispatched some config routes block server (askedFor "app.example.test" "/") := by
  obtain ⟨config,routes,-,-,translated,compiled,-⟩ :=
    @selectedHost_some (returningTree plainReturn getReturn) (askedFor "app.example.test" "/") (ascii "app.example.test") (by decide +kernel)
  obtain ⟨block,single,noReturn,noIf,distinct,location,taken,tried,applicable⟩ :=
    @blockFacts_read (returningTree plainReturn getReturn) (askedFor "app.example.test" "/") (some (respond 405 "get"))
      (some (respond 200 "any")) (by decide +kernel)
  have schemes : (treeServers (returningTree plainReturn getReturn)).map (fun server => schemesOf server.listens) = [[ascii "http"]] := by
    decide +kernel
  obtain ⟨server,read,offers⟩ := List.map_eq_singleton_iff.mp schemes
  obtain ⟨matchKind,path,highest⟩ := nginxLocation_highest taken
  have offered : (askedFor "app.example.test" "/").scheme ∈ schemesOf server.listens := by
    rw [offers]
    decide
  have matching : ∃ location ∈ locationsOf block, Matches location (ascii "/") :=
    ⟨location,highest.inside,matchKind,path,highest.matched,highest.fits⟩
  refine ⟨config,routes,block,server,translated,compiled,single,read,noReturn,noIf,distinct,offered,matching,?_⟩
  rintro ⟨other,otherTaken,_,otherRoute,otherAction,otherSelecting,otherFound,-,otherActing,otherAnswers⟩
  obtain ⟨again,selected,route,action,againTaken,selecting,found,-,acting,answers⟩ :=
    @selected_location _ _ _ some routes translated compiled block server single read noReturn noIf distinct
      (askedFor "app.example.test" "/") offered (by decide) matching
  cases Option.some.inj (taken.symm.trans otherTaken)
  cases Option.some.inj (taken.symm.trans againTaken)
  cases Option.some.inj (selecting.symm.trans otherSelecting)
  cases Option.some.inj (found.symm.trans otherFound)
  have same := answer_tried acting otherActing (fun first head => by
    rw [head] at answers
    exact answers) otherAnswers
  rw [tried,applicable] at same
  exact absurd (Option.some.inj same) (by decide)

end Dispatched

end Polyguard.Nginx
