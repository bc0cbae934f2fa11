import Polyguard.Nginx.AccessRules

/-! What a server block writes into its server, directive by directive.
The names, the listeners, the plain returns and the returns under a condition on the
host each grow by what one directive writes, so that the server holds them in the
order of the source. -/
namespace Polyguard.Nginx
open Ascii Slices Decimal Proxy

section Written

/-- A name as the translator keeps it, where it keeps it. -/
def serverName (name : List UInt8) : Option (List UInt8) :=
  if name == ascii "_" then none
  else if startsWith 0x7e name || name.contains 0x24 then none
  else some ((name.rdropWhile (· == 0x2e)).map toAsciiLowercase)

def writtenNames (child : Directive) : List (List UInt8) :=
  match child.keyword with
  | .serverName => child.args.filterMap serverName
  | _ => []

def writtenListens (child : Directive) : List ListenSpec :=
  match child.keyword with
  | .listen => (parseListen child).toList
  | _ => []

/-- The action of a plain return. -/
def plainReturns (child : Directive) : List RouteActionConfig :=
  match child.keyword with
  | .returns => (returnAction child).toList
  | _ => []

/-- The actions of the returns that a directive puts under the condition that the host is the given one. -/
def hostReturns (host : List UInt8) (child : Directive) : List RouteActionConfig :=
  match child.keyword with
  | .condition =>
    match ifCondition child with
    | some condition =>
      if condition.name = ascii "$host" ∧ condition.operator = ascii "=" ∧ condition.value = host then
        child.children.flatMap plainReturns
      else []
    | none => []
  | _ => []

end Written

section Fields

/-- A step that leaves the names, the listeners and the returns as they are. -/
structure SettingsKept (before after : ServerState) : Prop where
  names : after.server.names = before.server.names
  listens : after.server.listens = before.server.listens
  returns : after.server.returns = before.server.returns
  hostReturns : after.server.hostReturns = before.server.hostReturns

theorem SettingsKept.refl (state : ServerState) : SettingsKept state state := ⟨rfl,rfl,rfl,rfl⟩

theorem serverStep_settings {child : Directive} (listens : child.keyword ≠ .listen) (names : child.keyword ≠ .serverName)
    (returns : child.keyword ≠ .returns) (condition : child.keyword ≠ .condition) (state : ServerState) :
    SettingsKept state (serverStep state child) := by
  have issued (message : List UInt8) : SettingsKept state (state.issue child message) := ⟨rfl,rfl,rfl,rfl⟩
  unfold serverStep
  cases read : child.keyword with
  | listen => exact absurd read listens
  | serverName => exact absurd read names
  | returns => exact absurd read returns
  | condition => exact absurd read condition
  | root =>
    dsimp only
    split
    · exact ⟨rfl,rfl,rfl,rfl⟩
    · exact issued _
  | index =>
    dsimp only
    split
    · exact issued _
    · exact ⟨rfl,rfl,rfl,rfl⟩
  | errorPage =>
    dsimp only
    split
    · split
      · exact ⟨rfl,rfl,rfl,rfl⟩
      · exact issued _
    · exact issued _
  | clientMaxBodySize =>
    dsimp only
    split
    · split
      · exact ⟨rfl,rfl,rfl,rfl⟩
      · exact ⟨rfl,rfl,rfl,rfl⟩
    · exact issued _
  | sslCertificate =>
    dsimp only
    split
    · exact ⟨rfl,rfl,rfl,rfl⟩
    · exact issued _
  | sslCertificateKey =>
    dsimp only
    split
    · exact ⟨rfl,rfl,rfl,rfl⟩
    · exact issued _
  | addHeader =>
    dsimp only
    split
    · exact ⟨rfl,rfl,rfl,rfl⟩
    · exact issued _
  | deny =>
    dsimp only
    split
    · exact ⟨rfl,rfl,rfl,rfl⟩
    · exact .refl state
  | aliases => exact .refl state
  | location => exact .refl state
  | tryFiles => exact .refl state
  | proxyPass => exact .refl state
  | proxySetHeader => exact .refl state
  | proxyHttpVersion => exact .refl state
  | proxyRedirect => exact .refl state
  | other => exact .refl state

theorem serverNameStep_fields (child : Directive) (state : ServerState) (name : List UInt8) :
    (serverNameStep child state name).server =
      { state.server with names := state.server.names ++ (serverName name).toList } := by
  unfold serverNameStep serverName
  split
  · rw [Option.toList_none,List.append_nil]
  · split
    · rw [Option.toList_none,List.append_nil]
      rfl
    · rfl

theorem serverNames_fields (child : Directive) (names : List (List UInt8)) : ∀ state : ServerState,
    (names.foldl (serverNameStep child) state).server =
      { state.server with names := state.server.names ++ names.filterMap serverName } := by
  induction names with
  | nil =>
    intro state
    rw [List.filterMap_nil,List.append_nil]
    rfl
  | cons name names ih =>
    intro state
    rw [List.foldl_cons,ih,serverNameStep_fields]
    cases kept : serverName name with
    | none =>
      rw [List.filterMap_cons_none kept,Option.toList_none,List.append_nil]
    | some value =>
      rw [List.filterMap_cons_some kept,Option.toList_some,List.append_assoc]
      rfl

/-- The actions kept under a host. -/
def actionsUnder (host : List UInt8) (server : ServerSpec) : List RouteActionConfig :=
  ((Ledger.find host server.hostReturns).getD []).map (·.action)

theorem pushEntry_find {Value : Type} (key host : List UInt8) (value : Value) (entries : List (List UInt8 × List Value)) :
    (Ledger.find host (pushEntry key value entries)).getD [] =
      (Ledger.find host entries).getD [] ++ (if key = host then [value] else []) := by
  unfold pushEntry
  by_cases same : key = host
  · subst same
    rw [if_pos rfl]
    cases found : Ledger.find key entries with
    | none =>
      dsimp only
      rw [Ledger.find_opened]
      rfl
    | some values =>
      dsimp only
      rw [Ledger.find_replace found]
      rfl
  · rw [if_neg same,List.append_nil]
    split
    · rw [Ledger.find_replace_other (Ne.symm same)]
    · rw [Ledger.find_open (Ne.symm same)]

theorem plainReturns_other {child : Directive} (other : child.keyword ≠ .returns) : plainReturns child = [] := by
  unfold plainReturns
  split
  · rename_i read
    exact absurd read other
  · rfl

theorem hostConditionStep_other {nested : Directive} (other : nested.keyword ≠ .returns) (value : List UInt8)
    (state : ServerState) : hostConditionStep value state nested = state := by
  unfold hostConditionStep
  split
  · rename_i read
    exact absurd read other
  · rfl

/-- A route of a return at the level of a server, before its settings. -/
def IsReturn (route : ActionRouteConfig) : Prop := ∃ headers action, route = returnRoute headers action

def HostReturned (server : ServerSpec) : Prop := ∀ host, ∀ route ∈ (Ledger.find host server.hostReturns).getD [], IsReturn route

/-- A directive inside a condition on the host adds its return under that host, and changes nothing else. -/
structure HostExtended (value : List UInt8) (added : List RouteActionConfig) (before after : ServerSpec) : Prop where
  names : after.names = before.names
  listens : after.listens = before.listens
  returns : after.returns = before.returns
  under : ∀ host, actionsUnder host after = actionsUnder host before ++ (if value = host then added else [])
  returned : HostReturned before → HostReturned after

theorem HostExtended.refl (value : List UInt8) (server : ServerSpec) : HostExtended value [] server server :=
  ⟨rfl,rfl,rfl,fun _ => by rw [ite_self,List.append_nil],id⟩

theorem hostConditionStep_extended (value : List UInt8) (state : ServerState) (nested : Directive) :
    HostExtended value (plainReturns nested) state.server (hostConditionStep value state nested).server := by
  by_cases read : nested.keyword = .returns
  · unfold hostConditionStep plainReturns
    rw [read]
    dsimp only
    cases returned : returnAction nested with
    | none => exact .refl value state.server
    | some action =>
      refine ⟨rfl,rfl,rfl,fun host => ?_,fun before host route member => ?_⟩
      · unfold actionsUnder
        dsimp only
        rw [pushEntry_find,List.map_append]
        split
        · rfl
        · rfl
      · dsimp only at member
        rw [pushEntry_find,List.mem_append] at member
        rcases member with early | last
        · exact before host route early
        · split at last
          · exact ⟨_,_,List.mem_singleton.mp last⟩
          · cases last
  · rw [hostConditionStep_other read,plainReturns_other read]
    exact .refl value state.server

theorem hostCondition_extended (value : List UInt8) (children : List Directive) : ∀ state : ServerState,
    HostExtended value (children.flatMap plainReturns) state.server (children.foldl (hostConditionStep value) state).server := by
  induction children with
  | nil => exact fun state => .refl value state.server
  | cons nested children ih =>
    intro state
    have first := hostConditionStep_extended value state nested
    have later := ih (hostConditionStep value state nested)
    refine ⟨later.names.trans first.names,later.listens.trans first.listens,later.returns.trans first.returns,fun host => ?_,
      later.returned ∘ first.returned⟩
    rw [List.foldl_cons,later.under,first.under,List.append_assoc,List.flatMap_cons]
    split
    · rfl
    · rfl

/-- What one directive of a server block adds to its server. -/
structure ServerExtended (child : Directive) (before after : ServerSpec) : Prop where
  names : after.names = before.names ++ writtenNames child
  listens : after.listens = before.listens ++ writtenListens child
  returns : after.returns.map (·.action) = before.returns.map (·.action) ++ plainReturns child
  under : ∀ host, actionsUnder host after = actionsUnder host before ++ hostReturns host child
  returned : (∀ route ∈ before.returns, IsReturn route) → ∀ route ∈ after.returns, IsReturn route
  hostReturned : HostReturned before → HostReturned after

theorem writtenNames_other {child : Directive} (other : child.keyword ≠ .serverName) : writtenNames child = [] := by
  unfold writtenNames
  split
  · rename_i read
    exact absurd read other
  · rfl

theorem writtenListens_other {child : Directive} (other : child.keyword ≠ .listen) : writtenListens child = [] := by
  unfold writtenListens
  split
  · rename_i read
    exact absurd read other
  · rfl

theorem hostReturns_other {child : Directive} (other : child.keyword ≠ .condition) (host : List UInt8) :
    hostReturns host child = [] := by
  unfold hostReturns
  split
  · rename_i read
    exact absurd read other
  · rfl

theorem serverStep_listen {child : Directive} (read : child.keyword = .listen) (state : ServerState) :
    (serverStep state child).server = { state.server with listens := state.server.listens ++ writtenListens child } := by
  unfold serverStep writtenListens
  rw [read]
  dsimp only
  cases parseListen child with
  | none =>
    rw [Option.toList_none,List.append_nil]
    rfl
  | some listen => rfl

theorem serverStep_serverName {child : Directive} (read : child.keyword = .serverName) (state : ServerState) :
    (serverStep state child).server = { state.server with names := state.server.names ++ writtenNames child } := by
  unfold serverStep writtenNames
  rw [read]
  dsimp only
  split
  · rename_i empty
    rw [List.isEmpty_iff] at empty
    rw [empty,List.filterMap_nil,List.append_nil]
    rfl
  · exact serverNames_fields child child.args state

theorem serverStep_return {child : Directive} (read : child.keyword = .returns) (state : ServerState) :
    (serverStep state child).server = { state.server with
      returns := state.server.returns ++ (plainReturns child).map (returnRoute state.server.responseHeaders) } := by
  unfold serverStep plainReturns
  rw [read]
  dsimp only
  cases returnAction child with
  | none =>
    rw [Option.toList_none,List.map_nil,List.append_nil]
    rfl
  | some action => rfl

theorem serverStep_condition {child : Directive} (read : child.keyword = .condition) (state : ServerState) :
    (serverStep state child).server.names = state.server.names ∧ (serverStep state child).server.listens = state.server.listens ∧
      (serverStep state child).server.returns = state.server.returns ∧
      (∀ host, actionsUnder host (serverStep state child).server = actionsUnder host state.server ++ hostReturns host child) ∧
      (HostReturned state.server → HostReturned (serverStep state child).server) := by
  unfold serverStep hostReturns
  rw [read]
  dsimp only
  cases ifCondition child with
  | none => exact ⟨rfl,rfl,rfl,fun host => (List.append_nil _).symm,id⟩
  | some condition =>
    dsimp only
    split
    · rename_i unsupported
      refine ⟨rfl,rfl,rfl,fun host => ?_,id⟩
      rw [if_neg,List.append_nil]
      · rfl
      · rintro ⟨named,compared,-⟩
        rw [Bool.or_eq_true,decide_eq_true_eq,decide_eq_true_eq] at unsupported
        exact unsupported.elim (absurd named) (absurd compared)
    · rename_i supported
      rw [Bool.or_eq_true,decide_eq_true_eq,decide_eq_true_eq,not_or,not_not,not_not] at supported
      have extended := hostCondition_extended condition.value child.children state
      refine ⟨extended.names,extended.listens,extended.returns,fun host => ?_,extended.returned⟩
      rw [extended.under]
      by_cases same : condition.value = host
      · rw [if_pos same,if_pos ⟨supported.1,supported.2,same⟩]
      · rw [if_neg same,if_neg fun all => same all.2.2]

theorem serverStep_extended (state : ServerState) (child : Directive) :
    ServerExtended child state.server (serverStep state child).server := by
  by_cases listens : child.keyword = .listen
  · rw [serverStep_listen listens]
    refine ⟨?_,rfl,?_,fun host => ?_,id,id⟩
    · rw [writtenNames_other (by rw [listens]; decide),List.append_nil]
    · rw [plainReturns_other (by rw [listens]; decide),List.append_nil]
    · rw [hostReturns_other (by rw [listens]; decide),List.append_nil]
      rfl
  · by_cases names : child.keyword = .serverName
    · rw [serverStep_serverName names]
      refine ⟨rfl,?_,?_,fun host => ?_,id,id⟩
      · rw [writtenListens_other listens,List.append_nil]
      · rw [plainReturns_other (by rw [names]; decide),List.append_nil]
      · rw [hostReturns_other (by rw [names]; decide),List.append_nil]
        rfl
    · by_cases returns : child.keyword = .returns
      · rw [serverStep_return returns]
        refine ⟨?_,?_,?_,fun host => ?_,fun before route member => ?_,id⟩
        · rw [writtenNames_other names,List.append_nil]
        · rw [writtenListens_other listens,List.append_nil]
        · rw [List.map_append,List.map_map]
          exact congrArg _ (List.map_id _)
        · rw [hostReturns_other (by rw [returns]; decide),List.append_nil]
          rfl
        · rcases List.mem_append.mp member with early | last
          · exact before route early
          · obtain ⟨action,-,rfl⟩ := List.mem_map.mp last
            exact ⟨_,action,rfl⟩
      · by_cases condition : child.keyword = .condition
        · obtain ⟨sameNames,sameListens,sameReturns,under,hostReturned⟩ := serverStep_condition condition state
          refine ⟨?_,?_,?_,under,?_,hostReturned⟩
          · rw [sameNames,writtenNames_other names,List.append_nil]
          · rw [sameListens,writtenListens_other listens,List.append_nil]
          · rw [sameReturns,plainReturns_other returns,List.append_nil]
          · rw [sameReturns]
            exact id
        · have kept := serverStep_settings listens names returns condition state
          refine ⟨?_,?_,?_,fun host => ?_,?_,?_⟩
          · rw [kept.names,writtenNames_other names,List.append_nil]
          · rw [kept.listens,writtenListens_other listens,List.append_nil]
          · rw [kept.returns,plainReturns_other returns,List.append_nil]
          · rw [hostReturns_other condition,List.append_nil]
            unfold actionsUnder
            rw [kept.hostReturns]
          · rw [kept.returns]
            exact id
          · unfold HostReturned
            rw [kept.hostReturns]
            exact id

end Fields

section Whole

/-- The server behind the first loop of `parse_server`. -/
theorem serverSteps_extended (children : List Directive) : ∀ state : ServerState,
    (children.foldl serverStep state).server.names = state.server.names ++ children.flatMap writtenNames ∧
      (children.foldl serverStep state).server.listens = state.server.listens ++ children.flatMap writtenListens ∧
      (children.foldl serverStep state).server.returns.map (·.action) =
        state.server.returns.map (·.action) ++ children.flatMap plainReturns ∧
      (∀ host, actionsUnder host (children.foldl serverStep state).server =
        actionsUnder host state.server ++ children.flatMap (hostReturns host)) ∧
      ((∀ route ∈ state.server.returns, IsReturn route) →
        ∀ route ∈ (children.foldl serverStep state).server.returns, IsReturn route) ∧
      (HostReturned state.server → HostReturned (children.foldl serverStep state).server) := by
  induction children with
  | nil =>
    intro state
    refine ⟨?_,?_,?_,fun host => ?_,id,id⟩
    all_goals exact (List.append_nil _).symm
  | cons child children ih =>
    intro state
    obtain ⟨names,listens,returns,under,returned,hostReturned⟩ := ih (serverStep state child)
    have step := serverStep_extended state child
    rw [List.foldl_cons]
    refine ⟨?_,?_,?_,fun host => ?_,returned ∘ step.returned,hostReturned ∘ step.hostReturned⟩
    · rw [names,step.names,List.append_assoc,List.flatMap_cons]
    · rw [listens,step.listens,List.append_assoc,List.flatMap_cons]
    · rw [returns,step.returns,List.append_assoc,List.flatMap_cons]
    · rw [under,step.under,List.append_assoc,List.flatMap_cons]

/-- The server of a block: what its directives write, in their order. -/
structure ServerOf (block : Directive) (server : ServerSpec) : Prop where
  names : server.names = block.children.flatMap writtenNames
  listens : server.listens = if (block.children.flatMap writtenListens).isEmpty then [defaultListen]
    else block.children.flatMap writtenListens
  returns : server.returns = (block.children.flatMap plainReturns).map fun action => settleReturn server (returnRoute [] action)
  under : ∀ host, (Ledger.find host server.hostReturns).getD [] =
    (block.children.flatMap (hostReturns host)).map fun action => settleReturn server (returnRoute [] action)

theorem settleReturn_isReturn {server : ServerSpec} {route : ActionRouteConfig} (returned : IsReturn route) :
    settleReturn server route = settleReturn server (returnRoute [] route.action) := by
  obtain ⟨headers,action,rfl⟩ := returned
  rfl

theorem map_settleReturn {server : ServerSpec} {routes : List ActionRouteConfig} (returned : ∀ route ∈ routes, IsReturn route) :
    routes.map (settleReturn server) =
      (routes.map (·.action)).map fun action => settleReturn server (returnRoute [] action) := by
  rw [List.map_map]
  exact List.map_congr_left fun route member => settleReturn_isReturn (returned route member)

/-- The server with its listeners settled. -/
def settleListens (server : ServerSpec) : ServerSpec :=
  if server.listens.isEmpty then { server with listens := [defaultListen] } else server

theorem settleListens_fields (server : ServerSpec) : (settleListens server).names = server.names ∧
    (settleListens server).returns = server.returns ∧ (settleListens server).hostReturns = server.hostReturns ∧
    (settleListens server).listens = if server.listens.isEmpty then [defaultListen] else server.listens := by
  unfold settleListens
  split
  · exact ⟨rfl,rfl,rfl,rfl⟩
  · exact ⟨rfl,rfl,rfl,rfl⟩

theorem settleServer_of {block : Directive} {server : ServerSpec} (names : server.names = block.children.flatMap writtenNames)
    (listens : server.listens = block.children.flatMap writtenListens)
    (returns : server.returns.map (·.action) = block.children.flatMap plainReturns)
    (under : ∀ host, actionsUnder host server = block.children.flatMap (hostReturns host))
    (returned : ∀ route ∈ server.returns, IsReturn route) (hostReturned : HostReturned server) :
    ServerOf block (settleServer server) := by
  obtain ⟨sameNames,sameReturns,sameHostReturns,settled⟩ := settleListens_fields server
  refine ⟨sameNames.trans names,?_,?_,fun host => ?_⟩
  · rw [← listens]
    exact settled
  · rw [← returns,← map_settleReturn returned]
    exact congrArg (List.map (settleReturn (settleListens server))) sameReturns
  · have kept : ((Ledger.find host server.hostReturns).getD []).map (settleReturn (settleListens server)) =
        (block.children.flatMap (hostReturns host)).map fun action => settleReturn (settleListens server) (returnRoute [] action) := by
      rw [← under host,actionsUnder]
      exact map_settleReturn (hostReturned host)
    refine Eq.trans ?_ kept
    change (Ledger.find host ((settleListens server).hostReturns.map fun entry =>
      (entry.1,entry.2.map (settleReturn (settleListens server))))).getD [] = _
    rw [Ledger.find_map,sameHostReturns]
    cases Ledger.find host server.hostReturns with
    | none => rfl
    | some routes => rfl

theorem serverSnapshot_of (block : Directive) (limit : Option Nat) (started : Translation) :
    ServerOf block (serverSnapshot block limit started).server := by
  obtain ⟨names,listens,returns,under,returned,hostReturned⟩ :=
    serverSteps_extended block.children ⟨emptyServer limit,started⟩
  refine settleServer_of names listens returns under (returned fun route member => ?_) (hostReturned fun host route member => ?_)
  · cases member
  · cases member

def withoutLocations (server : ServerSpec) : ServerSpec := { server with locations := [] }

theorem locationsStep_server (snapshot : ServerSpec) (state : ServerState) (child : Directive) :
    withoutLocations (locationsStep snapshot state child).server = withoutLocations state.server := by
  unfold locationsStep
  split
  · split
    · rfl
    · rfl
  · rfl

theorem parseServer_server (block : Directive) (limit : Option Nat) (started : Translation) :
    withoutLocations (parseServer block limit started).server = withoutLocations (serverSnapshot block limit started).server :=
  (foldl_grows (fun before after : ServerState => withoutLocations after.server = withoutLocations before.server)
    (fun _ => rfl) (fun _ _ _ first second => second.trans first)
    (locationsStep_server (serverSnapshot block limit started).server) block.children (serverSnapshot block limit started)).1

theorem ServerOf.locations {block : Directive} {server other : ServerSpec} (held : ServerOf block server)
    (same : withoutLocations other = withoutLocations server) : ServerOf block other := by
  cases server
  cases other
  cases same
  exact ⟨held.names,held.listens,held.returns,held.under⟩

theorem parseServer_of (block : Directive) (limit : Option Nat) (started : Translation) :
    ServerOf block (parseServer block limit started).server :=
  (serverSnapshot_of block limit started).locations (parseServer_server block limit started)

theorem ServerOf.listening {block : Directive} {server : ServerSpec} (held : ServerOf block server) : server.listens ≠ [] := by
  rw [held.listens]
  split
  · exact List.cons_ne_nil _ _
  · rename_i some
    rw [List.isEmpty_iff] at some
    exact some

theorem ServerOf.lower {block : Directive} {server : ServerSpec} (held : ServerOf block server) :
    ∀ name ∈ server.names, name.map toAsciiLowercase = name := by
  intro name member
  rw [held.names] at member
  obtain ⟨child,-,inside⟩ := List.mem_flatMap.mp member
  unfold writtenNames at inside
  split at inside
  · obtain ⟨word,-,kept⟩ := List.mem_filterMap.mp inside
    unfold serverName at kept
    split at kept
    · cases kept
    · split at kept
      · cases kept
      · cases kept
        rw [List.map_map]
        exact List.map_congr_left fun byte _ => toAsciiLowercase_idem byte
  · cases inside

theorem serversFold_length (limit : Option Nat) (blocks : List Directive) : ∀ (done : List ServerSpec) (state : Translation),
    (blocks.foldl (fun (servers,translation) directive =>
      let state := parseServer directive limit translation
      (servers ++ [state.server],state.translation)) (done,state)).1.length = done.length + blocks.length := by
  induction blocks with
  | nil => exact fun done state => rfl
  | cons first blocks ih =>
    intro done state
    rw [List.foldl_cons,ih,List.length_append,List.length_singleton,List.length_cons]
    omega

theorem parseServers_length (directives : List Directive) (limit : Option Nat) (started : Translation) :
    (parseServers directives limit started).1.length = (inherited directives (ascii "server")).length := by
  have counted := serversFold_length limit (inherited directives (ascii "server")) [] started
  rw [List.length_nil,Nat.zero_add] at counted
  exact counted

theorem treeServers_of {files : Files} {tree : List Directive} {config : Config} {http : Directive} {limit : Nat}
    {translation : Translation} {owners : Owners} {assembly : Assembly}
    (passes : Translated files tree config http limit translation owners assembly) {index : Nat} {server : ServerSpec}
    (placed : (treeServers tree)[index]? = some server) : ∃ block, (serverBlocks tree)[index]? = some block ∧
      ServerOf block server := by
  have sized := parseServers_length http.children (some limit) (inspectRoot ⟨[],[]⟩ tree)
  rw [passes.parsed] at sized
  have blocks : serverBlocks tree = inherited http.children (ascii "server") := by
    rw [serverBlocks,passes.block,List.flatMap_singleton]
  obtain ⟨inside,-⟩ := List.getElem?_eq_some_iff.mp placed
  have within : index < (serverBlocks tree).length := by
    rw [blocks,← sized]
    exact inside
  refine ⟨(serverBlocks tree)[index],List.getElem?_eq_getElem within,?_⟩
  obtain ⟨before,-,read⟩ := translate_servers passes (List.getElem?_eq_getElem within)
  cases Option.some.inj (placed.symm.trans read)
  exact parseServer_of _ _ _

end Whole

section Headlines

/-- What the choice of a server reads of it: its names and its listeners. -/
def headline (server : ServerSpec) : ServerSpec := { emptyServer none with names := server.names, listens := server.listens }

/-- The names and the listeners that the directives of a server block write. -/
def writtenServer (block : Directive) : ServerSpec :=
  { emptyServer none with
    names := block.children.flatMap writtenNames
    listens := if (block.children.flatMap writtenListens).isEmpty then [defaultListen]
      else block.children.flatMap writtenListens }

def writtenServers (tree : List Directive) : List ServerSpec := (serverBlocks tree).map writtenServer

theorem ServerOf.headline_eq {block : Directive} {server : ServerSpec} (held : ServerOf block server) :
    headline server = writtenServer block := by
  rw [headline,writtenServer,held.names,held.listens]

/-- The servers that were read have the names and the listeners of the blocks as they are written. -/
theorem treeServers_headlines {files : Files} {tree : List Directive} {config : Config} {http : Directive} {limit : Nat}
    {translation : Translation} {owners : Owners} {assembly : Assembly}
    (passes : Translated files tree config http limit translation owners assembly) :
    (treeServers tree).map headline = writtenServers tree := by
  apply List.ext_getElem?
  intro index
  rw [writtenServers,List.getElem?_map,List.getElem?_map]
  cases placed : (treeServers tree)[index]? with
  | some server =>
    obtain ⟨block,written,held⟩ := treeServers_of passes placed
    rw [written,Option.map_some,Option.map_some,held.headline_eq]
  | none =>
    cases written : (serverBlocks tree)[index]? with
    | none => rfl
    | some block =>
      obtain ⟨before,-,read⟩ := translate_servers passes written
      rw [placed] at read
      cases read

theorem defaultOwners_headlines (servers : List ServerSpec) : defaultOwners (servers.map headline) = defaultOwners servers := by
  rw [defaultOwners,defaultOwners,List.zipIdx_map,List.foldlM_map]
  rfl

end Headlines

end Polyguard.Nginx
