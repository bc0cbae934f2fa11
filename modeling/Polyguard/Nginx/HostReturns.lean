import Polyguard.Nginx.VirtualHosts

/-! The returns of a server for a host.
The routes of a server under a name stand in one run of the compiled routes, and of
those with one path and one rank the first eligible one is selected. The returns kept
under the name come before the plain ones, whatever their order in the source. -/
namespace Polyguard.Nginx
open Ascii Slices Decimal Proxy

section Blocks

theorem flatMap_run {α β : Type} {parts : α → List β} (items : List α) : ∀ (index : Nat) (value : β),
    (items.flatMap parts)[index]? = some value → ∃ item ∈ items, ∃ base place, index = base + place ∧
      (parts item)[place]? = some value ∧ ∀ (other : Nat) (found : β), (parts item)[other]? = some found →
        (items.flatMap parts)[base + other]? = some found := by
  induction items with
  | nil =>
    intro index value found
    cases found
  | cons first items ih =>
    intro index value found
    rw [List.flatMap_cons] at found ⊢
    by_cases inside : index < (parts first).length
    · rw [List.getElem?_append_left inside] at found
      refine ⟨first,List.mem_cons_self,0,index,(Nat.zero_add _).symm,found,fun other value' there => ?_⟩
      obtain ⟨within,-⟩ := List.getElem?_eq_some_iff.mp there
      rw [Nat.zero_add,List.getElem?_append_left within]
      exact there
    · rw [List.getElem?_append_right (Nat.le_of_not_lt inside)] at found
      obtain ⟨item,member,base,place,same,held,run⟩ := ih _ value found
      refine ⟨item,List.mem_cons_of_mem _ member,(parts first).length + base,place,by omega,held,fun other value' there => ?_⟩
      rw [Nat.add_assoc,List.getElem?_append_right (Nat.le_add_right _ _),Nat.add_sub_cancel_left]
      exact run other value' there

theorem siteEntries_run {config : Config} {index : Nat} {site : SiteConfig} {name : List UInt8} {source : ActionRouteConfig}
    (found : (siteEntries config)[index]? = some (site,name,source)) : site ∈ config.sites ∧ name ∈ siteNames site ∧
      ∃ base place, index = base + place ∧ site.routes[place]? = some source ∧ ∀ (other : Nat) (route : ActionRouteConfig),
        site.routes[other]? = some route → (siteEntries config)[base + other]? = some (site,name,route) := by
  obtain ⟨outer,there,base,place,rfl,inner,run⟩ := flatMap_run config.sites index _ found
  obtain ⟨named,member,low,high,rfl,held,within⟩ := flatMap_run (siteNames outer) place _ inner
  rw [List.getElem?_map] at held
  obtain ⟨route,placed,same⟩ := Option.map_eq_some_iff.mp held
  cases same
  refine ⟨there,member,base + low,high,by omega,placed,fun other route found => ?_⟩
  rw [Nat.add_assoc]
  refine run _ _ (within other _ ?_)
  rw [List.getElem?_map,found]
  rfl

theorem newSite_injective {left right : List UInt8} (same : newSite left = newSite right) : left = right := by
  have flag := congrArg SiteConfig.isDefault same
  have names := congrArg SiteConfig.serverNames same
  unfold newSite at flag names
  dsimp only at flag names
  by_cases all : left = ascii "*"
  · rw [all,beq_self_eq_true] at flag
    rw [all,beq_iff_eq.mp flag.symm]
  · rw [beq_eq_false_iff_ne.mpr all] at flag names
    rw [← flag] at names
    exact (List.cons.inj names).1

variable {files : Files} {tree : List Directive} {config : Config} {http : Directive} {limit : Nat} {translation : Translation}
  {owners : Owners} {assembly : Assembly} {canonicalize : List UInt8 → Option (List UInt8)} {routes : List RuntimeRoute}

theorem Translated.site_routes (passes : Translated files tree config http limit translation owners assembly) {site : SiteConfig}
    (there : site ∈ config.sites) {key scheme : List UInt8} (shape : ({ site with routes := [] } : SiteConfig) = newSite key)
    {index : Nat} {server : ServerSpec} (answers : Answers owners (treeServers tree) index server key scheme) :
    site.routes.filter (·.schemes == [scheme]) = scopedRoutes server key scheme := by
  have invariant := assembled passes.assembles
  rw [passes.sites,mem_retainedSites] at there
  obtain ⟨-,held,member⟩ := there
  have found := (Ledger.find_iff_mem invariant.distinct).mpr member
  cases newSite_injective ((invariant.shape held site found).symm.trans shape)
  obtain ⟨placed,schemes,scope,offered⟩ := answers
  have given : (⟨key,scheme,scopedRoutes server key scheme⟩ : Given) ∈ (treeServers tree).zipIdx.flatMap (givenServer owners) :=
    List.mem_flatMap.mpr ⟨(server,index),List.mem_zipIdx_iff_getElem?.mpr placed,
      List.mem_flatMap.mpr ⟨(key,schemes),scope,List.mem_map.mpr ⟨scheme,offered,rfl⟩⟩⟩
  rw [invariant.ordered key site found scheme,invariant.assigned _ given]
  rfl

/-- Of the routes of a server under a name, those before the selected one do not fit the request or rank below it. -/
theorem selected_first (passes : Translated files tree config http limit translation owners assembly)
    (compiled : compileRuntimeRoutes canonicalize config = some routes) {selected : Nat} {route : RuntimeRoute} {asked : Asked}
    (chosen : selectRouteFold routes asked.authority asked.target asked.method asked.scheme = some selected)
    (found : routes[selected]? = some route) {index : Nat} {server : ServerSpec}
    (answers : Answers owners (treeServers tree) index server route.host asked.scheme) : ∃ before source after,
      scopedRoutes server route.host asked.scheme = before ++ source :: after ∧
      CompiledAs canonicalize config.limits route.host source selected route ∧ Fits source asked ∧
      ∀ other ∈ before, Fits other asked → other.matchKind = source.matchKind → other.path.length ≠ source.path.length := by
  obtain ⟨best,placed,eligible,highest⟩ := selectRouteFold_best chosen
  cases Option.some.inj (found.symm.trans placed)
  obtain ⟨sized,each⟩ := compileRuntimeRoutes_each passes.legacy compiled
  obtain ⟨inside,-⟩ := List.getElem?_eq_some_iff.mp found
  rw [sized] at inside
  obtain ⟨⟨site,name,source⟩,entry⟩ : ∃ entry, (siteEntries config)[selected]? = some entry :=
    ⟨_,List.getElem?_eq_getElem inside⟩
  obtain ⟨there,named,base,place,rfl,held,run⟩ := siteEntries_run entry
  obtain ⟨key,shape,origins⟩ := passes.originates there
  rw [siteNames_shape shape] at named
  cases List.mem_singleton.mp named
  have compiledAs {order : Nat} {other : ActionRouteConfig} (listed : (siteEntries config)[order]? = some (site,name,other)) :
      ∃ made, routes[order]? = some made ∧ CompiledAs canonicalize config.limits name other order made := by
    obtain ⟨draft,drafted,made⟩ := each order site name other listed
    exact ⟨draft order,made,draft,(siteRoute_shape shape other).symm.trans drafted,rfl⟩
  obtain ⟨same,again,made⟩ := compiledAs entry
  cases Option.some.inj (found.symm.trans again)
  have host := made.keeps.host
  rw [host] at answers ⊢
  obtain ⟨origin,first,schemes,scheme,firstPlaced,scope,offered,sourced⟩ := origins source (List.mem_of_getElem? held)
  obtain ⟨matching,fits,asking⟩ := (eligible_iff ⟨firstPlaced,schemes,scope,offered⟩ sourced made asked).mp eligible
  have kept : (source.schemes == [asked.scheme]) = true := by
    obtain ⟨plain,-,rfl⟩ := List.mem_map.mp sourced
    rw [asking]
    exact beq_self_eq_true _
  obtain ⟨within,rfl⟩ := List.getElem?_eq_some_iff.mp held
  have divided := passes.site_routes there shape answers
  rw [← List.take_append_drop place site.routes,List.drop_eq_getElem_cons within,List.filter_append,
    List.filter_cons_of_pos (p := fun route : ActionRouteConfig => route.schemes == [asked.scheme]) kept] at divided
  refine ⟨_,_,_,divided.symm,made,fits,fun other earlier able kinds lengths => ?_⟩
  -- an earlier route that is as good was compiled before the selected one
  have member : other ∈ scopedRoutes server name asked.scheme := by
    rw [← divided]
    exact List.mem_append_left _ earlier
  obtain ⟨position,listed⟩ := List.mem_iff_getElem?.mp (List.mem_filter.mp earlier).1
  have bounded : position < place := by
    by_contra late
    rw [List.getElem?_take_eq_none (Nat.le_of_not_lt late)] at listed
    cases listed
  rw [List.getElem?_take_of_lt bounded] at listed
  obtain ⟨rival,rivalFound,rivalMade⟩ := compiledAs (run position other listed)
  refine highest rival (List.mem_of_getElem? rivalFound)
    ((eligible_iff answers member rivalMade asked).mpr ⟨matching,able,rfl⟩) (supersedes_iff.mpr (.inr (.inr ⟨?_,.inr ⟨?_,.inr ⟨?_,?_⟩⟩⟩)))
  · rw [rivalMade.keeps.host,host]
  · unfold exactness
    rw [rivalMade.keeps.matchKind,made.keeps.matchKind,kinds]
  · rw [rivalMade.keeps.path,made.keeps.path,lengths]
  · rw [rivalMade.keeps.order,made.keeps.order]
    omega

theorem selected_highest (passes : Translated files tree config http limit translation owners assembly)
    (compiled : compileRuntimeRoutes canonicalize config = some routes) {selected : Nat} {route : RuntimeRoute} {asked : Asked}
    (chosen : selectRouteFold routes asked.authority asked.target asked.method asked.scheme = some selected)
    (found : routes[selected]? = some route) {index : Nat} {server : ServerSpec}
    (answers : Answers owners (treeServers tree) index server route.host asked.scheme) {other : ActionRouteConfig}
    (member : other ∈ scopedRoutes server route.host asked.scheme) (fits : Fits other asked) :
    (other.matchKind = .exact → route.matchKind = .exact) ∧
      ((other.matchKind = .exact ↔ route.matchKind = .exact) → other.path.length ≤ route.path.length) := by
  obtain ⟨best,placed,eligible,highest⟩ := selectRouteFold_best chosen
  cases Option.some.inj (found.symm.trans placed)
  obtain ⟨_,_,_,_,_,_,_,-,matching,-⟩ := eligible_serves passes compiled found eligible
  obtain ⟨order,rival,rivalFound,made⟩ := compiled_of passes compiled answers member
  have low := highest rival (List.mem_of_getElem? rivalFound) ((eligible_iff answers member made asked).mpr ⟨matching,fits,rfl⟩)
  have keeps := made.keeps
  rw [supersedes_iff,keeps.host,keeps.path] at low
  unfold exactness at low
  rw [keeps.matchKind] at low
  constructor
  · intro exact
    by_contra plain
    refine low (.inr (.inr ⟨rfl,.inl ?_⟩))
    rw [exact,beq_eq_false_iff_ne.mpr plain]
    decide
  · intro alike
    by_contra longer
    refine low (.inr (.inr ⟨rfl,.inr ⟨?_,.inl (by omega)⟩⟩))
    by_cases exact : route.matchKind = .exact
    · rw [exact,alike.mpr exact]
    · rw [beq_eq_false_iff_ne.mpr exact,beq_eq_false_iff_ne.mpr fun same => exact (alike.mp same)]

/-- The server is chosen for the request by the name: no server answers to one for the host that ranks above. -/
structure Chosen (owners : Owners) (servers : List ServerSpec) (index : Nat) (server : ServerSpec) (key : List UInt8)
    (asked : Asked) : Prop where
  answers : Answers owners servers index server key asked.scheme
  matching : runtimeHostMatches key asked.authority.host
  highest : ∀ other held name, Answers owners servers other held name asked.scheme → runtimeHostMatches name asked.authority.host →
    ¬ moreSpecific (runtimeHostSpecificity name) (runtimeHostSpecificity key)

theorem chosen_selects (passes : Translated files tree config http limit translation owners assembly)
    (compiled : compileRuntimeRoutes canonicalize config = some routes) {index : Nat} {server : ServerSpec} {key : List UInt8}
    {asked : Asked} (chosen : Chosen owners (treeServers tree) index server key asked) {source : ActionRouteConfig}
    (effective : source ∈ effectiveRoutes server key) (fits : Fits source asked) : ∃ selected route,
      selectRouteFold routes asked.authority asked.target asked.method asked.scheme = some selected ∧
        routes[selected]? = some route ∧ route.host = key := by
  obtain ⟨other,inside,host,able⟩ := serves_eligible passes compiled ⟨server,chosen.answers,chosen.matching,source,effective,fits⟩
  cases selecting : selectRouteFold routes asked.authority asked.target asked.method asked.scheme with
  | none => exact absurd able (selectRouteFold_none selecting other inside)
  | some selected =>
    obtain ⟨route,found,eligible,highest⟩ := selectRouteFold_best selecting
    obtain ⟨origin,first,sourced,answers,-,-,-,-,matching,-⟩ := eligible_serves passes compiled found eligible
    have low := not_supersedes_host (highest other inside able)
    rw [host] at low
    exact ⟨selected,route,rfl,found,matching_unique (answers.key_lower passes) (chosen.answers.key_lower passes) matching
      chosen.matching (same_specificity (chosen.highest origin first route.host answers matching) low)⟩

end Blocks

section Returns

/-- The returns of a server block that apply to a host, as they are written: the plain ones and those under a condition on it. -/
def applicableReturns (host : List UInt8) (block : Directive) : List RouteActionConfig :=
  block.children.flatMap fun child => plainReturns child ++ hostReturns host child

/-- The returns that are tried where a server is chosen by a name: those under a condition on that very name, and the plain
ones behind them. -/
def triedReturns (key : List UInt8) (block : Directive) : List RouteActionConfig :=
  block.children.flatMap (hostReturns key) ++ block.children.flatMap plainReturns

def returnRoutes (server : ServerSpec) (key : List UInt8) : List ActionRouteConfig :=
  (Ledger.find key server.hostReturns).getD [] ++ server.returns

theorem ServerOf.returnRoutes_eq {block : Directive} {server : ServerSpec} (held : ServerOf block server) (key : List UInt8) :
    returnRoutes server key = (triedReturns key block).map fun action => settleReturn server (returnRoute [] action) := by
  rw [returnRoutes,triedReturns,List.map_append,held.under,← held.returns]

theorem effectiveRoutes_returns {server : ServerSpec} {key : List UInt8} (some : returnRoutes server key ≠ []) :
    effectiveRoutes server key = returnRoutes server key := by
  unfold effectiveRoutes
  dsimp only
  rw [if_neg,List.append_nil]
  · rfl
  · intro none
    rw [Bool.and_eq_true,List.isEmpty_iff,List.isEmpty_iff] at none
    exact some (by rw [returnRoutes,none.1,none.2]; rfl)

theorem returnAction_kept {child : Directive} {action : RouteActionConfig} (read : returnAction child = some action)
    (canonicalize : List UInt8 → Option (List UInt8)) : runtimeAction canonicalize action = some action := by
  unfold returnAction at read
  obtain ⟨status,-,read⟩ := Option.bind_eq_some_iff.mp read
  split at read
  · obtain ⟨place,-,rfl⟩ := Option.map_eq_some_iff.mp read
    rfl
  · split at read
    · cases read
      rfl
    · cases read

theorem plainReturns_kept {child : Directive} {action : RouteActionConfig} (member : action ∈ plainReturns child)
    (canonicalize : List UInt8 → Option (List UInt8)) : runtimeAction canonicalize action = some action := by
  unfold plainReturns at member
  split at member
  · exact returnAction_kept (Option.mem_toList.mp member) canonicalize
  · cases member

theorem triedReturns_kept {key : List UInt8} {block : Directive} {action : RouteActionConfig}
    (member : action ∈ triedReturns key block) (canonicalize : List UInt8 → Option (List UInt8)) :
    runtimeAction canonicalize action = some action := by
  rcases List.mem_append.mp member with under | plain
  · obtain ⟨child,-,held⟩ := List.mem_flatMap.mp under
    unfold hostReturns at held
    split at held
    · split at held
      · split at held
        · obtain ⟨nested,-,inside⟩ := List.mem_flatMap.mp held
          exact plainReturns_kept inside canonicalize
        · cases held
      · cases held
    · cases held
  · obtain ⟨child,-,held⟩ := List.mem_flatMap.mp plain
    exact plainReturns_kept held canonicalize

theorem return_fits (server : ServerSpec) (schemes : List (List UInt8)) (action : RouteActionConfig) (asked : Asked) :
    Fits (withSchemes schemes (settleReturn server (returnRoute [] action))) asked ↔ ascii "/" <+: asked.target.routingPath :=
  ⟨And.left,fun slashed => ⟨slashed,.inl rfl⟩⟩

/-- The selected route is one of the returns that the server keeps under the name, and has the action. -/
def Returned (canonicalize : List UInt8 → Option (List UInt8)) (config : Config) (routes : List RuntimeRoute) (server : ServerSpec)
    (key : List UInt8) (asked : Asked) (action : RouteActionConfig) : Prop :=
  ∃ selected route source, selectRouteFold routes asked.authority asked.target asked.method asked.scheme = some selected ∧
    routes[selected]? = some route ∧ source ∈ returnRoutes server key ∧
      CompiledAs canonicalize config.limits key (withSchemes [asked.scheme] source) selected route ∧ route.action = action

def HostReturnsHonoured (canonicalize : List UInt8 → Option (List UInt8)) (config : Config) (routes : List RuntimeRoute)
    (block : Directive) (server : ServerSpec) (key : List UInt8) (asked : Asked) : Prop :=
  ∀ action, (applicableReturns asked.authority.host block).head? = some action →
    Returned canonicalize config routes server key asked action

variable {files : Files} {tree : List Directive} {config : Config} {http : Directive} {limit : Nat} {translation : Translation}
  {owners : Owners} {assembly : Assembly} {canonicalize : List UInt8 → Option (List UInt8)} {routes : List RuntimeRoute}

theorem returned_iff (passes : Translated files tree config http limit translation owners assembly)
    (compiled : compileRuntimeRoutes canonicalize config = some routes) {index : Nat} {block : Directive}
    {server : ServerSpec} (held : ServerOf block server) {key : List UInt8} {asked : Asked}
    (chosen : Chosen owners (treeServers tree) index server key asked) (action : RouteActionConfig) :
    Returned canonicalize config routes server key asked action ↔
      ascii "/" <+: asked.target.routingPath ∧ (triedReturns key block).head? = some action := by
  have kept := held.returnRoutes_eq key
  have scopes (some : returnRoutes server key ≠ []) : scopedRoutes server key asked.scheme =
      (triedReturns key block).map fun action => withSchemes [asked.scheme] (settleReturn server (returnRoute [] action)) := by
    rw [scopedRoutes,effectiveRoutes_returns some,kept,List.map_map]
    rfl
  -- all the returns fit alike, so the first of them is selected
  have first {selected : Nat} {route : RuntimeRoute} (some : returnRoutes server key ≠ [])
      (selecting : selectRouteFold routes asked.authority asked.target asked.method asked.scheme = .some selected)
      (found : routes[selected]? = .some route) (host : route.host = key) : ascii "/" <+: asked.target.routingPath ∧
        ∃ tried, (triedReturns key block).head? = .some tried ∧ route.action = tried ∧
          CompiledAs canonicalize config.limits key (withSchemes [asked.scheme] (settleReturn server (returnRoute [] tried)))
            selected route := by
    have answers := chosen.answers
    rw [← host] at answers
    obtain ⟨before,source,after,split,made,fits,none⟩ := selected_first passes compiled selecting found answers
    rw [host] at split made
    have shaped {other : ActionRouteConfig} (member : other ∈ before ++ source :: after) : ∃ tried,
        withSchemes [asked.scheme] (settleReturn server (returnRoute [] tried)) = other := by
      rw [← split,scopes some] at member
      obtain ⟨tried,-,same⟩ := List.mem_map.mp member
      exact ⟨tried,same⟩
    obtain ⟨last,rfl⟩ := shaped (List.mem_append_right _ List.mem_cons_self)
    have slashed := (return_fits server [asked.scheme] last asked).mp fits
    cases before with
    | cons other before =>
      obtain ⟨tried,rfl⟩ := shaped List.mem_cons_self
      exact (none (withSchemes [asked.scheme] (settleReturn server (returnRoute [] tried))) List.mem_cons_self
        ((return_fits server [asked.scheme] tried asked).mpr slashed) rfl rfl).elim
    | nil =>
      rw [List.nil_append,scopes some] at split
      obtain ⟨tried,later,listed,same,-⟩ := List.map_eq_cons_iff.mp split
      rw [← same] at made
      have action : runtimeAction canonicalize tried = .some route.action := made.keeps.action
      have member : tried ∈ triedReturns key block := by
        rw [listed]
        exact List.mem_cons_self
      rw [triedReturns_kept member canonicalize] at action
      exact ⟨slashed,tried,by rw [listed]; rfl,(Option.some.inj action).symm,made⟩
  constructor
  · rintro ⟨selected,route,source,selecting,found,member,made,rfl⟩
    obtain ⟨slashed,tried,listed,same,-⟩ := first (List.ne_nil_of_mem member) selecting found made.keeps.host
    exact ⟨slashed,by rw [listed,same]⟩
  · rintro ⟨slashed,listed⟩
    have member : settleReturn server (returnRoute [] action) ∈ returnRoutes server key := by
      rw [kept]
      exact List.mem_map_of_mem (List.mem_of_mem_head? listed)
    have some := List.ne_nil_of_mem member
    obtain ⟨selected,route,selecting,found,host⟩ := chosen_selects passes compiled chosen
      (by rw [effectiveRoutes_returns some]; exact member) ⟨slashed,.inl rfl⟩
    obtain ⟨-,tried,head,same,made⟩ := first some selecting found host
    cases Option.some.inj (listed.symm.trans head)
    exact ⟨selected,route,_,selecting,found,member,made,same⟩

/-- A server that is chosen among the blocks as they are written is chosen among those that were read. -/
theorem Translated.chosen_read (passes : Translated files tree config http limit translation owners assembly) {index : Nat}
    {server written : ServerSpec} (read : (treeServers tree)[index]? = some server) {key : List UInt8} {asked : Asked}
    (chosen : Chosen (treeOwners tree) (writtenServers tree) index written key asked) :
    Chosen owners (treeServers tree) index server key asked :=
  ⟨passes.answers_read read chosen.answers,chosen.matching,fun other _ name answers =>
    chosen.highest other _ name (passes.answers_written answers)⟩

/-- The returns of the chosen server are honoured exactly when none applies to the host, or the path is one and the first return
that is tried for the name of the server is the first one that applies to the host. -/
theorem host_returns_honoured_iff (files : Files) (tree : List Directive) (config : Config)
    (translated : translate files tree = .ok config) (canonicalize : List UInt8 → Option (List UInt8)) (routes : List RuntimeRoute)
    (compiled : compileRuntimeRoutes canonicalize config = some routes) (index : Nat) (block : Directive)
    (placed : (serverBlocks tree)[index]? = some block) (server : ServerSpec) (read : (treeServers tree)[index]? = some server)
    (key : List UInt8) (asked : Asked)
    (chosen : Chosen (treeOwners tree) (writtenServers tree) index (writtenServer block) key asked) :
    HostReturnsHonoured canonicalize config routes block server key asked ↔
      applicableReturns asked.authority.host block = [] ∨ (ascii "/" <+: asked.target.routingPath ∧
        (triedReturns key block).head? = (applicableReturns asked.authority.host block).head?) := by
  obtain ⟨http,limit,translation,owners,assembly,passes⟩ := translate_passes translated
  obtain ⟨_,again,held⟩ := treeServers_of passes read
  cases Option.some.inj (placed.symm.trans again)
  unfold HostReturnsHonoured
  simp only [returned_iff passes compiled held (passes.chosen_read read chosen)]
  cases applicable : applicableReturns asked.authority.host block with
  | nil => exact ⟨fun _ => .inl rfl,fun _ action impossible => (by cases impossible)⟩
  | cons action others =>
    constructor
    · intro honoured
      exact .inr (honoured action rfl)
    · rintro (impossible | tried) other head
      · cases impossible
      · cases head
        exact tried

def redirectingTree (name : String) : List Directive :=
  [blockDirective "events" [] [],blockDirective "http" []
    [blockDirective "server" [] [leafDirective "listen" ["127.0.0.1:8080","default_server"],
        leafDirective "server_name" ["app.example.test",name],
        blockDirective "if" ["($host","=","www.example.test)"] [leafDirective "return" ["301","https://app.example.test/"]],
        blockDirective "location" ["/"] [leafDirective "return" ["200","site"]]]]]

def scopesAt (tree : List Directive) (index : Nat) : Option (List (List UInt8 × List (List UInt8))) :=
  (writtenServers tree)[index]?.map fun server => keyScopes (treeOwners tree) server index

theorem chosen_choice {index : Nat} {block : Directive} (placed : (serverBlocks tree)[index]? = some block)
    {scopes : List (List UInt8 × List (List UInt8))} (read : scopesAt tree index = some scopes)
    {key : List UInt8} {asked : Asked} {schemes : List (List UInt8)} (scope : (key,schemes) ∈ scopes) (offered : asked.scheme ∈ schemes)
    (matching : runtimeHostMatches key asked.authority.host)
    (best : (nginxChoice (writtenServers tree) asked.authority.host).2 = key) :
    Chosen (treeOwners tree) (writtenServers tree) index (writtenServer block) key asked := by
  have written : (writtenServers tree)[index]? = some (writtenServer block) := by
    rw [writtenServers,List.getElem?_map,placed]
    rfl
  rw [scopesAt,written] at read
  cases read
  refine ⟨⟨written,schemes,scope,offered⟩,matching,fun other held name answers named => ?_⟩
  rw [← best]
  exact nginxChoice_best answers named

/-- A request to a server that is chosen by its name gets the return for the name. -/
theorem host_returns_honoured_named : ∃ config routes block server action,
    translate openFiles (redirectingTree "www.example.test") = .ok config ∧ compileRuntimeRoutes some config = some routes ∧
      (serverBlocks (redirectingTree "www.example.test"))[0]? = some block ∧
      (treeServers (redirectingTree "www.example.test"))[0]? = some server ∧
      (applicableReturns (ascii "www.example.test") block).head? = some action ∧
      Returned some config routes server (ascii "www.example.test") (askedFor "www.example.test" "/") action := by
  obtain ⟨config,routes,-,-,translated,compiled,-⟩ :=
    @selectedHost_some (redirectingTree "www.example.test") (askedFor "www.example.test" "/") (ascii "www.example.test") (by decide +kernel)
  have scopes : scopesAt (redirectingTree "www.example.test") 0 = some [(ascii "app.example.test",[ascii "http"]),
    (ascii "www.example.test",[ascii "http"]),(ascii "*",[ascii "http"])] := by decide +kernel
  have facts : ((serverBlocks (redirectingTree "www.example.test"))[0]?).map (fun block =>
      ((applicableReturns (ascii "www.example.test") block).head?.isSome,
        (triedReturns (ascii "www.example.test") block).head? == (applicableReturns (ascii "www.example.test") block).head?)) =
      some (true,true) := by decide +kernel
  obtain ⟨block,placed,first⟩ := Option.map_eq_some_iff.mp facts
  rw [Prod.mk.injEq,beq_iff_eq] at first
  obtain ⟨action,head⟩ := Option.isSome_iff_exists.mp first.1
  obtain ⟨http,limit,translation,owners,assembly,passes⟩ := translate_passes translated
  obtain ⟨before,-,read⟩ := translate_servers passes placed
  have chosen := chosen_choice placed scopes (by decide : (ascii "www.example.test",[ascii "http"]) ∈ _)
    (by decide : (askedFor "www.example.test" "/").scheme ∈ _) (by decide) (by decide +kernel)
  exact ⟨config,routes,block,_,action,translated,compiled,placed,read,head,
    (host_returns_honoured_iff openFiles (redirectingTree "www.example.test") config translated some routes compiled 0 block placed _
      read (ascii "www.example.test") (askedFor "www.example.test" "/") chosen).mpr (.inr ⟨List.prefix_rfl,first.2⟩) action head⟩

/-- The return of a host that the default server answers for is passed over for the location. -/
theorem host_return_missed : ∃ config routes block server,
    translate openFiles (redirectingTree "other.example.test") = .ok config ∧ compileRuntimeRoutes some config = some routes ∧
      (serverBlocks (redirectingTree "other.example.test"))[0]? = some block ∧
      (treeServers (redirectingTree "other.example.test"))[0]? = some server ∧
      Chosen (treeOwners (redirectingTree "other.example.test")) (writtenServers (redirectingTree "other.example.test")) 0
        (writtenServer block) (ascii "*") (askedFor "www.example.test" "/") ∧
      ¬ HostReturnsHonoured some config routes block server (ascii "*") (askedFor "www.example.test" "/") := by
  obtain ⟨config,routes,-,-,translated,compiled,-⟩ :=
    @selectedHost_some (redirectingTree "other.example.test") (askedFor "www.example.test" "/") (ascii "*") (by decide +kernel)
  have scopes : scopesAt (redirectingTree "other.example.test") 0 = some [(ascii "app.example.test",[ascii "http"]),
    (ascii "other.example.test",[ascii "http"]),(ascii "*",[ascii "http"])] := by decide +kernel
  have facts : ((serverBlocks (redirectingTree "other.example.test"))[0]?).map (fun block =>
      ((applicableReturns (ascii "www.example.test") block).head?.isSome,(triedReturns (ascii "*") block).isEmpty)) =
        some (true,true) := by decide +kernel
  obtain ⟨block,placed,first⟩ := Option.map_eq_some_iff.mp facts
  rw [Prod.mk.injEq,List.isEmpty_iff] at first
  obtain ⟨action,head⟩ := Option.isSome_iff_exists.mp first.1
  obtain ⟨http,limit,translation,owners,assembly,passes⟩ := translate_passes translated
  obtain ⟨before,-,read⟩ := translate_servers passes placed
  obtain ⟨_,again,held⟩ := treeServers_of passes read
  cases Option.some.inj (placed.symm.trans again)
  have chosen := chosen_choice placed scopes (by decide : (ascii "*",[ascii "http"]) ∈ _)
    (by decide : (askedFor "www.example.test" "/").scheme ∈ _) (by decide) (by decide +kernel)
  refine ⟨config,routes,block,_,translated,compiled,placed,read,chosen,fun honoured => ?_⟩
  have tried := ((returned_iff passes compiled held (passes.chosen_read read chosen) action).mp (honoured action head)).2
  rw [first.2] at tried
  cases tried

end Returns

end Polyguard.Nginx
