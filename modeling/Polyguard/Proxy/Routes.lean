import Polyguard.Proxy.Config

/-! The compiled routes of a configuration and the choice between them.
Compiling fails where the source would panic: on a network or a directory that the
validation of the configuration refuses. The loop of the selection keeps the winner
itself beside its index. -/
namespace Polyguard.Proxy
open Ascii Slices Decimal

/-- The action of a compiled route: a static directory is its canonical path. -/
abbrev RuntimeAction := RouteActionConfig

structure RuntimeRoute where
  id : List UInt8
  host : List UInt8
  path : List UInt8
  matchKind : RouteMatchKind
  methods : List (List UInt8)
  schemes : List (List UInt8)
  maxRequestBodyBytes : Nat
  requestHeaders : List HeaderValueConfig
  responseHeaders : List HeaderValueConfig
  deny : List IpNetwork
  action : RuntimeAction
  declarationOrder : Nat
deriving DecidableEq, Repr

def actionId (order : Nat) : List UInt8 := ascii "action-" ++ decimal order

def legacyRoute (limits : ConfiguredLimits) (route : RouteConfig) (order : Nat) : RuntimeRoute :=
  ⟨actionId order,route.host,route.pathPrefix,.boundaryPrefix,[],[],limits.maxRequestBodyBytes,[],[],[],
    .proxy route.upstream none none,order⟩

section Compile
variable (canonicalize : List UInt8 → Option (List UInt8))

def runtimeAction : RouteActionConfig → Option RuntimeAction
  | .files directory mapping index tryFiles errorPage404 =>
    (canonicalize directory).map fun directory => .files directory mapping index tryFiles errorPage404
  | action => some action

def siteRoute (limits : ConfiguredLimits) (site : SiteConfig) (serverName : List UInt8) (route : ActionRouteConfig) :
    Option (Nat → RuntimeRoute) := do
  let siteDeny ← site.deny.mapM IpNetwork.parse
  let routeDeny ← route.deny.mapM IpNetwork.parse
  let action ← runtimeAction canonicalize route.action
  return fun order => ⟨actionId order,serverName,route.path,route.matchKind,route.methods.map (·.map toAsciiLowercase),
    route.schemes.map (·.map toAsciiLowercase),route.maxRequestBodyBytes.getD limits.maxRequestBodyBytes,
    route.requestHeaders,site.responseHeaders ++ route.responseHeaders,siteDeny ++ routeDeny,action,order⟩

/-- The names of a site, with the wildcard behind them when it is the default. -/
def siteNames (site : SiteConfig) : List (List UInt8) := site.serverNames ++ (if site.isDefault then [ascii "*"] else [])

def siteRoutes (limits : ConfiguredLimits) (site : SiteConfig) : Option (List (Nat → RuntimeRoute)) :=
  ((siteNames site).flatMap fun serverName => site.routes.map (serverName,·)).mapM fun (serverName,route) =>
    siteRoute canonicalize limits site serverName route

def compileRuntimeRoutes (config : Config) : Option (List RuntimeRoute) := do
  let sites ← config.sites.mapM (siteRoutes canonicalize config.limits)
  let drafts := config.routes.map (legacyRoute config.limits) ++ sites.flatten
  return drafts.zipIdx.map fun (draft,order) => draft order

end Compile

def wildcardSuffix (pattern : List UInt8) : Option (List UInt8) := stripPrefix (ascii "*.") pattern

def runtimeHostMatches (pattern host : List UInt8) : Bool :=
  if pattern == ascii "*" then true
  else match wildcardSuffix pattern with
    | some suffix => host.length > suffix.length && suffix.isSuffixOf host &&
        host[host.length - suffix.length - 1]? == some 0x2e
    | none => eqIgnoreAsciiCase pattern host

def runtimeHostSpecificity (pattern : List UInt8) : Nat × Nat :=
  if pattern == ascii "*" then (0,0)
  else match wildcardSuffix pattern with
    | some suffix => (1,suffix.length)
    | none => (2,pattern.length)

def runtimePathMatches (route : RuntimeRoute) (path : List UInt8) : Bool :=
  match route.matchKind with
  | .exact => path == route.path
  | .pathPrefix => route.path.isPrefixOf path
  | .boundaryPrefix => route.path == ascii "/" || path == route.path ||
      (stripPrefix route.path path).any fun remainder => startsWith 0x2f remainder

def runtimeRouteEligible (authority : EffectiveAuthority) (target : NormalizedTarget) (method scheme : List UInt8)
    (route : RuntimeRoute) : Bool :=
  runtimeHostMatches route.host authority.host && runtimePathMatches route target.routingPath &&
    (route.methods.isEmpty || route.methods.contains method) && (route.schemes.isEmpty || route.schemes.contains scheme)

/-- The order of `(u8, usize)`. -/
def moreSpecific (left right : Nat × Nat) : Bool := left.1 > right.1 || (left.1 == right.1 && left.2 > right.2)

/-- Whether a later route takes the place of the winner so far. -/
def supersedes (route current : RuntimeRoute) : Bool :=
  let routeSpecificity := runtimeHostSpecificity route.host
  let currentSpecificity := runtimeHostSpecificity current.host
  if routeSpecificity ≠ currentSpecificity then moreSpecific routeSpecificity currentSpecificity
  else
    let routeExact := route.matchKind == .exact
    let currentExact := current.matchKind == .exact
    if routeExact ≠ currentExact then routeExact
    else if route.path.length ≠ current.path.length then route.path.length > current.path.length
    else route.declarationOrder < current.declarationOrder

/-- One round of the loop over the routes. -/
def selectStep (authority : EffectiveAuthority) (target : NormalizedTarget) (method scheme : List UInt8)
    (winner : Option (RuntimeRoute × Nat)) (entry : RuntimeRoute × Nat) : Option (RuntimeRoute × Nat) :=
  if !runtimeRouteEligible authority target method scheme entry.1 then winner
  else match winner with
    | none => some entry
    | some current => if supersedes entry.1 current.1 then some entry else some current

def selectRouteFold (routes : List RuntimeRoute) (authority : EffectiveAuthority) (target : NormalizedTarget)
    (method scheme : List UInt8) : Option Nat :=
  (routes.zipIdx.foldl (selectStep authority target method scheme) none).map (·.2)

/-- The order in which `select_route_sorted` puts the candidates, best first. -/
def precedes (left right : RuntimeRoute × Nat) : Bool :=
  let leftSpecificity := runtimeHostSpecificity left.1.host
  let rightSpecificity := runtimeHostSpecificity right.1.host
  let leftExact := left.1.matchKind == .exact
  let rightExact := right.1.matchKind == .exact
  if leftSpecificity ≠ rightSpecificity then moreSpecific leftSpecificity rightSpecificity
  else if leftExact ≠ rightExact then leftExact
  else if left.1.path.length ≠ right.1.path.length then left.1.path.length > right.1.path.length
  else left.1.declarationOrder ≤ right.1.declarationOrder

def selectRouteSorted (routes : List RuntimeRoute) (authority : EffectiveAuthority) (target : NormalizedTarget)
    (method scheme : List UInt8) : Option Nat :=
  ((routes.zipIdx.filter fun entry => runtimeRouteEligible authority target method scheme entry.1).mergeSort precedes).head?.map
    (·.2)

/-- The route that both selections name. -/
def selectedRoute (routes : List RuntimeRoute) (authority : EffectiveAuthority) (target : NormalizedTarget)
    (method scheme : List UInt8) : Outcome RuntimeRoute :=
  let folded := selectRouteFold routes authority target method scheme
  let sorted := selectRouteSorted routes authority target method scheme
  if folded ≠ sorted then .error (.disagreement "select_route_action")
  else match folded.bind (routes[·]?) with
    | none => .error (.protocol .noRoute)
    | some selected => .ok selected

/-- The table of one rule that the agreement set matches in place of the selected route. -/
def guardRules (authority : EffectiveAuthority) (selected : RuntimeRoute) : List RouteRule :=
  [⟨authority.host,ascii "/",selected.id,0⟩]

end Polyguard.Proxy
