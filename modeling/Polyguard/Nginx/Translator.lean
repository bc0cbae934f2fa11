import Polyguard.Nginx.Directives
import Polyguard.Collections.Ordered

/-! The translation of a directive tree into a configuration.
An inspection by name comes first and collects what is not supported; the second
pass reads servers and locations and collects further issues. Maps are lists of
entries: those whose order shows in the configuration are put in order at the end. -/
namespace Polyguard.Nginx
open Ascii Slices Decimal Proxy

/-- What the passes leave behind: the issues, and the names of the upstreams by address. -/
structure Translation where
  issues : List CompatibilityIssue
  upstreamNames : List (SocketAddr × List UInt8)

def Translation.issue (translation : Translation) (directive : Directive) (message : List UInt8) : Translation :=
  { translation with issues := translation.issues ++ [⟨directive.path,directive.line,directive.name,message⟩] }

structure ServerSpec where
  names : List (List UInt8)
  listens : List ListenSpec
  certificate : Option (List UInt8)
  privateKey : Option (List UInt8)
  root : Option (List UInt8)
  indexes : List (List UInt8)
  errorPage404 : Option (List UInt8)
  responseHeaders : List HeaderValueConfig
  deny : List (List UInt8)
  maxRequestBodyBytes : Option Nat
  returns : List ActionRouteConfig
  hostReturns : List (List UInt8 × List ActionRouteConfig)
  locations : List ActionRouteConfig

/-- The networks that `all` stands for. -/
def allNetworks : List (List UInt8) := [ascii "0.0.0.0/0",ascii "::/0"]

section Locations

structure LocationState where
  root : Option (List UInt8)
  mapping : StaticMapping
  indexes : List (List UInt8)
  tryFiles : Bool
  responseHeaders : List HeaderValueConfig
  requestHeaders : List HeaderValueConfig
  deny : List (List UInt8)
  maxRequestBodyBytes : Option Nat
  proxy : Option (List UInt8 × Option (List UInt8))
  hostHeader : Option (List UInt8)
  action : Option RouteActionConfig
  conditionalRoutes : List ActionRouteConfig
  translation : Translation

def LocationState.issue (state : LocationState) (directive : Directive) (message : List UInt8) : LocationState :=
  { state with translation := state.translation.issue directive message }

/-- The name of an upstream, a new one for an address that has none yet. -/
def Translation.upstream (translation : Translation) (address : SocketAddr) : List UInt8 × Translation :=
  match Ledger.find address translation.upstreamNames with
  | some name => (name,translation)
  | none =>
    let name := ascii "nginx-upstream-" ++ decimal translation.upstreamNames.length
    (name,{ translation with upstreamNames := (address,name) :: translation.upstreamNames })

def setRequestHeader (child : Directive) (name value : List UInt8) (state : LocationState) : LocationState :=
  match state.requestHeaders.find? fun existing => existing.name == name with
  | some existing =>
    if existing.value ≠ value then
      state.issue child (ascii "conflicting duplicate proxy_set_header directives are unsupported")
    else state
  | none => { state with requestHeaders := state.requestHeaders ++ [⟨name,value,false,[]⟩] }

def hostVariables : List (List UInt8) := [ascii "$host",ascii "$http_host"]

def proxySetHeader (child : Directive) (name value : List UInt8) (state : LocationState) : LocationState :=
  if name == ascii "host" && hostVariables.contains value then
    if state.hostHeader.any (· != value) then
      state.issue child (ascii "conflicting duplicate Host proxy_set_header directives are unsupported")
    else { state with hostHeader := some value }
  else if name == ascii "x-forwarded-for" && value == ascii "$proxy_add_x_forwarded_for" then state
  else if name == ascii "x-forwarded-proto" && value == ascii "$scheme" then state
  else if name == ascii "x-forwarded-host" && hostVariables.contains value then state
  else if name == ascii "forwarded" then state.issue child (ascii "Forwarded is security-managed and cannot be overridden")
  else setRequestHeader child name value state

/-- The state of the loop over the directives inside a condition on the method. -/
structure ConditionalState where
  headers : List HeaderValueConfig
  action : Option RouteActionConfig
  contentType : Option (List UInt8)
  translation : Translation

def conditionalStep (methods : List (List UInt8)) (state : ConditionalState) (nested : Directive) : ConditionalState :=
  match nested.keyword with
  | .addHeader =>
    match headerFromAdd nested methods with
    | some header =>
      if header.name == ascii "content-length" && header.value == ascii "0" then state
      else if header.name == ascii "content-type" then { state with contentType := some header.value }
      else { state with headers := state.headers ++ [header] }
    | none => { state with translation := state.translation.issue nested (ascii "invalid conditional add_header") }
  | .returns =>
    match returnAction nested with
    | some returned => { state with action := some returned }
    | none => { state with translation := state.translation.issue nested (ascii "unsupported conditional return") }
  | _ => { state with translation := state.translation.issue nested (ascii "unsupported directive inside location if") }

def withContentType (contentType : Option (List UInt8)) : RouteActionConfig → RouteActionConfig
  | .respond status body old => .respond status body (contentType.getD old)
  | action => action

/-- The headers of a condition are those of the location, each of them with its value. -/
def faithfullyInherited (conditional inherited : List HeaderValueConfig) : Bool :=
  conditional.length == inherited.length && conditional.all fun header =>
    inherited.any fun other => other.name == header.name && other.value == header.value && other.always == header.always

def methodCondition (path : List UInt8) (matchKind : RouteMatchKind) (child : Directive) (value : List UInt8)
    (state : LocationState) : LocationState :=
  let conditional := child.children.foldl (conditionalStep [value]) ⟨[],none,none,state.translation⟩
  let state := { state with translation := conditional.translation }
  match conditional.action with
  | some action =>
    { state with conditionalRoutes := state.conditionalRoutes ++ [⟨path,matchKind,[value],[],state.maxRequestBodyBytes,
        state.requestHeaders,conditional.headers,[],withContentType conditional.contentType action⟩] }
  | none =>
    if conditional.headers.isEmpty then state
    else if state.responseHeaders.isEmpty then { state with responseHeaders := conditional.headers }
    else if !faithfullyInherited conditional.headers state.responseHeaders then
      state.issue child (ascii
        "conditional add_header overrides cannot be represented unless they exactly match the inherited header set")
    else state

def invalidArguments : List UInt8 := ascii "invalid or unsupported directive arguments"

/-- The round of the loop of `parse_location` for one directive. -/
def locationStep (path : List UInt8) (matchKind : RouteMatchKind) (state : LocationState) (child : Directive) : LocationState :=
  match child.keyword with
  | .root =>
    match child.args with
    | [root] => { state with root := some root, mapping := .root }
    | _ => state.issue child invalidArguments
  | .aliases =>
    match child.args with
    | [root] => { state with root := some root, mapping := .alias }
    | _ => state.issue child invalidArguments
  | .index => if child.args.isEmpty then state.issue child invalidArguments else { state with indexes := child.args }
  | .tryFiles =>
    if child.args == [ascii "$uri",ascii "$uri/",ascii "=404"] then { state with tryFiles := true }
    else state.issue child (ascii "only `try_files $uri $uri/ =404` is supported")
  | .clientMaxBodySize =>
    match child.args with
    | [size] =>
      let state := { state with maxRequestBodyBytes := parseSize size }
      if state.maxRequestBodyBytes.isNone then state.issue child (ascii "invalid client_max_body_size") else state
    | _ => state.issue child invalidArguments
  | .proxyPass =>
    match child.args with
    | [target] =>
      match parseProxyPass target with
      | some (address,replacement) =>
        let (name,translation) := state.translation.upstream address
        { state with proxy := some (name,replacement), translation }
      | none => state.issue child (ascii "proxy_pass must use a literal cleartext HTTP socket address")
    | _ => state.issue child invalidArguments
  | .proxySetHeader =>
    match child.args with
    | [name,value] => proxySetHeader child (name.map toAsciiLowercase) value state
    | _ => state.issue child (ascii "proxy_set_header requires a name and value")
  | .proxyHttpVersion =>
    if child.args == [ascii "1.1"] then state else state.issue child (ascii "only HTTP/1.1 upstream requests are supported")
  | .proxyRedirect =>
    if child.args == [ascii "off"] then state else state.issue child (ascii "only `proxy_redirect off` is supported")
  | .addHeader =>
    match headerFromAdd child [] with
    | some header => { state with responseHeaders := state.responseHeaders ++ [header] }
    | none => state.issue child (ascii "add_header requires a name, value, and optional always")
  | .deny =>
    match child.args with
    | [network] => { state with deny := state.deny ++ (if network == ascii "all" then allNetworks else [network]) }
    | _ => state.issue child (ascii "deny requires one IP address, CIDR, or all")
  | .returns =>
    match returnAction child with
    | some returned => { state with action := some returned }
    | none => state.issue child (ascii "unsupported return status or arguments")
  | .condition =>
    match ifCondition child with
    | none => state.issue child (ascii "unsupported if condition")
    | some condition =>
      if condition.name ≠ ascii "$request_method" || condition.operator ≠ ascii "=" then
        state.issue child (ascii "locations only support request-method conditions")
      else methodCondition path matchKind child condition.value state
  | _ => state

/-- The kind of a location and its path. -/
def locationMatch (directive : Directive) : Option (RouteMatchKind × List UInt8) :=
  match directive.args with
  | [path] => if startsWith 0x2f path then some (.pathPrefix,path) else none
  | [operator,path] =>
    if operator == ascii "=" && startsWith 0x2f path then some (.exact,path)
    else if operator == ascii "^~" && startsWith 0x2f path then some (.pathPrefix,path)
    else none
  | _ => none

def locationStart (directive : Directive) (server : ServerSpec) (translation : Translation) : LocationState :=
  ⟨server.root,.root,server.indexes,false,
    if directive.children.any (·.name == ascii "add_header") then [] else server.responseHeaders,
    [],server.deny,server.maxRequestBodyBytes,none,none,none,[],translation⟩

def inheritHeaders (responseHeaders : List HeaderValueConfig) (route : ActionRouteConfig) : ActionRouteConfig :=
  { route with responseHeaders := if route.responseHeaders.isEmpty then responseHeaders else route.responseHeaders }

/-- The action of a location: its return, else its upstream, else its files. -/
def locationAction (server : ServerSpec) (state : LocationState) : Option RouteActionConfig :=
  (state.action.or (state.proxy.map fun (upstream,replacement) => .proxy upstream replacement state.hostHeader)).or
    (state.root.map fun directory => .files directory state.mapping
      (if state.indexes.isEmpty then [ascii "index.html"] else state.indexes) state.tryFiles server.errorPage404)

def parseLocation (directive : Directive) (server : ServerSpec) (translation : Translation) :
    Option (List ActionRouteConfig) × Translation :=
  match locationMatch directive with
  | none => (none,translation.issue directive (ascii "only exact and prefix locations are supported"))
  | some (matchKind,path) =>
    let state := directive.children.foldl (locationStep path matchKind) (locationStart directive server translation)
    let conditionalRoutes := state.conditionalRoutes.map (inheritHeaders state.responseHeaders)
    let deny := if state.action.isSome then [] else state.deny
    match locationAction server state with
    | none => (none,state.translation.issue directive (ascii "location has no proxy, response, or static root"))
    | some action => (some (conditionalRoutes ++ [⟨path,matchKind,[],[],state.maxRequestBodyBytes,state.requestHeaders,
        state.responseHeaders,deny,action⟩]),state.translation)

end Locations

section Servers

structure ServerState where
  server : ServerSpec
  translation : Translation

def ServerState.issue (state : ServerState) (directive : Directive) (message : List UInt8) : ServerState :=
  { state with translation := state.translation.issue directive message }

def emptyServer (maxRequestBodyBytes : Option Nat) : ServerSpec :=
  ⟨[],[],none,none,none,[ascii "index.html"],none,[],[],maxRequestBodyBytes,[],[],[]⟩

/-- The round of the names of a server for one name. -/
def serverNameStep (child : Directive) (state : ServerState) (name : List UInt8) : ServerState :=
  if name == ascii "_" then state
  else if startsWith 0x7e name || name.contains 0x24 then
    state.issue child (ascii "regex and variable server names are unsupported")
  else { state with server := { state.server with
    names := state.server.names ++ [(name.rdropWhile (· == 0x2e)).map toAsciiLowercase] } }

/-- The route of a return at the level of a server. -/
def returnRoute (responseHeaders : List HeaderValueConfig) (action : RouteActionConfig) : ActionRouteConfig :=
  ⟨ascii "/",.pathPrefix,[],[],none,[],responseHeaders,[],action⟩

/-- `entry(key).or_default().push(value)`. -/
def pushEntry {Value : Type} (key : List UInt8) (value : Value) (entries : List (List UInt8 × List Value)) :
    List (List UInt8 × List Value) :=
  match Ledger.find key entries with
  | some values => Ledger.replace key (values ++ [value]) entries
  | none => (key,[value]) :: entries

/-- The round of the loop inside a condition on the host; other directives are left to the inspection. -/
def hostConditionStep (value : List UInt8) (state : ServerState) (nested : Directive) : ServerState :=
  match nested.keyword with
  | .returns =>
    match returnAction nested with
    | some action => { state with server := { state.server with
        hostReturns := pushEntry value (returnRoute state.server.responseHeaders action) state.server.hostReturns } }
    | none => state.issue nested (ascii "unsupported return inside host condition")
  | _ => state

/-- The round of the first loop of `parse_server` for one directive. -/
def serverStep (state : ServerState) (child : Directive) : ServerState :=
  match child.keyword with
  | .listen =>
    match parseListen child with
    | some listen => { state with server := { state.server with listens := state.server.listens ++ [listen] } }
    | none => state.issue child (ascii "unsupported listen address")
  | .serverName =>
    if child.args.isEmpty then state.issue child invalidArguments else child.args.foldl (serverNameStep child) state
  | .root =>
    match child.args with
    | [root] => { state with server := { state.server with root := some root } }
    | _ => state.issue child invalidArguments
  | .index =>
    if child.args.isEmpty then state.issue child invalidArguments
    else { state with server := { state.server with indexes := child.args } }
  | .errorPage =>
    match child.args with
    | [status,page] =>
      if status == ascii "404" then { state with server := { state.server with errorPage404 := some page } }
      else state.issue child invalidArguments
    | _ => state.issue child invalidArguments
  | .clientMaxBodySize =>
    match child.args with
    | [size] =>
      let state := { state with server := { state.server with maxRequestBodyBytes := parseSize size } }
      if state.server.maxRequestBodyBytes.isNone then state.issue child (ascii "invalid client_max_body_size") else state
    | _ => state.issue child invalidArguments
  | .sslCertificate =>
    match child.args with
    | [file] => { state with server := { state.server with certificate := some file } }
    | _ => state.issue child invalidArguments
  | .sslCertificateKey =>
    match child.args with
    | [file] => { state with server := { state.server with privateKey := some file } }
    | _ => state.issue child invalidArguments
  | .addHeader =>
    match headerFromAdd child [] with
    | some header => { state with server := { state.server with responseHeaders := state.server.responseHeaders ++ [header] } }
    | none => state.issue child (ascii "invalid add_header")
  | .deny =>
    match child.args with
    | [network] => { state with server := { state.server with
        deny := state.server.deny ++ (if network == ascii "all" then allNetworks else [network]) } }
    -- no arm of the source takes another number of arguments: the default arm passes over it
    | _ => state
  | .returns =>
    match returnAction child with
    | some action => { state with server := { state.server with
        returns := state.server.returns ++ [returnRoute state.server.responseHeaders action] } }
    | none => state.issue child (ascii "unsupported server return")
  | .condition =>
    match ifCondition child with
    | none => state.issue child (ascii "unsupported server if condition")
    | some condition =>
      if condition.name ≠ ascii "$host" || condition.operator ≠ ascii "=" then
        state.issue child (ascii "servers only support host equality conditions")
      else child.children.foldl (hostConditionStep condition.value) state
  | _ => state

def defaultListen : ListenSpec := ⟨⟨.v4 [0,0,0,0],0,80⟩,false,false⟩

def ListenSpec.scheme (listen : ListenSpec) : List UInt8 := if listen.tls then ascii "https" else ascii "http"

/-- The schemes of some listeners, as an ordered set. -/
def schemesOf (listens : List ListenSpec) : List (List UInt8) := Ordered.ordered (listens.map ListenSpec.scheme)

/-- A return at the level of a server, with the settings that the whole server has. -/
def settleReturn (server : ServerSpec) (route : ActionRouteConfig) : ActionRouteConfig :=
  { route with
    responseHeaders := server.responseHeaders
    deny := []
    maxRequestBodyBytes := server.maxRequestBodyBytes
    schemes := schemesOf server.listens }

/-- The server before its locations are read. -/
def settleServer (server : ServerSpec) : ServerSpec :=
  let server := if server.listens.isEmpty then { server with listens := [defaultListen] } else server
  { server with
    returns := server.returns.map (settleReturn server)
    hostReturns := server.hostReturns.map fun entry => (entry.1,entry.2.map (settleReturn server)) }

def withSchemes (schemes : List (List UInt8)) (route : ActionRouteConfig) : ActionRouteConfig := { route with schemes }

/-- The round of the second loop of `parse_server`. -/
def locationsStep (snapshot : ServerSpec) (state : ServerState) (child : Directive) : ServerState :=
  match child.keyword with
  | .location =>
    match parseLocation child snapshot state.translation with
    | (some routes,translation) =>
      ⟨{ state.server with locations := state.server.locations ++ routes.map (withSchemes (schemesOf snapshot.listens)) },
        translation⟩
    | (none,translation) => { state with translation }
  | _ => state

def serverSnapshot (directive : Directive) (maxRequestBodyBytes : Option Nat) (translation : Translation) : ServerState :=
  let state := directive.children.foldl serverStep ⟨emptyServer maxRequestBodyBytes,translation⟩
  { state with server := settleServer state.server }

def parseServer (directive : Directive) (maxRequestBodyBytes : Option Nat) (translation : Translation) : ServerState :=
  let snapshot := serverSnapshot directive maxRequestBodyBytes translation
  directive.children.foldl (locationsStep snapshot.server) snapshot

end Servers

section Inspection

def rootSettings : List (List UInt8) := [ascii "user",ascii "worker_processes",ascii "pid",ascii "load_module"]

def eventSettings : List (List UInt8) := [ascii "worker_connections",ascii "multi_accept"]

def tlsSettings : List (List UInt8) :=
  [ascii "ssl_protocols",ascii "ssl_prefer_server_ciphers",ascii "ssl_ciphers",ascii "ssl_session_cache",
    ascii "ssl_session_timeout",ascii "ssl_session_tickets"]

def httpSettings : List (List UInt8) :=
  [ascii "sendfile",ascii "tcp_nopush",ascii "tcp_nodelay",ascii "keepalive_timeout",ascii "types_hash_max_size",
    ascii "server_names_hash_bucket_size",ascii "default_type",ascii "client_max_body_size"] ++ tlsSettings ++
  [ascii "access_log",ascii "error_log",ascii "gzip",ascii "gzip_vary",ascii "gzip_proxied",ascii "gzip_comp_level",
    ascii "gzip_buffers",ascii "gzip_http_version",ascii "gzip_min_length",ascii "gzip_types",ascii "log_format",ascii "types"]

def serverSettings : List (List UInt8) :=
  [ascii "listen",ascii "server_name",ascii "root",ascii "index",ascii "error_page",ascii "client_max_body_size",
    ascii "ssl_certificate",ascii "ssl_certificate_key",ascii "ssl_dhparam"] ++ tlsSettings ++
  [ascii "add_header",ascii "deny",ascii "return"]

def locationSettings : List (List UInt8) :=
  [ascii "proxy_pass",ascii "proxy_http_version",ascii "proxy_set_header",ascii "proxy_redirect",ascii "root",ascii "alias",
    ascii "index",ascii "try_files",ascii "client_max_body_size",ascii "add_header",ascii "deny",ascii "return"]

def supportedCondition (condition : Condition) : Bool :=
  (condition.name == ascii "$host" || condition.name == ascii "$request_method") && condition.operator == ascii "="

def inspectIf (translation : Translation) (directive : Directive) : Translation :=
  let translation := if (ifCondition directive).any supportedCondition then translation
    else translation.issue directive (ascii "only equality checks for $host or $request_method are supported")
  directive.children.foldl (fun translation child =>
    if child.name == ascii "add_header" || child.name == ascii "return" then translation
    else translation.issue child (ascii "unsupported directive inside if")) translation

def inspectLocation (translation : Translation) (directives : List Directive) : Translation :=
  directives.foldl (fun translation directive =>
    if locationSettings.contains directive.name then translation
    else if directive.name == ascii "if" then inspectIf translation directive
    else translation.issue directive (ascii "unsupported location directive")) translation

def inspectServer (translation : Translation) (directives : List Directive) : Translation :=
  directives.foldl (fun translation directive =>
    if serverSettings.contains directive.name then translation
    else if directive.name == ascii "location" then inspectLocation translation directive.children
    else if directive.name == ascii "if" then inspectIf translation directive
    else translation.issue directive (ascii "unsupported server directive")) translation

def inspectHttp (translation : Translation) (directives : List Directive) : Translation :=
  directives.foldl (fun translation directive =>
    if httpSettings.contains directive.name then translation
    else if directive.name == ascii "server" then inspectServer translation directive.children
    else translation.issue directive (ascii "unsupported HTTP directive")) translation

def inspectEvents (translation : Translation) (directives : List Directive) : Translation :=
  directives.foldl (fun translation directive =>
    if eventSettings.contains directive.name then translation
    else translation.issue directive (ascii "unsupported events directive")) translation

def inspectRoot (translation : Translation) (directives : List Directive) : Translation :=
  directives.foldl (fun translation directive =>
    if rootSettings.contains directive.name then translation
    else if directive.name == ascii "events" then inspectEvents translation directive.children
    else if directive.name == ascii "http" then inspectHttp translation directive.children
    else translation.issue directive (ascii "unsupported top-level directive")) translation

end Inspection

section Listeners

structure ListenerBuild where
  address : SocketAddr
  tls : Bool
  certificates : List TlsCertificateConfig
  hasDefault : Bool

abbrev Owners := List (SocketAddr × Nat × Bool)

/-- The server that answers on an address when no name does: the one that says so, else the first. -/
def ownDefault (index : Nat) (owners : Owners) (listen : ListenSpec) : Except NginxError Owners :=
  match Ledger.find listen.address owners with
  | none => .ok ((listen.address,index,listen.isDefault) :: owners)
  | some (owner,true) =>
    if listen.isDefault && owner != index then
      .error (.invalid (ascii "listener " ++ displaySocketAddr listen.address ++ ascii " has more than one default server"))
    else .ok owners
  | some (_,false) => .ok (if listen.isDefault then Ledger.replace listen.address (index,true) owners else owners)

def defaultOwners (servers : List ServerSpec) : Except NginxError Owners :=
  servers.zipIdx.foldlM (fun owners (server,index) => server.listens.foldlM (ownDefault index) owners) []

/-- The certificate that a server brings to a listener. -/
def buildCertificate (server : ServerSpec) (listen : ListenSpec) (build : ListenerBuild) : Except NginxError ListenerBuild :=
  if !listen.tls then .ok build
  else match server.certificate,server.privateKey with
    | some certificate,some privateKey => .ok { build with
        hasDefault := build.hasDefault || listen.isDefault
        certificates := build.certificates ++ [⟨server.names,certificate,privateKey,listen.isDefault⟩] }
    | _,_ => .error (.invalid (ascii "TLS server on " ++ displaySocketAddr listen.address ++
        ascii " has no certificate/key pair"))

def buildListener (server : ServerSpec) (builds : List (SocketAddr × ListenerBuild)) (listen : ListenSpec) :
    Except NginxError (List (SocketAddr × ListenerBuild)) :=
  let found := Ledger.find listen.address builds
  let build := found.getD ⟨listen.address,listen.tls,[],false⟩
  if build.tls ≠ listen.tls then
    .error (.invalid (ascii "listener " ++ displaySocketAddr listen.address ++ ascii " mixes TLS and cleartext server blocks"))
  else do
    let build ← buildCertificate server listen build
    return if found.isSome then Ledger.replace listen.address build builds else (listen.address,build) :: builds

/-- The first certificate is the default where no server says so. -/
def settleDefault (build : ListenerBuild) : ListenerBuild :=
  if build.tls && !build.hasDefault then
    match build.certificates with
    | [] => build
    | first :: rest => { build with certificates := { first with isDefault := true } :: rest, hasDefault := true }
  else build

def listenerBuilds (servers : List ServerSpec) : Except NginxError (List ListenerBuild) := do
  let builds ← servers.foldlM (fun builds server => server.listens.foldlM (buildListener server) builds) []
  return builds.map fun entry => settleDefault entry.2

def builtListener (build : ListenerBuild) : AdditionalListenerConfig :=
  ⟨displaySocketAddr build.address,if build.tls then some ⟨[],[],build.certificates⟩ else none⟩

/-- The listeners in the order of their texts. -/
def builtListeners (builds : List ListenerBuild) : List AdditionalListenerConfig :=
  (builds.map builtListener).insertionSort fun left right => left.address ≤ right.address

end Listeners

section Sites

structure Assembly where
  sites : List (List UInt8 × SiteConfig)
  assignments : List ((List UInt8 × List UInt8) × List ActionRouteConfig)

/-- The names a server answers to, each with its schemes: its own, and any name where it is the default. -/
def keyScopes (owners : Owners) (server : ServerSpec) (index : Nat) : List (List UInt8 × List (List UInt8)) :=
  let defaults := schemesOf (server.listens.filter fun listen =>
    (Ledger.find listen.address owners).any fun (owner,_) => owner == index)
  (server.names.map fun key => (key,schemesOf server.listens)) ++ (if defaults.isEmpty then [] else [(ascii "*",defaults)])

/-- The routes of a server under one of its names: returns take the place of the locations. -/
def effectiveRoutes (server : ServerSpec) (key : List UInt8) : List ActionRouteConfig :=
  let hostReturns := (Ledger.find key server.hostReturns).getD []
  hostReturns ++ server.returns ++ (if hostReturns.isEmpty && server.returns.isEmpty then server.locations else [])

def scopedRoutes (server : ServerSpec) (key scheme : List UInt8) : List ActionRouteConfig :=
  (effectiveRoutes server key).map (withSchemes [scheme])

def newSite (key : List UInt8) : SiteConfig := ⟨key == ascii "*",if key == ascii "*" then [] else [key],[],[],[]⟩

def openSite (key : List UInt8) (sites : List (List UInt8 × SiteConfig)) : List (List UInt8 × SiteConfig) :=
  if (Ledger.find key sites).isSome then sites else (key,newSite key) :: sites

def extendSite (key : List UInt8) (routes : List ActionRouteConfig) (sites : List (List UInt8 × SiteConfig)) :
    List (List UInt8 × SiteConfig) :=
  match Ledger.find key sites with
  | some site => Ledger.replace key { site with routes := site.routes ++ routes } sites
  | none => sites

/-- The routes of a server under a name on a scheme; another server that has both must have the same ones. -/
def assignScheme (server : ServerSpec) (key : List UInt8) (assembly : Assembly) (scheme : List UInt8) :
    Except NginxError Assembly :=
  let routes := scopedRoutes server key scheme
  match Ledger.find (key,scheme) assembly.assignments with
  | some existing =>
    if existing ≠ routes then
      .error (.invalid (ascii "server name " ++ key ++ ascii " has conflicting " ++ scheme ++
        ascii " behavior on multiple listeners"))
    else .ok assembly
  | none => .ok ⟨extendSite key routes assembly.sites,((key,scheme),routes) :: assembly.assignments⟩

def assignKey (server : ServerSpec) (assembly : Assembly) (scope : List UInt8 × List (List UInt8)) : Except NginxError Assembly :=
  scope.2.foldlM (assignScheme server scope.1) { assembly with sites := openSite scope.1 assembly.sites }

def assignServer (owners : Owners) (assembly : Assembly) (entry : ServerSpec × Nat) : Except NginxError Assembly :=
  (keyScopes owners entry.1 entry.2).foldlM (assignKey entry.1) assembly

def assemble (owners : Owners) (servers : List ServerSpec) : Except NginxError Assembly :=
  servers.zipIdx.foldlM (assignServer owners) ⟨[],[]⟩

/-- The sites that have a route, in the order of their keys. -/
def retainedSites (assembly : Assembly) : List SiteConfig :=
  ((assembly.sites.filter fun entry => !entry.2.routes.isEmpty).insertionSort fun left right => left.1 ≤ right.1).map (·.2)

end Sites

section Translate

/-- What a translation asks of the files: which paths are directories, and the fault of the certificates that do not load. -/
structure Files where
  isDirectory : List UInt8 → Bool
  loadTlsConfig : TlsConfig → Option (List UInt8)

def configuredTls (config : Config) : List (List UInt8 × TlsConfig) :=
  (config.listener.tls.toList.map (ascii "listener.tls",·)) ++
    config.listeners.zipIdx.filterMap fun (listener,index) =>
      listener.tls.map (indexed (ascii "listeners") index ++ ascii ".tls",·)

def validateConfigFiles (files : Files) (config : Config) : Validation Unit := do
  validateConfig files.isDirectory config
  (configuredTls config).forM fun (label,tls) =>
    match files.loadTlsConfig tls with
    | none => .ok ()
    | some fault => .error (label ++ ascii " certificate/key validation failed: " ++ fault)

def translateCompression (http : Directive) : Except NginxError CompressionConfig := do
  let enabled := ((inherited http.children (ascii "gzip")).getLast?.bind (·.args.head?)) == some (ascii "on")
  let types := ((inherited http.children (ascii "gzip_types")).getLast?.map (·.args)).getD []
  let types := if types.contains (ascii "text/html") then types else types ++ [ascii "text/html"]
  let minSizeBytes ← match (inherited http.children (ascii "gzip_min_length")).getLast? with
    | none => .ok 20
    | some directive =>
      match directive.args with
      | [size] => (parseSize size).elim (.error (.invalid (ascii "invalid gzip_min_length"))) .ok
      | _ => .error (.invalid (ascii "invalid gzip_min_length"))
  return ⟨enabled,minSizeBytes,types⟩

def httpMaxRequestBodyBytes (http : Directive) : Except NginxError Nat :=
  match (inherited http.children (ascii "client_max_body_size")).getLast? with
  | none => .ok 1048576
  | some directive =>
    match directive.args with
    | [size] => (parseSize size).elim (.error (.invalid (ascii "invalid HTTP client_max_body_size"))) .ok
    | _ => .error (.invalid (ascii "invalid HTTP client_max_body_size"))

/-- The servers of the http block with what their translation leaves behind. -/
def parseServers (directives : List Directive) (maxRequestBodyBytes : Option Nat) (translation : Translation) :
    List ServerSpec × Translation :=
  (inherited directives (ascii "server")).foldl (fun (servers,translation) directive =>
    let state := parseServer directive maxRequestBodyBytes translation
    (servers ++ [state.server],state.translation)) ([],translation)

/-- The order of socket addresses: the version, the parts, the port and the scope. -/
def SocketAddr.orderKey (address : SocketAddr) : List Nat :=
  match address.ip with
  | .v4 octets => 4 :: octets ++ [address.port]
  | .v6 segments => 6 :: segments ++ [address.port,address.scopeId]

def translatedUpstreams (translation : Translation) : List UpstreamConfig :=
  (translation.upstreamNames.insertionSort fun left right => SocketAddr.orderKey left.1 ≤ SocketAddr.orderKey right.1).map
    fun (address,name) => ⟨name,displaySocketAddr address⟩

def importedListener (primary : AdditionalListenerConfig) : ListenerConfig :=
  ⟨primary.address,none,primary.tls,false,ascii "agreement",2,[],1024,5000,30000,3000,30000,10000⟩

def importedLimits (sites : List SiteConfig) : ConfiguredLimits :=
  let limit := (sites.flatMap fun site => site.routes.filterMap (·.maxRequestBodyBytes)).max?.getD 1048576
  ⟨⟨32768,67108864⟩,limit,max 134217728 limit⟩

/-- The configuration of the servers that were read. -/
def assembleConfig (compression : CompressionConfig) (servers : List ServerSpec) (translation : Translation) :
    Except NginxError Config := do
  let owners ← defaultOwners servers
  let builds ← listenerBuilds servers
  let assembly ← assemble owners servers
  let sites := retainedSites assembly
  if sites.isEmpty then .error (.invalid (ascii "no translatable routes were found in Nginx server blocks"))
  else match builtListeners builds with
    | [] => .error (.invalid (ascii "no listeners were found"))
    | primary :: listeners => return ⟨importedListener primary,listeners,importedLimits sites,compression,
        translatedUpstreams translation,[],sites,none⟩

def translate (files : Files) (directives : List Directive) : Except NginxError Config := do
  let inspected := inspectRoot ⟨[],[]⟩ directives
  if !inspected.issues.isEmpty then .error (.unsupported inspected.issues)
  else match inherited directives (ascii "http") with
    | [http] =>
      let compression ← translateCompression http
      let limit ← httpMaxRequestBodyBytes http
      let (servers,translation) := parseServers http.children (some limit) inspected
      if !translation.issues.isEmpty then .error (.unsupported translation.issues)
      else if servers.isEmpty then .error (.invalid (ascii "Nginx http block contains no server blocks"))
      else
        let config ← assembleConfig compression servers translation
        match validateConfigFiles files config with
        | .ok () => return config
        | .error message => .error (.invalid (ascii "invalid configuration: " ++ message))
    | _ => .error (.invalid (ascii "Nginx configuration must contain exactly one http block"))

end Translate

end Polyguard.Nginx
