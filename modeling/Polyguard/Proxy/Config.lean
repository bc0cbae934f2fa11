import Polyguard.Proxy.Exchange
import Polyguard.Proxy.Agreement
import Polyguard.Route.Implementations
import Polyguard.Bytes.Text

/-! The configuration of the proxy and its validation.
A text of the configuration is the list of its UTF-8 bytes; the names of registered
implementations stay texts. Whether a path is a directory is asked of the file
system, which is a parameter. -/
namespace Polyguard.Proxy
open Ascii Slices Decimal Address

structure TlsCertificateConfig where
  serverNames : List (List UInt8)
  certificateChainFile : List UInt8
  privateKeyFile : List UInt8
  isDefault : Bool
deriving DecidableEq, Repr

structure TlsConfig where
  certificateChainFile : List UInt8
  privateKeyFile : List UInt8
  certificates : List TlsCertificateConfig
deriving DecidableEq, Repr

structure ListenerConfig where
  address : List UInt8
  managementAddress : Option (List UInt8)
  tls : Option TlsConfig
  trustForwardingHeaders : Bool
  securityMode : List UInt8
  agreementImplementations : Nat
  quarantinedImplementations : List String
  maxConnections : Nat
  requestHeaderTimeoutMs : Nat
  requestBodyTimeoutMs : Nat
  upstreamConnectTimeoutMs : Nat
  upstreamResponseTimeoutMs : Nat
  gracefulShutdownTimeoutMs : Nat
deriving DecidableEq, Repr

structure AdditionalListenerConfig where
  address : List UInt8
  tls : Option TlsConfig
deriving DecidableEq, Repr

structure UpstreamConfig where
  name : List UInt8
  address : List UInt8
deriving DecidableEq, Repr

structure RouteConfig where
  host : List UInt8
  pathPrefix : List UInt8
  upstream : List UInt8
deriving DecidableEq, Repr

inductive RouteMatchKind where
  | exact
  | pathPrefix
  | boundaryPrefix
deriving DecidableEq, Repr

inductive StaticMapping where
  | root
  | alias
deriving DecidableEq, Repr

inductive RouteActionConfig where
  | proxy (upstream : List UInt8) (replacePrefix hostHeader : Option (List UInt8))
  | redirect (status : Nat) (location : List UInt8)
  | respond (status : Nat) (body contentType : List UInt8)
  | files (directory : List UInt8) (mapping : StaticMapping) (index : List (List UInt8)) (tryFiles : Bool)
      (errorPage404 : Option (List UInt8))
deriving DecidableEq, Repr

structure ActionRouteConfig where
  path : List UInt8
  matchKind : RouteMatchKind
  methods : List (List UInt8)
  schemes : List (List UInt8)
  maxRequestBodyBytes : Option Nat
  requestHeaders : List HeaderValueConfig
  responseHeaders : List HeaderValueConfig
  deny : List (List UInt8)
  action : RouteActionConfig
deriving DecidableEq, Repr

structure SiteConfig where
  isDefault : Bool
  serverNames : List (List UInt8)
  routes : List ActionRouteConfig
  responseHeaders : List HeaderValueConfig
  deny : List (List UInt8)
deriving DecidableEq, Repr

structure PolyformConfig where
  baseUrl : List UInt8
  trustFile : List UInt8
  stateFile : List UInt8
  installationId : Option (List UInt8)
  strategy : List UInt8
  refreshIntervalSeconds : Nat
deriving DecidableEq, Repr

/-- The limits of the configuration; the exchange reads those it extends. -/
structure ConfiguredLimits extends Limits where
  maxRequestBodyBytes : Nat
  maxInflightBodyBytes : Nat
deriving DecidableEq, Repr

structure Config where
  listener : ListenerConfig
  listeners : List AdditionalListenerConfig
  limits : ConfiguredLimits
  compression : CompressionConfig
  upstreams : List UpstreamConfig
  routes : List RouteConfig
  sites : List SiteConfig
  polyform : Option PolyformConfig
deriving DecidableEq, Repr

/-- A fault of the configuration is the text of `ConfigError::Invalid`. -/
abbrev Validation (α : Type) := Except (List UInt8) α

def require (holds : Bool) (message : List UInt8) : Validation Unit := if holds then .ok () else .error message

/-- A label with an index, as in `listeners[2]`. -/
def indexed (label : List UInt8) (index : Nat) : List UInt8 := label ++ ascii "[" ++ decimal index ++ ascii "]"

def maxRequestLineBytes : Nat := 8192
def maxConfiguredRequestBodyBytes : Nat := 16777216
def maxConfiguredResponseHeaderBytes : Nat := 1048576
def maxConfiguredResponseBodyBytes : Nat := 1073741824
def maxConfiguredInflightBodyBytes : Nat := 1073741824

section Addresses

/-- The parts of an address: four octets, or eight segments. -/
inductive AddressParts where
  | v4 (octets : List Nat)
  | v6 (segments : List Nat)
deriving DecidableEq, Repr

/-- `IpAddr::from_str`. -/
def parseIpAddr : List UInt8 → Option AddressParts :=
  parseWith fun text => ((readIpv4Addr text).map (Prod.map .v4 id)).or ((readIpv6Addr text).map (Prod.map .v6 id))

/-- A socket address: the host, the scope of a version 6 address and the port. -/
structure SocketAddr where
  ip : AddressParts
  scopeId : Nat
  port : Nat
deriving DecidableEq, Repr

def readPort : Reader Nat := fun text => do
  let (_,text) ← readGivenChar 0x3a text
  readNumber 10 text.length true u16Max text

def readSocketAddrV4 : Reader SocketAddr := fun text => do
  let (octets,text) ← readIpv4Addr text
  let (port,text) ← readPort text
  some (⟨.v4 octets,0,port⟩,text)

def readScopeId : Reader Nat := fun text => do
  let (_,text) ← readGivenChar 0x25 text
  readNumber 10 text.length true u32Max text

def readSocketAddrV6 : Reader SocketAddr := fun text => do
  let (_,text) ← readGivenChar 0x5b text
  let (segments,text) ← readIpv6Addr text
  let (scopeId,text) := (readScopeId text).getD (0,text)
  let (_,text) ← readGivenChar 0x5d text
  let (port,text) ← readPort text
  some (⟨.v6 segments,scopeId,port⟩,text)

/-- `SocketAddr::from_str`. -/
def parseSocketAddr (text : List UInt8) : Option SocketAddr :=
  parseWith (fun text => (readSocketAddrV4 text).or (readSocketAddrV6 text)) text

/-- The bits of an address, of `width` bits a part. -/
def addressBits (width : Nat) (parts : List Nat) : Nat := parts.foldl (fun bits part => (bits <<< width) + part) 0

inductive IpNetwork where
  | v4 (address length : Nat)
  | v6 (address length : Nat)
deriving DecidableEq, Repr

def u8Max : Nat := 255

/-- The length of a network: the whole width when none is written. -/
def networkLength (width : Nat) (written : Option (List UInt8)) : Option Nat := do
  let length ← written.elim (some width) (parseUnsigned u8Max)
  if length ≤ width then some length else none

def IpNetwork.parse (value : List UInt8) : Option IpNetwork := do
  let (address,written) := match splitOnce 0x2f value with
    | some (address,written) => (address,some written)
    | none => (value,none)
  match ← parseIpAddr address with
  | .v4 octets => (networkLength 32 written).map (.v4 (addressBits 8 octets))
  | .v6 segments => (networkLength 128 written).map (.v6 (addressBits 16 segments))

def IpNetwork.contains : IpNetwork → AddressParts → Bool
  | .v4 address length,.v4 candidate =>
    let shift := 32 - length
    shift == 32 || address >>> shift == addressBits 8 candidate >>> shift
  | .v6 address length,.v6 candidate =>
    let shift := 128 - length
    shift == 128 || address >>> shift == addressBits 16 candidate >>> shift
  | _,_ => false

end Addresses

section Fields

/-- A host of at least two labels, with or without a leading wildcard. -/
def validSniPattern (value : List UInt8) : Bool :=
  let host := (stripPrefix (ascii "*.") value).getD value
  !host.isEmpty && host.length ≤ 253 && !endsWith 0x2e host && host.all isAscii && 2 ≤ (host.splitOn 0x2e).length &&
    (host.splitOn 0x2e).all fun label =>
      !label.isEmpty && label.length ≤ 63 && !startsWith 0x2d label && !endsWith 0x2d label &&
        label.all fun byte => isAsciiLowercase byte || isAsciiDigit byte || byte == 0x2d

def validMethod (value : List UInt8) : Bool := !value.isEmpty && value.length ≤ 32 && value.all isTchar

def validHeaderName (value : List UInt8) : Bool := validMethod value && value.all fun byte => !isAsciiUppercase byte

def templateVariables : List (List UInt8) :=
  [ascii "$host",ascii "$http_host",ascii "$remote_addr",ascii "$scheme",ascii "$request_uri",
    ascii "$proxy_add_x_forwarded_for"]

/-- The loop of `valid_template` over the bytes that are left. -/
def validTemplateLoop (text : List UInt8) : Bool :=
  match text with
  | [] => true
  | byte :: rest =>
    if byte ≠ 0x24 then validTemplateLoop rest
    else templateVariables.contains (byte :: rest.takeWhile isVariableByte) &&
      validTemplateLoop (rest.dropWhile isVariableByte)
termination_by text.length
decreasing_by
  · simp
  · exact Nat.lt_succ_of_le (List.dropWhile_sublist _).length_le

def validTemplate (value : List UInt8) : Bool :=
  !value.any (fun byte => byte == 0x0d || byte == 0x0a || byte == 0) && validTemplateLoop value

def validConfigPath (value : List UInt8) : Bool :=
  !value.isEmpty && value.length ≤ maxRequestLineBytes && startsWith 0x2f value &&
    value.all fun byte => isAsciiGraphic byte && !(byte == 0x3f || byte == 0x23 || byte == 0x5c)

def validateIdentifier (label value : List UInt8) : Validation Unit :=
  require (!value.isEmpty && value.length ≤ 64 && value.all fun byte => isAsciiAlphanumeric byte || byte == 0x2d || byte == 0x5f)
    (label ++ ascii " must be 1..=64 safe ASCII characters")

def responseManagedHeaders : List (List UInt8) :=
  [ascii "connection",ascii "content-length",ascii "server",ascii "transfer-encoding"]

def requestManagedHeaders : List (List UInt8) :=
  [ascii "connection",ascii "content-length",ascii "forwarded",ascii "host",ascii "te",ascii "trailer",
    ascii "transfer-encoding",ascii "upgrade",ascii "x-forwarded-for",ascii "x-forwarded-host",ascii "x-forwarded-proto"]

def validateMethods (label : List UInt8) (methods : List (List UInt8)) : Validation Unit :=
  methods.forM fun method => require (validMethod method) (label ++ ascii " has invalid method " ++ method)

/-- The round of `validate_header_values` for one header, with the names before it. -/
def validateHeaderValue (label : List UInt8) (response : Bool) (names : List (List UInt8)) (entry : HeaderValueConfig × Nat) :
    Validation (List (List UInt8)) := do
  let (header,index) := entry
  require (validHeaderName header.name) (indexed label index ++ ascii ".name must be a lowercase HTTP field name")
  require (!(if response then responseManagedHeaders else requestManagedHeaders).contains header.name)
    (indexed label index ++ ascii " cannot configure security-managed header " ++ header.name)
  require (!names.contains header.name) (label ++ ascii " configures header " ++ header.name ++ ascii " more than once")
  require (header.value.length ≤ maxHeaderValueBytes && validTemplate header.value)
    (indexed label index ++ ascii ".value contains an unsafe value or unsupported variable")
  validateMethods (indexed label index) header.methods
  return header.name :: names

def validateHeaderValues (label : List UInt8) (headers : List HeaderValueConfig) (response : Bool) : Validation Unit := do
  let _ ← headers.zipIdx.foldlM (validateHeaderValue label response) []
  return ()

def validateDeny (label : List UInt8) (deny : List (List UInt8)) : Validation Unit :=
  deny.zipIdx.forM fun (network,index) =>
    require (IpNetwork.parse network).isSome (indexed (label ++ ascii ".deny") index ++ ascii " is not an IP address or CIDR")

end Fields

section Listeners

/-- The round of `validate_tls_settings` for one certificate, with the names before it. -/
def validateCertificate (label : List UInt8) (names : List (List UInt8)) (entry : TlsCertificateConfig × Nat) :
    Validation (List (List UInt8)) := do
  let (certificate,index) := entry
  let here := indexed (label ++ ascii ".certificates") index
  require (!(Text.trim certificate.certificateChainFile).isEmpty && !(Text.trim certificate.privateKeyFile).isEmpty)
    (here ++ ascii " certificate and private-key paths must not be empty")
  require (certificate.certificateChainFile != certificate.privateKeyFile)
    (here ++ ascii " certificate and private key must be separate files")
  require (!certificate.serverNames.isEmpty || certificate.isDefault) (here ++ ascii " must declare at least one server name")
  certificate.serverNames.foldlM (fun names name => do
    require (validSniPattern name) (here ++ ascii " has invalid server name " ++ name)
    require (!names.contains name) (label ++ ascii " assigns server name " ++ name ++ ascii " more than once")
    return name :: names) names

def validateTlsSettings (label : List UInt8) : Option TlsConfig → Validation Unit
  | none => .ok ()
  | some settings => do
    let hasChain := !(Text.trim settings.certificateChainFile).isEmpty
    let hasKey := !(Text.trim settings.privateKeyFile).isEmpty
    require (hasChain == hasKey) (label ++ ascii " legacy certificate and private-key paths must be provided together")
    require (!(hasChain && settings.certificateChainFile == settings.privateKeyFile))
      (label ++ ascii " certificate and private key must be separate files")
    require (hasChain || !settings.certificates.isEmpty)
      (label ++ ascii " must configure a certificate/key pair or named certificates")
    require (settings.certificates.length ≤ 256) (label ++ ascii " supports at most 256 named certificates")
    let _ ← settings.certificates.zipIdx.foldlM (validateCertificate label) []
    require (hasChain.toNat + settings.certificates.countP (·.isDefault) ≤ 1)
      (label ++ ascii " configures more than one default certificate")

def requireSocketAddr (text message : List UInt8) : Validation SocketAddr :=
  match parseSocketAddr text with
  | some address => .ok address
  | none => .error message

/-- The traffic addresses and the management address are distinct socket addresses. -/
def validateListeners (config : Config) : Validation Unit := do
  let address ← requireSocketAddr config.listener.address (ascii "listener.address must be a literal socket address")
  let management ← config.listener.managementAddress.mapM fun text =>
    requireSocketAddr text (ascii "listener.management_address must be a literal socket address")
  require (management != some address) (ascii "listener.management_address must differ from the traffic listener")
  require (config.listener.securityMode == ascii "agreement") (ascii "listener.security_mode must be agreement")
  validateTlsSettings (ascii "listener.tls") config.listener.tls
  let _ ← config.listeners.zipIdx.foldlM (fun addresses (listener,index) => do
    let here := indexed (ascii "listeners") index
    let address ← requireSocketAddr listener.address (here ++ ascii ".address must be a literal socket address")
    require (!addresses.contains address) (here ++ ascii ".address duplicates another traffic listener")
    require (management != some address) (here ++ ascii ".address must differ from the management listener")
    validateTlsSettings (here ++ ascii ".tls") listener.tls
    return address :: addresses) [address]
  return ()

def validateTimeouts (listener : ListenerConfig) : Validation Unit :=
  [(ascii "request_header_timeout_ms",listener.requestHeaderTimeoutMs),
    (ascii "request_body_timeout_ms",listener.requestBodyTimeoutMs),
    (ascii "upstream_connect_timeout_ms",listener.upstreamConnectTimeoutMs),
    (ascii "upstream_response_timeout_ms",listener.upstreamResponseTimeoutMs),
    (ascii "graceful_shutdown_timeout_ms",listener.gracefulShutdownTimeoutMs)].forM fun (name,value) =>
      require (value != 0 && value ≤ 300000) (ascii "listener." ++ name ++ ascii " must be 1..=300000")

def isMediaByte (byte : UInt8) : Bool :=
  isAsciiLowercase byte || isAsciiDigit byte || byte == 0x2f || byte == 0x2b || byte == 0x2d || byte == 0x2e

def validateLimits (limits : ConfiguredLimits) (compression : CompressionConfig) : Validation Unit := do
  require (limits.maxRequestBodyBytes != 0 && limits.maxRequestBodyBytes ≤ maxConfiguredRequestBodyBytes &&
      1024 ≤ limits.maxResponseHeaderBytes && limits.maxResponseHeaderBytes ≤ maxConfiguredResponseHeaderBytes &&
      limits.maxResponseBodyBytes != 0 && limits.maxResponseBodyBytes ≤ maxConfiguredResponseBodyBytes &&
      limits.maxInflightBodyBytes != 0 && limits.maxInflightBodyBytes ≤ maxConfiguredInflightBodyBytes)
    (ascii "configured limits exceed Polyguard's hard request, response-header, response-body, or aggregate-memory bounds")
  require (compression.minSizeBytes ≤ limits.maxResponseBodyBytes && !compression.types.isEmpty &&
      compression.types.all fun type => type == ascii "*" || (!type.isEmpty && type.all isMediaByte))
    (ascii "compression types and minimum size must be bounded safe media types")

end Listeners

section Registry

/-- The names of the registered implementations, in the order of the registry. -/
def registeredIds : List String :=
  ["request-line-state-pipeline","request-line-direct-guards","request-line-rule-wrappers",
    "request-line-decision-machine","request-line-reverse-offsets","header-section-typed-cursor",
    "header-section-state-phases","header-section-decision-table","header-section-algebraic-lines",
    "header-section-transition-reducer","body-framing-metadata-transition","body-framing-direct-wrappers",
    "body-framing-rule-matrix","body-framing-stream-machine","body-framing-bounded-domain",
    "chunk-metadata-rule-pipeline","chunk-metadata-guarded-parts","chunk-metadata-invariant-spans",
    "chunk-metadata-symbol-rule-iterator","chunk-metadata-composable-segments","trailer-section-invariant-trie",
    "trailer-section-transition-phases","trailer-section-direct-decision-table","trailer-section-validated-invariants",
    "trailer-section-event-automaton","request-target-rule-table","request-target-validated-pipeline",
    "request-target-invariant-offsets","request-target-typed-rule-matrix","request-target-composable-validators",
    "authority-validation-phases","authority-invariant-decision-table","authority-composable-components",
    "authority-segment-pipeline","authority-endpoint-algebra","hop-by-hop-rule-table","hop-by-hop-composable-guards",
    "hop-by-hop-typed-event-pipeline","hop-by-hop-sorted-rule-pipeline","hop-by-hop-token-trie",
    "canonical-head-rule-phases","canonical-head-composable-table","canonical-head-compiled-plan",
    "canonical-head-dual-sink-rules","canonical-head-reverse-fill","route-direct-domain",
    "route-rule-validation-pipeline","route-bounded-explicit-match","route-typed-arithmetic",
    "route-immutable-validation-table","forwarding-policy-decision-table","forwarding-policy-direct-match",
    "forwarding-policy-transition-model","forwarding-policy-central-transition-table",
    "forwarding-policy-primitive-boundary","upgrade-composable-decision-table","upgrade-invariant-signature",
    "upgrade-observation-policy-table","upgrade-obligation-algebra","upgrade-transformation-matrix",
    "telemetry-bounded-rule-table","telemetry-symbol-phases","telemetry-length-rule-dispatch",
    "telemetry-fingerprint-index","telemetry-word-composition"]

abbrev MatchRoute := EffectiveAuthority → NormalizedTarget → List RouteRule → Result RouteMatch

/-- The matchers by the names they are registered under. -/
def matchRouteOf (id : String) : Option MatchRoute :=
  if id = "route-direct-domain" then some RouteDirect.matchRoute
  else if id = "route-rule-validation-pipeline" then some RouteRulePipeline.matchRoute
  else if id = "route-bounded-explicit-match" then some RouteBoundedMatch.matchRoute
  else if id = "route-typed-arithmetic" then some RouteTypedArithmetic.matchRoute
  else if id = "route-immutable-validation-table" then some RouteImmutableTable.matchRoute
  else none

def matchRouteFunction : String := "match_route"

/-- The registry as a call of `match_route` sees it. -/
def matchRouteRegistry : List (Implementation MatchRoute) :=
  registeredIds.map fun id => ⟨id,fun function => if function = matchRouteFunction then matchRouteOf id else none⟩

def validateQuarantine (ids : List String) : Validation Unit := do
  let _ ← ids.foldlM (fun quarantined id => do
    require (registeredIds.contains id) (ascii "unknown quarantined implementation " ++ id.toUTF8.toList)
    require (!quarantined.contains id) (ascii "duplicate quarantined implementation " ++ id.toUTF8.toList)
    return id :: quarantined) ([] : List String)
  return ()

def routeRules (config : Config) : List RouteRule :=
  config.routes.zipIdx.map fun (route,index) => ⟨route.host,route.pathPrefix,route.upstream,UInt64.ofNat index⟩

/-- The agreement set that checks the configuration: no primary is assigned yet. -/
def configuredAgreement (config : Config) : Agreement :=
  ⟨config.listener.agreementImplementations,config.listener.quarantinedImplementations,fun _ => none⟩

def rootTarget : NormalizedTarget := ⟨.origin,none,none,ascii "/",ascii "/"⟩

/-- The table of the legacy routes as the agreement set judges it. -/
def validateRouteTable (config : Config) : Validation Unit :=
  match config.routes with
  | [] => .ok ()
  | first :: _ =>
    match ((configuredAgreement config).run matchRouteRegistry matchRouteFunction fun function =>
        function ⟨first.host,none⟩ rootTarget (routeRules config)).2 with
    | .ok _ => .ok ()
    | .error (.protocol .noRoute) => .ok ()
    | .error other => .error (ascii "route table rejected by agreement set: " ++ ascii other.code)

end Registry

section Routes

/-- `Path::components` with no component but ordinary names. -/
def normalComponents (path : List UInt8) : Bool :=
  !startsWith 0x2f path && (path.splitOn 0x2f).head? != some (ascii ".") && !(path.splitOn 0x2f).contains (ascii "..")

def validateAction (isDirectory : List UInt8 → Bool) (upstreams : List (List UInt8)) (label : List UInt8) :
    RouteActionConfig → Validation Unit
  | .proxy upstream replacePrefix hostHeader => do
    require (upstreams.contains upstream) (label ++ ascii " references unknown upstream " ++ upstream)
    require (replacePrefix.all validConfigPath) (label ++ ascii ".action.replace_prefix must be a normalized absolute path")
    require (hostHeader.all fun value => value == ascii "$host" || value == ascii "$http_host")
      (label ++ ascii ".action.host_header must be $host or $http_host")
  | .redirect status location =>
    require ([301,302,303,307,308].contains status && location.length ≤ maxRequestLineBytes && validTemplate location)
      (label ++ ascii ".action must use a supported redirect status and safe location template")
  | .respond status body contentType =>
    require (200 ≤ status && status ≤ 599 && body.length ≤ 1048576 && !contentType.isEmpty && contentType.length ≤ 1024 &&
        validTemplate body && validTemplate contentType)
      (label ++ ascii ".action has an invalid response status, body, or content type")
  | .files directory _ index _ errorPage404 => do
    require (startsWith 0x2f directory && isDirectory directory)
      (label ++ ascii ".action.directory must be an existing absolute directory")
    require (!index.isEmpty && index.all fun name => !name.isEmpty && normalComponents name)
      (label ++ ascii ".action.index must contain safe relative file names")
    require (errorPage404.all validConfigPath) (label ++ ascii ".action.error_page_404 must be a normalized absolute path")

def validateActionRoute (isDirectory : List UInt8 → Bool) (limits : ConfiguredLimits) (upstreams : List (List UInt8))
    (label : List UInt8) (route : ActionRouteConfig) : Validation Unit := do
  require (validConfigPath route.path) (label ++ ascii ".path must be a bounded normalized absolute path")
  require (route.maxRequestBodyBytes.all fun limit =>
      limit != 0 && limit ≤ limits.maxRequestBodyBytes && limit ≤ limits.maxInflightBodyBytes)
    (label ++ ascii ".max_request_body_bytes must be positive and no greater than the global request and in-flight body limits")
  validateMethods label route.methods
  require (route.schemes.all fun scheme =>
      scheme.map toAsciiLowercase == ascii "http" || scheme.map toAsciiLowercase == ascii "https")
    (label ++ ascii ".schemes may contain only http or https")
  validateHeaderValues (label ++ ascii ".request_headers") route.requestHeaders false
  validateHeaderValues (label ++ ascii ".response_headers") route.responseHeaders true
  validateDeny label route.deny
  validateAction isDirectory upstreams label route.action

/-- The round of the sites, with the names of the sites before. -/
def validateSite (isDirectory : List UInt8 → Bool) (limits : ConfiguredLimits) (upstreams : List (List UInt8))
    (names : List (List UInt8)) (entry : SiteConfig × Nat) : Validation (List (List UInt8)) := do
  let (site,index) := entry
  let here := indexed (ascii "sites") index
  require (!site.serverNames.isEmpty || site.isDefault) (here ++ ascii " must declare at least one server name")
  let names ← site.serverNames.foldlM (fun names name => do
    require (validSniPattern name) (here ++ ascii " has invalid server name " ++ name)
    require (!names.contains name) (ascii "server name " ++ name ++ ascii " is assigned to more than one site")
    return name :: names) names
  require (!site.routes.isEmpty) (here ++ ascii " must configure at least one route")
  validateHeaderValues (here ++ ascii ".response_headers") site.responseHeaders true
  validateDeny here site.deny
  site.routes.zipIdx.forM fun (route,index) =>
    validateActionRoute isDirectory limits upstreams (indexed (here ++ ascii ".routes") index) route
  return names

/-- The names of the upstreams, each of them distinct and at a socket address. -/
def validateUpstreams (upstreams : List UpstreamConfig) : Validation (List (List UInt8)) :=
  upstreams.foldlM (fun names upstream => do
    validateIdentifier (ascii "upstream name") upstream.name
    require (!names.contains upstream.name) (ascii "duplicate upstream " ++ upstream.name)
    let _ ← requireSocketAddr upstream.address
      (ascii "upstream " ++ upstream.name ++ ascii " address must be a literal socket address")
    return upstream.name :: names) []

def totalRoutes (config : Config) : Nat :=
  config.routes.length + config.sites.foldl (fun total site => total + site.routes.length) 0

def validatePolyform : Option PolyformConfig → Validation Unit
  | none => .ok ()
  | some polyform => do
    require ((ascii "https://").isPrefixOf polyform.baseUrl || (ascii "http://127.0.0.1:").isPrefixOf polyform.baseUrl ||
        (ascii "http://localhost:").isPrefixOf polyform.baseUrl)
      (ascii "polyform.base_url must use HTTPS, except for an explicit loopback test service")
    require (!polyform.trustFile.isEmpty && !polyform.stateFile.isEmpty)
      (ascii "polyform trust_file and state_file are required")
    require (polyform.refreshIntervalSeconds != 0 && polyform.refreshIntervalSeconds ≤ 86400)
      (ascii "polyform.refresh_interval_seconds must be 1..=86400")
    validateIdentifier (ascii "polyform strategy") polyform.strategy
    polyform.installationId.forM (validateIdentifier (ascii "polyform installation_id"))

def validateConfig (isDirectory : List UInt8 → Bool) (config : Config) : Validation Unit := do
  validateListeners config
  require (2 ≤ config.listener.agreementImplementations && config.listener.agreementImplementations ≤ 5)
    (ascii "listener.agreement_implementations must be between 2 and 5")
  require (config.listener.maxConnections != 0 && config.listener.maxConnections ≤ 1024)
    (ascii "listener.max_connections must be 1..=1024")
  validateTimeouts config.listener
  validateLimits config.limits config.compression
  validateQuarantine config.listener.quarantinedImplementations
  let upstreams ← validateUpstreams config.upstreams
  require (totalRoutes config != 0 && totalRoutes config ≤ 256)
    (ascii "configure 1..=256 routes across legacy routes and sites")
  config.routes.forM fun route =>
    require (upstreams.contains route.upstream) (ascii "route references unknown upstream " ++ route.upstream)
  let _ ← config.sites.zipIdx.foldlM (validateSite isDirectory config.limits upstreams) []
  validatePolyform config.polyform
  validateRouteTable config

end Routes

end Polyguard.Proxy
