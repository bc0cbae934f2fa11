import Polyguard.Proxy.Actions
import Polyguard.Upgrade.Implementations
import Polyguard.Bytes.AddressText

/-! The processing of one request and the loop over the requests of a connection.
A connection holds what its client still sends and the record of what was done: the
calls of the agreement set, the bytes written to an upstream and those written to the
client. What the world around a request decides (whether a socket takes a setting or
some bytes, what a peek finds, the budget for memory, the upstream, the files) is a
parameter of the request. One assignment of primaries holds while a request is served. -/
namespace Polyguard.Proxy
open Ascii Slices Decimal

section Calls

abbrev BuildHead := List UInt8 → NormalizedTarget → EffectiveAuthority → SanitizedHeaders → BodyFraming →
  ForwardingResult → Result CanonicalRequestHead

/-- An entry of the registry, with the functions that it implements. -/
structure Registered where
  id : String
  parseRequestLine : Option (List UInt8 → Result RequestLine)
  parseHeaderSection : Option (List UInt8 → Result HeaderBlock)
  determineBodyFraming : Option (RequestLine → HeaderBlock → Result BodyFraming)
  parseChunkMetadata : Option (List UInt8 → Result ChunkMeta)
  parseTrailerSection : Option (List UInt8 → List (List UInt8) → Result TrailerBlock)
  normalizeRequestTarget : Option (RequestLine → Result NormalizedTarget)
  reconcileAuthority : Option (NormalizedTarget → HeaderBlock → Result EffectiveAuthority)
  removeHopByHopHeaders : Option (HeaderBlock → Result SanitizedHeaders)
  constructCanonicalUpstreamHead : Option BuildHead
  matchRoute : Option MatchRoute
  applyForwardingPolicy : Option (ForwardingPolicy → HeaderBlock → Result ForwardingResult)
  decideUpgrade : Option (RequestLine → HeaderBlock → BodyFraming → Result UpgradeDecision)

/-- The outcomes of the agreement set, by function and input. -/
structure Calls where
  parseRequestLine : List UInt8 → Outcome RequestLine
  parseHeaderSection : List UInt8 → Outcome HeaderBlock
  determineBodyFraming : RequestLine → HeaderBlock → Outcome BodyFraming
  parseChunkMetadata : List UInt8 → Outcome ChunkMeta
  parseTrailerSection : List UInt8 → List (List UInt8) → Outcome TrailerBlock
  normalizeRequestTarget : RequestLine → Outcome NormalizedTarget
  reconcileAuthority : NormalizedTarget → HeaderBlock → Outcome EffectiveAuthority
  removeHopByHopHeaders : HeaderBlock → Outcome SanitizedHeaders
  constructCanonicalUpstreamHead : List UInt8 → NormalizedTarget → EffectiveAuthority → SanitizedHeaders → BodyFraming →
    ForwardingResult → Outcome CanonicalRequestHead
  matchRoute : EffectiveAuthority → NormalizedTarget → List RouteRule → Outcome RouteMatch
  applyForwardingPolicy : ForwardingPolicy → HeaderBlock → Outcome ForwardingResult
  decideUpgrade : RequestLine → HeaderBlock → BodyFraming → Outcome UpgradeDecision

/-- One call of `Agreement::run` on the entries that implement a function. -/
def Agreement.call {F T : Type} [DecidableEq T] (agreement : Agreement) (registry : List Registered)
    (implemented : Registered → Option F) (function : String) (apply : F → Result T) : Outcome T :=
  (agreement.run (registry.map fun entry => ⟨entry.id,fun _ => implemented entry⟩) function apply).2

/-- The calls that a registry and an agreement set answer. -/
def Agreement.calls (agreement : Agreement) (registry : List Registered) : Calls where
  parseRequestLine head := agreement.call registry (·.parseRequestLine) "parse_request_line" fun f => f head
  parseHeaderSection wire := agreement.call registry (·.parseHeaderSection) "parse_header_section" fun f => f wire
  determineBodyFraming request headers :=
    agreement.call registry (·.determineBodyFraming) "determine_body_framing" fun f => f request headers
  parseChunkMetadata wire := agreement.call registry (·.parseChunkMetadata) "parse_chunk_metadata" fun f => f wire
  parseTrailerSection wire declared :=
    agreement.call registry (·.parseTrailerSection) "parse_trailer_section" fun f => f wire declared
  normalizeRequestTarget request :=
    agreement.call registry (·.normalizeRequestTarget) "normalize_request_target" fun f => f request
  reconcileAuthority target headers :=
    agreement.call registry (·.reconcileAuthority) "reconcile_authority" fun f => f target headers
  removeHopByHopHeaders headers :=
    agreement.call registry (·.removeHopByHopHeaders) "remove_hop_by_hop_headers" fun f => f headers
  constructCanonicalUpstreamHead method target authority headers framing forwarding :=
    agreement.call registry (·.constructCanonicalUpstreamHead) "construct_canonical_upstream_head" fun f =>
      f method target authority headers framing forwarding
  matchRoute authority target rules := agreement.call registry (·.matchRoute) "match_route" fun f => f authority target rules
  applyForwardingPolicy policy headers :=
    agreement.call registry (·.applyForwardingPolicy) "apply_forwarding_policy" fun f => f policy headers
  decideUpgrade request headers framing :=
    agreement.call registry (·.decideUpgrade) "decide_upgrade" fun f => f request headers framing

end Calls

section Connections

inductive Event where
  | called (function : String) (returned : Bool)
  | forwarded (bytes : List UInt8)
  | replied (bytes : List UInt8)
deriving DecidableEq, Repr

structure Connection where
  client : BufferedInput
  events : List Event

abbrev Serving (α : Type) := EStateM Fault Connection α

def record (event : Event) : Serving Unit := fun connection =>
  .ok () { connection with events := connection.events ++ [event] }

/-- A call of the agreement set, recorded with whether it returned a value. -/
def consult {α : Type} (function : String) (outcome : Outcome α) : Serving α := do
  record (.called function outcome.isOk)
  MonadExcept.ofExcept outcome

/-- A step of the buffered input on the client. -/
def receive {α : Type} (step : Reading α) : Serving α := fun connection =>
  match step connection.client with
  | .ok value client => .ok value { connection with client }
  | .error fault client => .error fault { connection with client }

/-- The head of a request, off the bare stream of the client. -/
def receiveHead (max : Nat) : Serving (List UInt8 × List UInt8) := fun connection =>
  match readHead connection.client.stream max with
  | (.ok parts,stream) => .ok parts { connection with client := .new stream [] }
  | (.error fault,stream) => .error fault { connection with client := .new stream [] }

/-- `BufferedInput::new`: the bytes that were read behind the head come first. -/
def bufferRemainder (remainder : List UInt8) : Serving Unit := fun connection =>
  .ok () { connection with client := .new connection.client.stream remainder }

/-- What a look at the client finds without waiting. -/
inductive Peek where
  | answers
  | blocks
  | interrupted
  | failed
deriving DecidableEq, Repr

/-- On a TLS connection the look takes the byte that it finds. -/
def hasImmediateExtra (tls : Bool) (peek : Peek) : Reading Bool := fun input =>
  if input.bufferedLen ≠ 0 then .ok true input
  else match peek,input.stream with
    | .answers,.data _ rest :: stream => .ok true (if tls then { input with stream := Stream.unread rest stream } else input)
    | .answers,_ => .ok false input
    | .blocks,_ => .ok false input
    | .interrupted,_ => .ok false input
    | .failed,_ => .error .clientIo input

structure Client where
  address : Address.IpAddr
  tls : Bool
  serverName : Option (List UInt8)

/-- How a write to the client ends: all of it is taken, or some bytes in front of a failure. -/
inductive Delivery where
  | whole
  | torn (taken : Nat)
deriving DecidableEq, Repr

def Delivery.taken : Delivery → List UInt8 → List UInt8
  | .whole,bytes => bytes
  | .torn count,bytes => bytes.take count

/-- What the world around a request decides. -/
structure Surroundings where
  configures : Bool
  takesContinue : Delivery
  takesResponse : Delivery
  takesRejection : Delivery
  takesTimeout : Bool
  peek : Peek
  budgets : Nat → Memory.Budget
  upstream : Upstream
  upstreamTakes : Nat
  upstreamBudgets : Nat → Memory.Budget
  files : FileSystem

/-- What a request reads of the runtime: the configured values, the compiled routes, the calls of
the agreement set, and what the exchange reads. -/
structure Gateway where
  trustForwardingHeaders : Bool
  maxResponseBodyBytes : Nat
  routes : List RuntimeRoute
  upstreams : List (List UInt8)
  calls : Calls
  runtime : Runtime

/-- Bytes written to the client, as far as it takes them. -/
def reply (takes : Delivery) (bytes : List UInt8) : Serving Unit := do
  record (.replied (takes.taken bytes))
  match takes with
  | .whole => return ()
  | .torn _ => throw .clientIo

end Connections

section Stages

def maxRequestHeaderBytes : Nat := 32768

def clientAllowsKeepAlive (headers : HeaderBlock) : Bool :=
  !(((headers.fields.filter fun field => field.name == ascii "connection").flatMap fun field =>
    field.value.splitOn 0x2c).any fun token => eqIgnoreAsciiCase (trim isAsciiWhitespace token) (ascii "close"))

def parseExpectContinue (headers : HeaderBlock) : Outcome Bool :=
  match (headers.fields.filter fun field => field.name == ascii "expect").map fun field => trim isAsciiWhitespace field.value with
  | [] => .ok false
  | [value] => if eqIgnoreAsciiCase value (ascii "100-continue") then .ok true else .error .expectationFailed
  | _ => .error .expectationFailed

def enforceDeclaredBodyLimit (framing : BodyFraming) (max : Nat) : Outcome Unit :=
  match framing with
  | .contentLength length => if length > max then .error .tooLarge else .ok ()
  | _ => .ok ()

def authorityString (authority : EffectiveAuthority) : List UInt8 :=
  match authority.port with
  | some port => authority.host ++ ascii ":" ++ decimal port
  | none => authority.host

def trimEndDots (name : List UInt8) : List UInt8 := name.rdropWhile (· == 0x2e)

def applyRequestHeaders (context : TemplateContext) (method : List UInt8) :
    List HeaderField → List HeaderValueConfig → Outcome (List HeaderField)
  | fields,[] => .ok fields
  | fields,header :: configured =>
    if !header.methods.isEmpty && !header.methods.any (eqIgnoreAsciiCase · method) then
      applyRequestHeaders context method fields configured
    else do
      let value ← renderTemplate header.value context maxHeaderValueBytes
      applyRequestHeaders context method ((fields.filter fun field => field.name != header.name) ++ [⟨header.name,value⟩])
        configured

def rewriteTarget (target : NormalizedTarget) (matched : List UInt8) : Option (List UInt8) → Outcome NormalizedTarget
  | none => .ok target
  | some replacement =>
    match stripPrefix matched target.routingPath,stripPrefix target.routingPath target.pathAndQuery with
    | some remainder,query =>
      let routingPath := replacement ++ remainder
      if !startsWith 0x2f routingPath || routingPath.length > maxRequestLineBytes then .error .internal
      else match query with
        | some query => .ok ⟨.origin,none,none,routingPath ++ query,routingPath⟩
        | none => .error .internal
    | none,_ => .error .internal

end Stages

/-- What the stages before the action have settled for a request. -/
structure Admitted where
  head : List UInt8
  remainder : List UInt8
  request : RequestLine
  headers : HeaderBlock
  framing : BodyFraming
  expectContinue : Bool
  target : NormalizedTarget
  authority : EffectiveAuthority
  sanitized : SanitizedHeaders
  route : RuntimeRoute
  forwarding : ForwardingResult
  context : TemplateContext

def Client.scheme (client : Client) : List UInt8 := if client.tls then ascii "https" else ascii "http"

def Client.parts (client : Client) : AddressParts :=
  match client.address with
  | .v4 octets _ _ => .v4 octets
  | .v6 segments _ _ => .v6 segments

section Process
variable (gateway : Gateway) (client : Client) (around : Surroundings)

/-- The head of the request with its line and its fields. -/
def parseHead : Serving (List UInt8 × List UInt8 × RequestLine × HeaderBlock) := do
  if !around.configures then throw .clientIo
  else
    let (head,remainder) ← receiveHead (maxRequestLineBytes + maxRequestHeaderBytes)
    let request ← consult "parse_request_line" (gateway.calls.parseRequestLine head)
    if request.bytesConsumed > head.length then throw .internal
    else
      let headers ← consult "parse_header_section" (gateway.calls.parseHeaderSection (head.drop request.bytesConsumed))
      if request.bytesConsumed + headers.bytesConsumed ≠ head.length then
        throw (.protocol (.invalidHeader 0 "trailing_bytes"))
      else return (head,remainder,request,headers)

/-- The route of the request, guarded by the agreement set. -/
def selectRuntimeRoute (authority : EffectiveAuthority) (target : NormalizedTarget) (method : List UInt8) : Serving RuntimeRoute := do
  let selected ← MonadExcept.ofExcept (selectedRoute gateway.routes authority target method client.scheme)
  let guarded ← consult "match_route" (gateway.calls.matchRoute authority target (guardRules authority selected))
  if guarded.upstream ≠ selected.id then throw .internal else return selected

def forwardingPolicy (authority : EffectiveAuthority) : ForwardingPolicy :=
  ⟨gateway.trustForwardingHeaders,client.address.display,client.scheme,authorityString authority⟩

def templateContext (authority : EffectiveAuthority) (target : NormalizedTarget) (forwarding : ForwardingResult) :
    TemplateContext :=
  ⟨authority.host,authorityString authority,client.address.display,client.scheme,target.pathAndQuery,forwarding.xForwardedFor⟩

def withoutExpect (sanitized : SanitizedHeaders) : SanitizedHeaders :=
  { sanitized with fields := sanitized.fields.filter fun field => field.name != ascii "expect" }

/-- Every stage before the action of the route. -/
def admitRequest : Serving Admitted := do
  let (head,remainder,request,headers) ← parseHead gateway around
  let framing ← consult "determine_body_framing" (gateway.calls.determineBodyFraming request headers)
  let expectContinue ← MonadExcept.ofExcept (parseExpectContinue headers)
  let target ← consult "normalize_request_target" (gateway.calls.normalizeRequestTarget request)
  let authority ← consult "reconcile_authority" (gateway.calls.reconcileAuthority target headers)
  if client.serverName.any fun name => !eqIgnoreAsciiCase (trimEndDots name) authority.host then throw .forbidden
  else
    let sanitized ← consult "remove_hop_by_hop_headers" (gateway.calls.removeHopByHopHeaders headers)
    let upgrade ← consult "decide_upgrade" (gateway.calls.decideUpgrade request headers framing)
    if upgrade ≠ .none then throw (.protocol .unsupportedUpgrade)
    else
      let route ← selectRuntimeRoute gateway client authority target request.method
      MonadExcept.ofExcept (enforceDeclaredBodyLimit framing route.maxRequestBodyBytes)
      if route.deny.any fun network => network.contains client.parts then throw .forbidden
      else
        let forwarding ← consult "apply_forwarding_policy"
          (gateway.calls.applyForwardingPolicy (forwardingPolicy gateway client authority) headers)
        return ⟨head,remainder,request,headers,framing,expectContinue,target,authority,withoutExpect sanitized,route,forwarding,
          templateContext client authority target forwarding⟩

/-- Whether the connection stays open behind a response that reads no body. -/
def keepsAlive (admitted : Admitted) : Bool :=
  clientAllowsKeepAlive admitted.headers && admitted.framing == .none && admitted.remainder.isEmpty

/-- The bytes of a fixed response. -/
def respondBytes (admitted : Admitted) (status : Nat) (body contentType : List UInt8) : Outcome (List UInt8) := do
  let length ← renderedTemplateLength body admitted.context gateway.maxResponseBodyBytes
  let account ← Account.reserve around.budgets length
  let body ← renderTemplate body admitted.context gateway.maxResponseBodyBytes
  let contentType ← renderTemplate contentType admitted.context 1024
  let headers ← renderResponseHeaders admitted.route.responseHeaders admitted.context admitted.request.method status
  let (compressed,_) ← gzipBodyAccounted gateway.runtime (clientAcceptsGzip admitted.headers) contentType body account
  let (body,headers) := match compressed with
    | some compressed => (compressed,addGzipHeaders headers)
    | none => (body,headers)
  return configuredResponse status contentType body headers (admitted.request.method == ascii "head") !keepsAlive admitted

/-- The bytes of a redirect. -/
def redirectBytes (admitted : Admitted) (status : Nat) (location : List UInt8) : Outcome (List UInt8) := do
  let location ← renderTemplate location admitted.context maxRequestLineBytes
  let headers ← renderResponseHeaders admitted.route.responseHeaders admitted.context admitted.request.method status
  return configuredResponse status plainText [] (headers ++ [⟨ascii "location",location⟩])
    (admitted.request.method == ascii "head") !keepsAlive admitted

/-- The bytes of a response from the files. -/
def staticBytes (admitted : Admitted) : Outcome (List UInt8) := do
  let response ← serveStatic around.files admitted.route admitted.target admitted.request.method admitted.headers
    gateway.maxResponseBodyBytes around.budgets
  let rendered ← renderResponseHeaders admitted.route.responseHeaders admitted.context admitted.request.method response.status
  let headers := rendered ++ response.headers
  let (compressed,_) ← if response.status = 200 then
      gzipBodyAccounted gateway.runtime (clientAcceptsGzip admitted.headers) response.contentType response.body response.account
    else .ok (none,response.account)
  let (body,headers) := match compressed with
    | some compressed => (compressed,addGzipHeaders headers)
    | none => (response.body,headers)
  return configuredResponse response.status response.contentType body headers (admitted.request.method == ascii "head")
    !keepsAlive admitted

/-- A response of the proxy itself; the body of the request is not read. -/
def answerLocally (admitted : Admitted) (response : Outcome (List UInt8)) : Serving Bool := do
  let bytes ← MonadExcept.ofExcept response
  reply around.takesResponse bytes
  return keepsAlive admitted

/-- The trailer section behind the last chunk. -/
def finishRequestBody (headers : HeaderBlock) : Serving Unit := do
  let wire ← receive (BufferedInput.readTrailers maxTrailerBytes)
  let declared ← MonadExcept.ofExcept (declaredTrailers headers)
  let trailers ← consult "parse_trailer_section" (gateway.calls.parseTrailerSection wire declared)
  if trailers.bytesConsumed ≠ wire.length then throw (.protocol (.invalidTrailer "trailing_bytes")) else return ()

/-- The loop of `read_chunked` on the client; every round but the last adds to the decoded bytes. -/
def readChunksLoop (headers : HeaderBlock) (max : Nat) : Nat → List UInt8 → Account → Serving (List UInt8)
  | 0,_,_ => throw .tooLarge
  | rounds + 1,decoded,account => do
    let wire ← receive (BufferedInput.readLine 4096)
    let metadata ← consult "parse_chunk_metadata" (gateway.calls.parseChunkMetadata wire)
    if metadata.bytesConsumed ≠ wire.length then throw (.protocol (.invalidChunk "trailing_bytes"))
    else if decoded.length + metadata.size > max then throw .tooLarge
    else if metadata.size = 0 then do
      finishRequestBody gateway headers
      return decoded
    else do
      let account ← MonadExcept.ofExcept (account.grow metadata.size)
      let data ← receive (BufferedInput.readExactVec metadata.size)
      let terminator ← receive (BufferedInput.readExactVec 2)
      if terminator ≠ [0x0d,0x0a] then throw (.protocol (.invalidChunk "invalid_terminator"))
      else readChunksLoop headers max rounds (decoded ++ data) account

def readRequestBody (framing : BodyFraming) (headers : HeaderBlock) (max : Nat) : Serving (List UInt8) :=
  match framing with
  | .none => do
    let _ ← MonadExcept.ofExcept (Account.reserve around.budgets 0)
    return []
  | .contentLength length =>
    if length > max then throw .tooLarge
    else do
      let _ ← MonadExcept.ofExcept (Account.reserve around.budgets length)
      receive (BufferedInput.readExactVec length)
  | .chunked => do
    let account ← MonadExcept.ofExcept (Account.reserve around.budgets 0)
    readChunksLoop gateway headers max (max + 1) [] account

/-- The framing towards the upstream: that of the decoded body. -/
def upstreamFraming (body : List UInt8) : BodyFraming := if body.isEmpty then .none else .contentLength body.length

/-- The host towards the upstream, without its port when the route asks for the bare host. -/
def upstreamAuthority (authority : EffectiveAuthority) (hostHeader : Option (List UInt8)) : EffectiveAuthority :=
  if hostHeader = some (ascii "$host") then { authority with port := none } else authority

/-- The interim response that an expectation asks for. -/
def writeContinue (admitted : Admitted) : Serving Unit :=
  if admitted.expectContinue && admitted.framing != .none then
    reply around.takesContinue (ascii "HTTP/1.1 100 Continue" ++ crlf ++ crlf)
  else return ()

/-- The request on the wire to the upstream, as far as the upstream takes it. -/
def writeUpstream (head body : List UInt8) : Serving Unit :=
  if around.upstream.connects && around.upstream.configures then
    record (.forwarded (if around.upstream.accepts then head ++ body else (head ++ body).take around.upstreamTakes))
  else return ()

/-- The request to the upstream and its response. -/
def sendUpstream (admitted : Admitted) (head body : List UInt8) : Serving UpstreamResponse := do
  writeUpstream around head body
  match exchanged gateway.runtime ⟨around.upstream,admitted.request.method,clientAcceptsGzip admitted.headers,
      clientAllowsKeepAlive admitted.headers,admitted.route.responseHeaders,admitted.context,around.upstreamBudgets⟩ with
  | .ok response _ => return response
  | .error fault _ => throw fault

/-- The proxy action: the body of the request is read, and nothing may follow it at once. -/
def forwardRequest (admitted : Admitted) (upstream : List UInt8) (replacePrefix hostHeader : Option (List UInt8)) : Serving Bool := do
  writeContinue around admitted
  let fields ← MonadExcept.ofExcept (applyRequestHeaders admitted.context admitted.request.method admitted.sanitized.fields
    admitted.route.requestHeaders)
  if !around.takesTimeout then throw .clientIo
  else
    bufferRemainder admitted.remainder
    let body ← readRequestBody gateway around admitted.framing admitted.headers admitted.route.maxRequestBodyBytes
    if ← receive (hasImmediateExtra client.tls around.peek) then throw (.protocol .ambiguousFraming)
    else if !gateway.upstreams.contains upstream then throw .internal
    else
      let target ← MonadExcept.ofExcept (rewriteTarget admitted.target admitted.route.path replacePrefix)
      let canonical ← consult "construct_canonical_upstream_head" (gateway.calls.constructCanonicalUpstreamHead
        admitted.request.method target (upstreamAuthority admitted.authority hostHeader) { admitted.sanitized with fields }
        (upstreamFraming body) admitted.forwarding)
      let response ← sendUpstream gateway around admitted canonical.bytes body
      reply around.takesResponse (response.head ++ response.body)
      return clientAllowsKeepAlive admitted.headers

def processRequest : Serving Bool := do
  let admitted ← admitRequest gateway client around
  match admitted.route.action with
  | .redirect status location => answerLocally around admitted (redirectBytes admitted status location)
  | .respond status body contentType => answerLocally around admitted (respondBytes gateway around admitted status body contentType)
  | .files _ _ _ _ _ => answerLocally around admitted (staticBytes gateway around admitted)
  | .proxy upstream replacePrefix hostHeader =>
    forwardRequest gateway client around admitted upstream replacePrefix hostHeader

end Process

/-- A request that the loop processed: the connection before it, its outcome and the connection behind it. -/
structure Visit where
  before : Connection
  outcome : Outcome Bool
  after : Connection

def visit (gateway : Gateway) (client : Client) (around : Surroundings) (connection : Connection) : Visit :=
  match processRequest gateway client around connection with
  | .ok keeps after => ⟨connection,.ok keeps,after⟩
  | .error fault after => ⟨connection,.error fault,after⟩

/-- The loop of `handle_connection` with the number of requests that may still follow the next one. The runtime and
the surroundings are those that each request finds. -/
def handleLoop (gateway : Nat → Gateway) (client : Client) (around : Nat → Surroundings) :
    Nat → Nat → Connection → List Visit
  | 0,completed,connection => [visit (gateway completed) client (around completed) connection]
  | more + 1,completed,connection =>
    let visited := visit (gateway completed) client (around completed) connection
    match visited.outcome with
    | .ok true => visited :: handleLoop gateway client around more (completed + 1) visited.after
    | _ => [visited]

/-- The requests that a connection processes, at most a thousand of them. -/
def handleConnection (gateway : Nat → Gateway) (client : Client) (around : Nat → Surroundings) (stream : List Read) :
    List Visit :=
  handleLoop gateway client around 999 0 ⟨.new stream [],[]⟩

end Polyguard.Proxy
