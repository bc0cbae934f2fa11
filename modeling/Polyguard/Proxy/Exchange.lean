import Polyguard.Proxy.Chunked
import Polyguard.Proxy.Templates
import Polyguard.Bytes.Decimal

/-! The exchange with an upstream.
The state of the exchange is the stream that the upstream sends. The gzip encoder is
a parameter: it belongs to another package. -/
namespace Polyguard.Proxy
open Ascii Slices Decimal

structure CompressionConfig where
  enabled : Bool
  minSizeBytes : Nat
  types : List (List UInt8)
deriving DecidableEq, Repr

structure Limits where
  maxResponseHeaderBytes : Nat
  maxResponseBodyBytes : Nat
deriving DecidableEq, Repr

/-- What the exchange reads of the runtime. -/
structure Runtime where
  compression : CompressionConfig
  limits : Limits
  protocol : Protocol
  encode : List UInt8 → Option (List UInt8)

/-- The upstream: whether it can be reached, takes the request, and what it sends. -/
structure Upstream where
  connects : Bool
  configures : Bool
  accepts : Bool
  sends : List Read

structure UpstreamExchange where
  upstream : Upstream
  method : List UInt8
  acceptsGzip : Bool
  clientKeepAlive : Bool
  configuredResponseHeaders : List HeaderValueConfig
  templateContext : TemplateContext
  budgets : Nat → Memory.Budget

abbrev Exchanging (α : Type) := EStateM Fault (List Read) α

def mapUpstreamFault : Fault → Fault
  | .timeout => .upstreamTimeout
  | .upstreamTimeout => .upstreamTimeout
  | .busy => .busy
  | _ => .upstream

def readUpstreamHead (max : Nat) : Exchanging (List UInt8 × List UInt8) := fun stream =>
  match readHead stream max with
  | (.ok parts,stream) => .ok parts stream
  | (.error fault,stream) => .error (mapUpstreamFault fault) stream

/-- A step of the buffered input on the stream, with its faults translated. -/
def reading {α : Type} (translate : Fault → Fault) (remainder : List UInt8) (step : Reading α) : Exchanging α := fun stream =>
  match step (BufferedInput.new stream remainder) with
  | .ok value input => .ok value input.stream
  | .error fault input => .error (translate fault) input.stream

def isReasonByte (byte : UInt8) : Bool := byte == 0x09 || (0x20 ≤ byte && byte ≤ 0x7e)

/-- The parts of `splitn(3, ' ')`: the version, the code and the reason. -/
def statusParts (text : List UInt8) : List UInt8 × Option (List UInt8) × List UInt8 :=
  match splitOnce 0x20 text with
  | none => (text,none,[])
  | some (version,rest) =>
    match splitOnce 0x20 rest with
    | none => (version,some rest,[])
    | some (code,reason) => (version,some code,reason)

def parseStatusLine (head : List UInt8) : Outcome (Nat × List UInt8 × Nat) :=
  match findSequence head [0x0d,0x0a] with
  | none => .error .upstream
  | some stop =>
    match Utf8.fromUtf8 (head.take stop) with
    | none => .error .upstream
    | some text =>
      let (version,code,reason) := statusParts text
      match code.bind (parseUnsigned u16Max) with
      | none => .error .upstream
      | some code =>
        if !(version == ascii "HTTP/1.0" || version == ascii "HTTP/1.1") || !(100 ≤ code && code ≤ 599) ||
            !reason.all isReasonByte then .error .upstream
        else .ok (code,reason,stop + 2)

/-- The head of the response: its status and its headers as received and as passed on. -/
structure ResponseHead where
  status : Nat
  reason : List UInt8
  headers : HeaderBlock
  sanitized : SanitizedHeaders
  remainder : List UInt8
deriving DecidableEq, Repr

def parseResponseHead (runtime : Runtime) (exchange : UpstreamExchange) (head remainder : List UInt8) : Outcome ResponseHead := do
  let (status,reason,offset) ← parseStatusLine head
  if 100 ≤ status ∧ status < 200 then .error .upstream
  else do
    let headers ← agreed (runtime.protocol.parseHeaderSection (head.drop offset))
    if headers.bytesConsumed ≠ (head.drop offset).length then .error .upstream
    else do
      let sanitized ← agreed (runtime.protocol.removeHopByHopHeaders headers)
      let rendered ← renderResponseHeaders exchange.configuredResponseHeaders exchange.templateContext exchange.method status
      return ⟨status,reason,headers,{ sanitized with fields := sanitized.fields ++ rendered },remainder⟩

def isBodiless (method : List UInt8) (status : Nat) : Bool :=
  method == ascii "head" || (100 ≤ status && status < 200) || status == 204 || status == 304

inductive ResponseFraming where
  | none
  | length (length : Nat)
  | chunked
  | close
deriving DecidableEq, Repr

def pushDecimal (total : Option Nat) (byte : UInt8) : Option Nat := do
  let total ← total
  let scaled ← checkedMul total 10
  checkedAdd scaled (byte - 0x30).toNat

def parseDecimal (value : List UInt8) : Option Nat :=
  if value.isEmpty || !value.all isAsciiDigit then none else value.foldl pushDecimal (some 0)

def responseFraming (headers : HeaderBlock) (noBody : Bool) : Outcome ResponseFraming :=
  let transfer := headers.fields.filter fun field => field.name == ascii "transfer-encoding"
  let lengths := headers.fields.filter fun field => field.name == ascii "content-length"
  if noBody then .ok .none
  else if !transfer.isEmpty && !lengths.isEmpty then .error .upstream
  else match transfer,lengths with
    | first :: more,_ =>
      if !more.isEmpty || !eqIgnoreAsciiCase first.value (ascii "chunked") then .error .upstream else .ok .chunked
    | [],field :: _ =>
      match parseDecimal field.value with
      | none => .error .upstream
      | some first => if lengths.any (fun field => parseDecimal field.value != some first) then .error .upstream else .ok (.length first)
    | [],[] => .ok .close

/-- The body by its framing, with its permit. A read up to the end of the stream
returns its faults as they are. -/
def readResponseBody (runtime : Runtime) (exchange : UpstreamExchange) (head : ResponseHead) :
    ResponseFraming → Exchanging (List UInt8 × Account)
  | .none => do
    let account ← MonadExcept.ofExcept (Account.reserve exchange.budgets 0)
    return ([],account)
  | .length length =>
    if length > runtime.limits.maxResponseBodyBytes then throw .upstream
    else do
      let account ← MonadExcept.ofExcept (Account.reserve exchange.budgets length)
      let bytes ← reading mapUpstreamFault head.remainder (BufferedInput.readExactVec length)
      return (bytes,account)
  | .chunked => do
    let account ← MonadExcept.ofExcept (Account.reserve exchange.budgets 0)
    reading mapUpstreamFault head.remainder
      (readChunked runtime.protocol head.headers runtime.limits.maxResponseBodyBytes account)
  | .close => do
    let account ← MonadExcept.ofExcept (Account.reserve exchange.budgets 0)
    reading id head.remainder (BufferedInput.readToEofBounded runtime.limits.maxResponseBodyBytes account)

def compressionTypeMatches (config : CompressionConfig) (contentType : List UInt8) : Bool :=
  let mediaType := Text.trim (match splitOnce 0x3b contentType with
    | some (mediaType,_) => mediaType
    | none => contentType)
  config.types.any fun configured => configured == ascii "*" || eqIgnoreAsciiCase configured mediaType

def gzipApplies (config : CompressionConfig) (accepted : Bool) (contentType body : List UInt8) : Bool :=
  config.enabled && accepted && config.minSizeBytes ≤ body.length && compressionTypeMatches config contentType

def gzipBody (runtime : Runtime) (accepted : Bool) (contentType body : List UInt8) : Outcome (Option (List UInt8)) :=
  if !gzipApplies runtime.compression accepted contentType body then .ok none
  else match runtime.encode body with
    | some compressed => .ok (some compressed)
    | none => .error .internal

def allocationBound (length : Nat) : Option Nat := do
  let bound ← checkedAdd length (length / 4096)
  let bound ← checkedAdd bound (length / 16384)
  let bound ← checkedAdd bound (length / 33554432)
  checkedAdd bound 64

/-- The compressed body, when it is compressed, and the permit that covers it then. -/
def gzipBodyAccounted (runtime : Runtime) (accepted : Bool) (contentType body : List UInt8) (account : Account) :
    Outcome (Option (List UInt8) × Account) :=
  if !gzipApplies runtime.compression accepted contentType body then .ok (none,account)
  else match allocationBound body.length with
    | none => .ok (none,account)
    | some bound =>
      match Account.reserve account.budgets bound with
      | .error _ => .ok (none,{ account with budgets := fun later => account.budgets (later + 1) })
      | .ok allocation =>
        match gzipBody runtime accepted contentType body with
        | .error fault => .error fault
        | .ok none => .error .internal
        | .ok (some compressed) =>
          if compressed.length > bound then .error .internal
          else match { account with budgets := allocation.budgets }.absorb bound with
            | .ok account => .ok (some compressed,account)
            | .error fault => .error fault

def isAcceptEncoding (token : List UInt8) : Bool := eqIgnoreAsciiCase (trim isAsciiWhitespace token) (ascii "accept-encoding")

/-- Names the encoding in the first `vary` field, or in a new one. -/
def addVary : List HeaderField → List HeaderField
  | [] => [⟨ascii "vary",ascii "Accept-Encoding"⟩]
  | field :: fields =>
    if field.name == ascii "vary" then
      (if (field.value.splitOn 0x2c).any isAcceptEncoding then field
        else { field with value := field.value ++ ascii ", Accept-Encoding" }) :: fields
    else field :: addVary fields

def contentTypeOf (fields : List HeaderField) : Option (List UInt8) :=
  (fields.reverse.find? fun field => field.name == ascii "content-type").bind fun field => Utf8.fromUtf8 field.value

def isEncoded (fields : List HeaderField) : Bool := fields.any fun field => field.name == ascii "content-encoding"

/-- The gzip stage: the header fields and the body that are sent. -/
def compressResponse (runtime : Runtime) (acceptsGzip : Bool) (fields : List HeaderField) (body : List UInt8) (account : Account) :
    Outcome (List HeaderField × List UInt8 × Account) :=
  if isEncoded fields then .ok (fields,body,account)
  else match contentTypeOf fields with
    | none => .ok (fields,body,account)
    | some contentType =>
      match gzipBodyAccounted runtime acceptsGzip contentType body account with
      | .error fault => .error fault
      | .ok (none,account) => .ok (fields,body,account)
      | .ok (some compressed,account) =>
        .ok (addVary (fields ++ [⟨ascii "content-encoding",ascii "gzip"⟩]),compressed,account)

def serverHeader : List UInt8 := ascii "server: polyguard/0.3.10" ++ [0x0d,0x0a]

def serializeField (field : HeaderField) : List UInt8 := field.name ++ ascii ": " ++ field.value ++ [0x0d,0x0a]

def isManaged (name : List UInt8) : Bool :=
  name == ascii "content-length" || name == ascii "transfer-encoding" || name == ascii "server"

def serializeResponseHead (status : Nat) (reason : List UInt8) (fields : List HeaderField) (bodyLength : Nat) (keepAlive : Bool) :
    List UInt8 :=
  ascii "HTTP/1.1 " ++ decimal status ++ [0x20] ++ reason ++ [0x0d,0x0a] ++ serverHeader ++
    (fields.filter fun field => !isManaged field.name).flatMap serializeField ++
    ascii "content-length: " ++ decimal bodyLength ++ [0x0d,0x0a] ++ ascii "connection: " ++
    (if keepAlive then ascii "keep-alive" else ascii "close") ++ [0x0d,0x0a,0x0d,0x0a]

structure UpstreamResponse where
  head : List UInt8
  body : List UInt8
  permit : Account

/-- The body, the gzip stage and the head that announces the bytes that are sent. -/
def readResponse (runtime : Runtime) (exchange : UpstreamExchange) (head : ResponseHead) : Exchanging UpstreamResponse := do
  let framing ← MonadExcept.ofExcept (responseFraming head.headers (isBodiless exchange.method head.status))
  let (body,account) ← readResponseBody runtime exchange head framing
  let (fields,body,account) ← MonadExcept.ofExcept
    (compressResponse runtime exchange.acceptsGzip head.sanitized.fields body account)
  return ⟨serializeResponseHead head.status head.reason fields body.length exchange.clientKeepAlive,body,account⟩

def reaches (upstream : Upstream) : Bool := upstream.connects && upstream.configures && upstream.accepts

def exchangeUpstream (runtime : Runtime) (exchange : UpstreamExchange) : Exchanging UpstreamResponse :=
  if !reaches exchange.upstream then throw .upstream
  else do
    let (head,remainder) ← readUpstreamHead runtime.limits.maxResponseHeaderBytes
    let head ← MonadExcept.ofExcept (parseResponseHead runtime exchange head remainder)
    readResponse runtime exchange head

/-- The exchange on what the upstream sends, with the part of it that was not read. -/
def exchanged (runtime : Runtime) (exchange : UpstreamExchange) : EStateM.Result Fault (List Read) UpstreamResponse :=
  exchangeUpstream runtime exchange exchange.upstream.sends

end Polyguard.Proxy
