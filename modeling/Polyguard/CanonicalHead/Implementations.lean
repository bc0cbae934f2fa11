import Polyguard.RequestTarget.Implementations
import Polyguard.Header.Implementations
import Mathlib.Data.Nat.Log

/-! The five registered implementations of `construct_canonical_upstream_head`.
A text is the list of its bytes, and a length of bytes in memory is a natural number, so
that the saturating and the checked sums of the sizes are plain sums. What the sources spell alike (the
records of a host with its port, the split of an authority, the escapes of a path) is
stated once and applied under the name that each of them gives it. -/
namespace Polyguard
open Ascii Slices Decimal Address TargetBytes

namespace CanonicalHead

def methodLimit : Nat := 32
def fieldLimit : Nat := 128
def fieldNameLimit : Nat := 128
def fieldValueLimit : Nat := 8192
def forwardingLimit : Nat := 1024
def bodyLimit : Nat := 16777216
def headLimit : Nat := 49152

def invariant {α : Type} : Result α := .error .serializationInvariant

def headTooLong {α : Type} (actual : Nat) : Result α := .error (.limitExceeded "canonical_head_bytes" headLimit actual)

@[simp,grind =] theorem invariant_bind {α β : Type} (next : α → Result β) : (invariant >>= next) = invariant := rfl

@[simp,grind =] theorem headTooLong_bind {α β : Type} (actual : Nat) (next : α → Result β) :
    (headTooLong actual >>= next) = headTooLong actual := rfl

def ensure (held : Bool) : Result Unit := if held then .ok () else invariant

/-- A host as it stands in a rendered authority. -/
inductive Host where
  | name (text : List UInt8)
  | ipv6 (address : List UInt8)
deriving DecidableEq

structure Endpoint where
  host : Host
  port : Option Nat

def isDnsByte (byte : UInt8) : Bool := isAsciiLowercase byte || isAsciiDigit byte || byte == 0x2d

def isUpperHex (byte : UInt8) : Bool := isAsciiDigit byte || (0x41 ≤ byte && byte ≤ 0x46)

def hex (byte : UInt8) : UInt8 :=
  if isAsciiDigit byte then byte - 0x30 else if 0x41 ≤ byte && byte ≤ 0x46 then byte - 0x41 + 10 else 0

/-- The bytes that a canonical target may hold. -/
def isTargetByte (byte : UInt8) : Bool := (0x21 ≤ byte && byte ≤ 0x7e) && byte != 0x23 && byte != 0x5c

/-- What stands between an opening bracket at the front and a closing one at the end. -/
def bracketed (host : List UInt8) : Option (List UInt8) :=
  if startsWith 0x5b host then stripSuffix 0x5d (host.drop 1) else none

/-- A label of a canonical name. -/
def isDnsLabel (label : List UInt8) : Bool :=
  !label.isEmpty && label.length ≤ 63 && !startsWith 0x2d label && !endsWith 0x2d label && label.all isDnsByte

def validateIpv6 (value : List UInt8) : Result Unit :=
  if value.isEmpty || value.any isAsciiUppercase || value.contains 0x25 || !isIpv6 value then invariant else .ok ()

def parsePort (value : List UInt8) : Result Nat :=
  if value.isEmpty || !value.all isAsciiDigit then invariant
  else match (parseUnsigned u16Max value).filter (· != 0) with
    | some port => .ok port
    | none => invariant

def parseOptionalPort (suffix : List UInt8) : Result (Option Nat) :=
  match suffix with
  | [] => .ok none
  | byte :: port => if byte == 0x3a then (parsePort port).map some else invariant

/-- The host of an effective authority, under a check of its name. -/
def effectiveHost (validateDns : List UInt8 → Result Unit) (authority : EffectiveAuthority) : Result Host :=
  if authority.port = some 0 then invariant
  else match bracketed authority.host with
    | some inner => do
      validateIpv6 inner
      .ok (.ipv6 inner)
    | none =>
      if authority.host.contains 0x3a then do
        validateIpv6 authority.host
        .ok (.ipv6 authority.host)
      else do
        validateDns authority.host
        .ok (.name authority.host)

/-- A name and the port behind its only colon. -/
def splitNamePort (value : List UInt8) : Result (List UInt8 × Option Nat) :=
  match rsplitOnce 0x3a value with
  | some (host,port) => if !host.contains 0x3a then (parsePort port).map fun port => (host,some port) else invariant
  | none => .ok (value,none)

/-- The host and the port of the authority in an absolute target, under a check of its name. -/
def parseTargetAuthority (validateDns : List UInt8 → Result Unit) (value : List UInt8) : Result Endpoint :=
  if startsWith 0x5b value then
    let afterOpen := value.drop 1
    match position (· == 0x5d) afterOpen with
    | none => invariant
    | some close => do
      let address := afterOpen.take close
      validateIpv6 address
      let port ← parseOptionalPort (afterOpen.drop (close + 1))
      .ok ⟨.ipv6 address,port⟩
  else do
    let (host,port) ← splitNamePort value
    validateDns host
    .ok ⟨.name host,port⟩

/-- The port that a scheme stands for. -/
def schemePort (scheme : Option (List UInt8)) : Option Nat :=
  if scheme = some (ascii "http") then some 80 else if scheme = some (ascii "https") then some 443 else none

/-- The form of a target, and that an absolute one has the host and the port of the effective authority. -/
def validateForm (validateDns : List UInt8 → Result Unit) (target : NormalizedTarget) (effective : Endpoint) : Result Unit :=
  match target.form,target.scheme,target.authority with
  | .origin,none,none => .ok ()
  | .absolute,scheme,some raw =>
    match schemePort scheme with
    | none => invariant
    | some defaultPort => do
      let source ← parseTargetAuthority validateDns raw
      if effective.port = some defaultPort ∨ source.host ≠ effective.host ∨
          source.port.getD defaultPort ≠ effective.port.getD defaultPort then invariant
      else .ok ()
  | _,_,_ => invariant

/-- The loop over the escapes: upper-case digits, no control or unreserved byte, and in the path no separator. -/
def canonicalEscapes (queryAt index : Nat) : List UInt8 → Bool
  | [] => true
  | byte :: bytes =>
    if byte != 0x25 then canonicalEscapes queryAt (index + 1) bytes
    else match bytes with
      | high :: low :: rest =>
        if !isUpperHex high || !isUpperHex low then false
        else
          let decoded := joinNibbles (hex high) (hex low)
          if decoded ≤ 31 || decoded == 127 || isUnreserved decoded ||
              (index < queryAt && (decoded == 0x2f || decoded == 0x5c)) then false
          else canonicalEscapes queryAt (index + 3) rest
      | _ => false

def queryStart (value : List UInt8) : Nat := (position (· == 0x3f) value).getD value.length

def hasDotSegment (path : List UInt8) : Bool :=
  (path.splitOn 0x2f).any fun segment => segment == [0x2e] || segment == [0x2e,0x2e]

/-- The path and query of a target and its routing path. -/
def validatePath (pathAndQuery routingPath : List UInt8) : Result Unit :=
  if pathAndQuery.isEmpty || pathAndQuery.length > targetLimit || !startsWith 0x2f pathAndQuery ||
      !pathAndQuery.all isTargetByte then invariant
  else
    let queryAt := queryStart pathAndQuery
    if routingPath != pathAndQuery.take queryAt || hasDotSegment (slice pathAndQuery 1 queryAt) then invariant
    else ensure (canonicalEscapes queryAt 0 pathAndQuery)

/-- A list of forwarding members: printable, blank at no edge, and with no blank member. -/
def validForwardingValue (value : List UInt8) : Bool :=
  !value.isEmpty && value.length ≤ forwardingLimit && (value.all fun byte => 0x20 ≤ byte && byte ≤ 0x7e) &&
    !startsWith 0x20 value && !endsWith 0x20 value && !(value.splitOn 0x2c).any fun member => member.all (· == 0x20)

/-- The loop over the removed names, each behind the one before it. -/
def increasingNames (canonicalName : List UInt8 → Bool) : Option (List UInt8) → List (List UInt8) → Bool
  | _,[] => true
  | previous,name :: names =>
    canonicalName name && !(previous.any fun prior => !decide (prior < name)) && increasingNames canonicalName (some name) names

def exceedsLength : BodyFraming → Bool
  | .contentLength length => length > bodyLimit
  | _ => false

/-- The digits of a number from its last one; the buffer of the sources has room for every `u64`. -/
def renderDecimalFrom : Nat → Nat → List UInt8 → List UInt8
  | 0,_,digits => digits
  | room + 1,value,digits =>
    let digits := (0x30 + UInt8.ofNat (value % 10)) :: digits
    if value / 10 = 0 then digits else renderDecimalFrom room (value / 10) digits

def renderDecimal (value : Nat) : List UInt8 := renderDecimalFrom (value + 1) value []

/-- `u64::ilog10` and one. -/
def decimalLen (value : Nat) : Nat := if value = 0 then 1 else Nat.log 10 value + 1

def forwardingNames : List (List UInt8) :=
  [ascii "Forwarded",ascii "X-Forwarded-For",ascii "X-Forwarded-Proto",ascii "X-Forwarded-Host"]

def forwardingValues (forwarding : ForwardingResult) : List (List UInt8) :=
  [forwarding.forwarded,forwarding.xForwardedFor,forwarding.xForwardedProto,forwarding.xForwardedHost]

def appendField (output name value : List UInt8) : List UInt8 := output ++ name ++ ascii ": " ++ value ++ ascii "\r\n"

end CanonicalHead
open CanonicalHead

namespace CanonicalHeadRulePhases

def replacedFields : List (List UInt8) :=
  [ascii "host",ascii "content-length",ascii "transfer-encoding",ascii "connection",ascii "forwarded",ascii "x-forwarded-for"]

def forbiddenSurvivors : List (List UInt8) :=
  [ascii "proxy-connection",ascii "keep-alive",ascii "te",ascii "trailer",ascii "upgrade",ascii "proxy-authenticate",
    ascii "proxy-authorization"]

inductive FieldAction where
  | preserve
  | replace
  | reject
deriving DecidableEq

def fieldAction (name : List UInt8) : FieldAction :=
  if replacedFields.contains name || (ascii "x-forwarded-").isPrefixOf name then .replace
  else if forbiddenSurvivors.contains name then .reject
  else .preserve

def validateMethod (method : List UInt8) : Result Unit :=
  if method.isEmpty || method.length > methodLimit || !method.all isTchar || method.any isAsciiUppercase then invariant
  else .ok ()

def validateDns (value : List UInt8) : Result Unit :=
  if value.isEmpty || value.length > 253 || !value.all isAscii || value.any isAsciiUppercase || endsWith 0x2e value ||
      !(value.splitOn 0x2e).all isDnsLabel then invariant
  else .ok ()

def validateEffectiveAuthority (authority : EffectiveAuthority) : Result Host := effectiveHost validateDns authority

def sameHost (left right : Host) : Bool := left == right

/-- The effective authority is only read when the target is absolute. -/
def validateTargetForm (target : NormalizedTarget) (effective : EffectiveAuthority) : Result Unit :=
  match target.form with
  | .origin => if target.scheme.isNone && target.authority.isNone then .ok () else invariant
  | .absolute =>
    match schemePort target.scheme,target.authority with
    | none,_ => invariant
    | some _,none => invariant
    | some defaultPort,some raw => do
      let fromTarget ← parseTargetAuthority validateDns raw
      let fromEffective ← validateEffectiveAuthority effective
      if effective.port = some defaultPort || !sameHost fromTarget.host fromEffective ||
          fromTarget.port.getD defaultPort != effective.port.getD defaultPort then invariant
      else .ok ()
  | _ => invariant

/-- The escapes come before the dot segments. -/
def validateTarget (target : NormalizedTarget) (effective : EffectiveAuthority) : Result Unit := do
  validateTargetForm target effective
  let value := target.pathAndQuery
  if value.isEmpty || value.length > targetLimit || !startsWith 0x2f value then invariant
  else if !value.all isTargetByte then invariant
  else
    let queryAt := queryStart value
    let path := value.take queryAt
    if target.routingPath != path || !canonicalEscapes queryAt 0 value then invariant
    else if hasDotSegment (path.drop 1) then invariant
    else .ok ()

def validateHeaders (headers : SanitizedHeaders) : Result Unit :=
  let canonicalName := fun name : List UInt8 =>
    !name.isEmpty && name.length ≤ fieldNameLimit && name.all isTchar && !name.any isAsciiUppercase
  if headers.fields.length > fieldLimit then invariant
  else if headers.fields.any fun field => !canonicalName field.name || field.value.length > fieldValueLimit ||
      !field.value.all isValueByte || field.value.head?.any isOws || field.value.getLast?.any isOws ||
      fieldAction field.name == .reject then invariant
  else ensure (increasingNames canonicalName none headers.removedNames)

def validateFraming (framing : BodyFraming) : Result Unit := if exceedsLength framing then invariant else .ok ()

def validateForwarding (forwarding : ForwardingResult) : Result Unit :=
  ensure ((forwardingValues forwarding).all validForwardingValue)

/-- The loop of `decimal_len`. -/
def decimalLenFrom : Nat → Nat → Nat → Nat
  | 0,_,digits => digits
  | fuel + 1,value,digits => if 10 ≤ value then decimalLenFrom fuel (value / 10) (digits + 1) else digits

def decimalLen (value : Nat) : Nat := decimalLenFrom value value 1

def renderedHostLen : Host → Nat
  | .name value => value.length
  | .ipv6 value => value.length + 2

def renderedPortLen (port : Option Nat) : Nat := port.elim 0 fun value => 1 + decimalLen value

def framingLen : BodyFraming → Nat
  | .none => 0
  | .contentLength length => (ascii "Content-Length: \r\n").length + decimalLen length
  | .chunked => (ascii "Transfer-Encoding: chunked\r\n").length

/-- The sum of a `SizeBudget`, checked at its end. -/
def serializedSize (method : List UInt8) (target : NormalizedTarget) (authority : EffectiveAuthority) (host : Host)
    (headers : SanitizedHeaders) (framing : BodyFraming) (forwarding : ForwardingResult) : Result Nat :=
  let size := method.length + 1 + target.pathAndQuery.length + (ascii " HTTP/1.1\r\n").length
  let size := size + ((ascii "Host: ").length + renderedHostLen host + renderedPortLen authority.port + 2)
  let size := headers.fields.foldl (fun size field =>
    if fieldAction field.name == .preserve then size + (field.name.length + 2 + field.value.length + 2) else size) size
  let size := (forwardingNames.zip (forwardingValues forwarding)).foldl (fun size (name,value) =>
    size + (name.length + 2 + value.length + 2)) size
  let size := size + framingLen framing
  let size := size + (ascii "Connection: close\r\n\r\n").length
  if size > headLimit then headTooLong size else .ok size

def emitRequestLine (output method target : List UInt8) : List UInt8 :=
  output ++ method.map toAsciiUppercase ++ [0x20] ++ target ++ ascii " HTTP/1.1\r\n"

def emitHost (output : List UInt8) (authority : EffectiveAuthority) (host : Host) : List UInt8 :=
  let output := output ++ ascii "Host: "
  let output := match host with
    | .name value => output ++ value
    | .ipv6 value => output ++ [0x5b] ++ value ++ [0x5d]
  let output := match authority.port with
    | some port => output ++ [0x3a] ++ renderDecimal port
    | none => output
  output ++ ascii "\r\n"

def emitFraming (output : List UInt8) : BodyFraming → List UInt8
  | .none => output
  | .contentLength length => output ++ ascii "Content-Length: " ++ renderDecimal length ++ ascii "\r\n"
  | .chunked => output ++ ascii "Transfer-Encoding: chunked\r\n"

def constructCanonicalUpstreamHead (method : List UInt8) (target : NormalizedTarget) (authority : EffectiveAuthority)
    (headers : SanitizedHeaders) (framing : BodyFraming) (forwarding : ForwardingResult) : Result CanonicalRequestHead := do
  validateMethod method
  validateTarget target authority
  let host ← validateEffectiveAuthority authority
  validateHeaders headers
  validateFraming framing
  validateForwarding forwarding
  let _ ← serializedSize method target authority host headers framing forwarding
  let bytes := emitRequestLine [] method target.pathAndQuery
  let bytes := emitHost bytes authority host
  let bytes := headers.fields.foldl (fun bytes field =>
    if fieldAction field.name == .preserve then appendField bytes field.name field.value else bytes) bytes
  let bytes := appendField bytes (ascii "Forwarded") forwarding.forwarded
  let bytes := appendField bytes (ascii "X-Forwarded-For") forwarding.xForwardedFor
  let bytes := appendField bytes (ascii "X-Forwarded-Proto") forwarding.xForwardedProto
  let bytes := appendField bytes (ascii "X-Forwarded-Host") forwarding.xForwardedHost
  let bytes := emitFraming bytes framing
  .ok ⟨bytes ++ ascii "Connection: close\r\n\r\n",framing⟩

end CanonicalHeadRulePhases

namespace CanonicalHeadComposableTable

inductive FramingLine where
  | absent
  | length (length : Nat)
  | chunked

structure ValidatedHead where
  method : List UInt8
  target : List UInt8
  authority : Endpoint
  fields : SanitizedHeaders
  forwarding : List (List UInt8)
  framing : FramingLine

inductive InputFieldDecision where
  | discard
  | forward
  | invalid
deriving DecidableEq

inductive WireLine where
  | request (method target : List UInt8)
  | host (authority : Endpoint)
  | bytes (name value : List UInt8)
  | decimal (name : List UInt8) (value : Nat)
  | empty

/-- The arms of the decision, in their order. -/
def inputFieldDecision (name : List UInt8) : InputFieldDecision :=
  if [ascii "host",ascii "content-length",ascii "transfer-encoding",ascii "connection",ascii "forwarded"].contains name then
    .discard
  else if [ascii "proxy-connection",ascii "keep-alive",ascii "te",ascii "trailer",ascii "upgrade",ascii "proxy-authenticate",
      ascii "proxy-authorization"].contains name then .invalid
  else if (ascii "x-forwarded-").isPrefixOf name then .discard
  else .forward

def validCanonicalName (value : List UInt8) : Bool :=
  (1 ≤ value.length && value.length ≤ fieldNameLimit) && value.all isTchar && !value.any isAsciiUppercase

def CanonicalMethod.new (value : List UInt8) : Result (List UInt8) :=
  if (1 ≤ value.length && value.length ≤ methodLimit) && value.all isTchar && !value.any isAsciiUppercase then .ok value
  else invariant

def validateDns (value : List UInt8) : Result Unit :=
  if !value.isEmpty && value.length ≤ 253 && value.all isAscii && !endsWith 0x2e value && (value.splitOn 0x2e).all isDnsLabel
  then .ok () else invariant

def CanonicalAuthority.new (value : EffectiveAuthority) : Result Endpoint :=
  (effectiveHost validateDns value).map fun host => ⟨host,value.port⟩

def OriginTarget.new (target : NormalizedTarget) (effective : Endpoint) : Result (List UInt8) := do
  validateForm validateDns target effective
  validatePath target.pathAndQuery target.routingPath
  .ok target.pathAndQuery

def EndToEndFields.new (headers : SanitizedHeaders) : Result SanitizedHeaders :=
  if headers.fields.length > fieldLimit then invariant
  else if headers.fields.any fun field => !validCanonicalName field.name || field.value.length > fieldValueLimit ||
      !field.value.all isValueByte || field.value.head?.any isOws || field.value.getLast?.any isOws ||
      inputFieldDecision field.name == .invalid then invariant
  else do
    ensure (increasingNames validCanonicalName none headers.removedNames)
    .ok headers

def ForwardingValues.new (value : ForwardingResult) : Result (List (List UInt8)) :=
  if (forwardingValues value).any fun value => !validForwardingValue value then invariant else .ok (forwardingValues value)

def FramingLine.new : BodyFraming → Result FramingLine
  | .none => .ok .absent
  | .contentLength value => if value ≤ bodyLimit then .ok (.length value) else invariant
  | .chunked => .ok .chunked

def ValidatedHead.new (method : List UInt8) (target : NormalizedTarget) (authority : EffectiveAuthority)
    (headers : SanitizedHeaders) (framing : BodyFraming) (forwarding : ForwardingResult) : Result ValidatedHead := do
  let method ← CanonicalMethod.new method
  let authority ← CanonicalAuthority.new authority
  let target ← OriginTarget.new target authority
  let fields ← EndToEndFields.new headers
  let forwarding ← ForwardingValues.new forwarding
  let framing ← FramingLine.new framing
  .ok ⟨method,target,authority,fields,forwarding,framing⟩

def FramingLine.lines : FramingLine → List WireLine
  | .absent => []
  | .length value => [.decimal (ascii "Content-Length") value]
  | .chunked => [.bytes (ascii "Transfer-Encoding") (ascii "chunked")]

/-- The lines that `visit_lines` shows to its visitor, in its order. -/
def ValidatedHead.visitLines (head : ValidatedHead) : List WireLine :=
  .request head.method head.target :: .host head.authority ::
    ((head.fields.fields.filter fun field => inputFieldDecision field.name == .forward).map fun field =>
      WireLine.bytes field.name field.value) ++
    ((forwardingNames.zip head.forwarding).map fun (name,value) => WireLine.bytes name value) ++
    head.framing.lines ++ [.bytes (ascii "Connection") (ascii "close"),.empty]

def renderedLen (authority : Endpoint) : Nat :=
  (match authority.host with
    | .name value => value.length
    | .ipv6 value => value.length + 2) +
    authority.port.elim 0 fun port => decimalLen port + 1

def appendAuthority (output : List UInt8) (authority : Endpoint) : List UInt8 :=
  let output := match authority.host with
    | .name value => output ++ value
    | .ipv6 value => output ++ [0x5b] ++ value ++ [0x5d]
  match authority.port with
  | some port => output ++ [0x3a] ++ renderDecimal port
  | none => output

def WireLine.encodedLen : WireLine → Nat
  | .request method target => method.length + 1 + target.length + (ascii " HTTP/1.1\r\n").length
  | .host authority => (ascii "Host: \r\n").length + renderedLen authority
  | .bytes name value => name.length + 2 + value.length + 2
  | .decimal name value => name.length + 2 + decimalLen value + 2
  | .empty => 2

def WireLine.appendTo (output : List UInt8) : WireLine → List UInt8
  | .request method target => output ++ method.map toAsciiUppercase ++ [0x20] ++ target ++ ascii " HTTP/1.1\r\n"
  | .host authority => appendAuthority (output ++ ascii "Host: ") authority ++ ascii "\r\n"
  | .bytes name value => appendField output name value
  | .decimal name value => output ++ name ++ ascii ": " ++ renderDecimal value ++ ascii "\r\n"
  | .empty => output ++ ascii "\r\n"

def constructCanonicalUpstreamHead (method : List UInt8) (target : NormalizedTarget) (authority : EffectiveAuthority)
    (headers : SanitizedHeaders) (framing : BodyFraming) (forwarding : ForwardingResult) : Result CanonicalRequestHead := do
  let head ← ValidatedHead.new method target authority headers framing forwarding
  let serializedLen := head.visitLines.foldl (fun total line => total + line.encodedLen) 0
  if serializedLen > headLimit then headTooLong serializedLen
  else .ok ⟨head.visitLines.foldl WireLine.appendTo [],framing⟩

end CanonicalHeadComposableTable

namespace CanonicalHeadCompiledPlan

def byteToken : UInt8 := 1
def byteFieldValue : UInt8 := 2
def byteUpperHex : UInt8 := 4
def byteUnreserved : UInt8 := 8
def byteDns : UInt8 := 16

/-- An entry of the table of byte rules, as `build_byte_rules` fills it. -/
def byteRule (byte : UInt8) : UInt8 :=
  (if isTchar byte then byteToken else 0) |||
    (if byte == 0x09 || (0x20 ≤ byte && byte ≤ 0x7e) || 0x80 ≤ byte then byteFieldValue else 0) |||
    (if (0x30 ≤ byte && byte ≤ 0x39) || (0x41 ≤ byte && byte ≤ 0x46) then byteUpperHex else 0) |||
    (if isAsciiAlphanumeric byte || byte == 0x2d || byte == 0x2e || byte == 0x5f || byte == 0x7e then byteUnreserved else 0) |||
    (if (0x61 ≤ byte && byte ≤ 0x7a) || (0x30 ≤ byte && byte ≤ 0x39) || byte == 0x2d then byteDns else 0)

def keep : Nat := 0
def discard : Nat := 1
def forbid : Nat := 2

def headerRules : List (List UInt8 × Nat) :=
  [(ascii "host",discard),(ascii "content-length",discard),(ascii "transfer-encoding",discard),(ascii "connection",discard),
    (ascii "forwarded",discard),(ascii "proxy-connection",forbid),(ascii "keep-alive",forbid),(ascii "te",forbid),
    (ascii "trailer",forbid),(ascii "upgrade",forbid),(ascii "proxy-authenticate",forbid),(ascii "proxy-authorization",forbid)]

def headerRule (name : List UInt8) : Nat :=
  if (ascii "x-forwarded-").isPrefixOf name then discard
  else (headerRules.findSome? fun rule => if rule.1 == name then some rule.2 else none).getD keep

structure ParsedAuthority where
  host : List UInt8
  ipv6 : Bool
  port : Option Nat

structure WirePlan where
  retainedFields : BitVec 128
  host : List UInt8
  hostIsIpv6 : Bool
  encodedLen : Nat

def validateDns (value : List UInt8) : Result Unit :=
  if value.isEmpty || value.length > 253 || endsWith 0x2e value || (value.splitOn 0x2e).any fun label =>
      label.isEmpty || label.length > 63 || startsWith 0x2d label || endsWith 0x2d label ||
        label.any fun byte => byteRule byte &&& byteDns == 0 then invariant
  else .ok ()

def parsedAuthority (endpoint : Endpoint) : ParsedAuthority :=
  match endpoint.host with
  | .name host => ⟨host,false,endpoint.port⟩
  | .ipv6 host => ⟨host,true,endpoint.port⟩

def parseEffectiveAuthority (value : EffectiveAuthority) : Result ParsedAuthority :=
  (effectiveHost validateDns value).map fun host => parsedAuthority ⟨host,value.port⟩

def parseTargetAuthority (value : List UInt8) : Result ParsedAuthority :=
  (CanonicalHead.parseTargetAuthority validateDns value).map parsedAuthority

/-- The loop over the escapes of a target, with the classes of the table. -/
def canonicalEscapes (queryAt cursor : Nat) : List UInt8 → Bool
  | [] => true
  | byte :: bytes =>
    if byte != 0x25 then canonicalEscapes queryAt (cursor + 1) bytes
    else match bytes with
      | high :: low :: rest =>
        if [high,low].any fun byte => byteRule byte &&& byteUpperHex == 0 then false
        else
          let decoded := joinNibbles (hex high) (hex low)
          if decoded ≤ 31 || decoded == 127 || byteRule decoded &&& byteUnreserved != 0 ||
              (cursor < queryAt && (decoded == 0x2f || decoded == 0x5c)) then false
          else canonicalEscapes queryAt (cursor + 3) rest
      | _ => false

def validateForm (target : NormalizedTarget) (effective : ParsedAuthority) : Result Unit :=
  match target.form,target.scheme,target.authority with
  | .origin,none,none => .ok ()
  | .absolute,scheme,some raw =>
    match schemePort scheme with
    | none => invariant
    | some defaultPort => do
      let fromTarget ← parseTargetAuthority raw
      if effective.port = some defaultPort || effective.ipv6 != fromTarget.ipv6 || effective.host != fromTarget.host ||
          effective.port.getD defaultPort != fromTarget.port.getD defaultPort then invariant
      else .ok ()
  | _,_,_ => invariant

def validateTarget (target : NormalizedTarget) (effective : ParsedAuthority) : Result Unit := do
  validateForm target effective
  let bytes := target.pathAndQuery
  if bytes.isEmpty || bytes.length > targetLimit || !startsWith 0x2f bytes || bytes.any fun byte => !isTargetByte byte then
    invariant
  else
    let queryAt := queryStart bytes
    if target.routingPath != bytes.take queryAt || hasDotSegment (slice bytes 1 queryAt) then invariant
    else ensure (canonicalEscapes queryAt 0 bytes)

def canonicalName (value : List UInt8) : Bool :=
  (1 ≤ value.length && value.length ≤ fieldNameLimit) &&
    value.all fun byte => byteRule byte &&& byteToken != 0 && !isAsciiUppercase byte

/-- The round of the loop over the fields: a kept field sets its bit and adds its line. -/
def planField (plan : BitVec 128 × Nat) (indexed : HeaderField × Nat) : Result (BitVec 128 × Nat) :=
  let (field,index) := indexed
  if !canonicalName field.name || field.value.length > fieldValueLimit ||
      (field.value.any fun byte => byteRule byte &&& byteFieldValue == 0) || field.value.head?.any isOws ||
      field.value.getLast?.any isOws then invariant
  else if headerRule field.name = forbid then invariant
  else if headerRule field.name = discard then .ok plan
  else .ok (plan.1 ||| (1#128 <<< index),plan.2 + (field.name.length + 2 + field.value.length + 2))

def planForwarding (total : Nat) (line : List UInt8 × List UInt8) : Result Nat :=
  if !validForwardingValue line.2 then invariant else .ok (total + (line.1.length + 2 + line.2.length + 2))

def planFraming (total : Nat) : BodyFraming → Result Nat
  | .none => .ok total
  | .contentLength length =>
    if length ≤ bodyLimit then .ok (total + ((ascii "Content-Length: \r\n").length + decimalLen length)) else invariant
  | .chunked => .ok (total + (ascii "Transfer-Encoding: chunked\r\n").length)

def compileWirePlan (method : List UInt8) (target : NormalizedTarget) (authority : EffectiveAuthority)
    (headers : SanitizedHeaders) (framing : BodyFraming) (forwarding : ForwardingResult) : Result WirePlan :=
  if !(1 ≤ method.length && method.length ≤ methodLimit) ||
      method.any fun byte => byteRule byte &&& byteToken == 0 || isAsciiUppercase byte then invariant
  else do
    let parsed ← parseEffectiveAuthority authority
    validateTarget target parsed
    if headers.fields.length > fieldLimit then invariant
    else
      let encodedLen := method.length + 1 + target.pathAndQuery.length + (ascii " HTTP/1.1\r\n").length
      let renderedHostLen := parsed.host.length + (if parsed.ipv6 then 1 else 0) * 2 +
        parsed.port.elim 0 fun port => 1 + decimalLen port
      let encodedLen := encodedLen + ((ascii "Host: \r\n").length + renderedHostLen)
      let (retained,encodedLen) ← headers.fields.zipIdx.foldlM planField (0,encodedLen)
      ensure (increasingNames canonicalName none headers.removedNames)
      let encodedLen ← (forwardingNames.zip (forwardingValues forwarding)).foldlM planForwarding encodedLen
      let encodedLen ← planFraming encodedLen framing
      let encodedLen := encodedLen + (ascii "Connection: close\r\n\r\n").length
      if encodedLen > headLimit then headTooLong encodedLen
      else .ok ⟨retained,parsed.host,parsed.ipv6,encodedLen⟩

def appendFraming (bytes : List UInt8) : BodyFraming → List UInt8
  | .none => bytes
  | .contentLength length => bytes ++ ascii "Content-Length: " ++ renderDecimal length ++ ascii "\r\n"
  | .chunked => bytes ++ ascii "Transfer-Encoding: chunked\r\n"

/-- The second phase, which only reads the plan and checked values. -/
def emitPlan (plan : WirePlan) (method : List UInt8) (target : NormalizedTarget) (authority : EffectiveAuthority)
    (headers : SanitizedHeaders) (framing : BodyFraming) (forwarding : ForwardingResult) : List UInt8 :=
  let bytes := method.map toAsciiUppercase ++ [0x20] ++ target.pathAndQuery ++ ascii " HTTP/1.1\r\nHost: "
  let bytes := if plan.hostIsIpv6 then bytes ++ [0x5b] ++ plan.host ++ [0x5d] else bytes ++ plan.host
  let bytes := match authority.port with
    | some port => bytes ++ [0x3a] ++ renderDecimal port
    | none => bytes
  let bytes := bytes ++ ascii "\r\n"
  let bytes := headers.fields.zipIdx.foldl (fun bytes (field,index) =>
    if plan.retainedFields &&& (1#128 <<< index) != 0 then appendField bytes field.name field.value else bytes) bytes
  let bytes := (forwardingNames.zip (forwardingValues forwarding)).foldl (fun bytes (name,value) =>
    appendField bytes name value) bytes
  appendFraming bytes framing ++ ascii "Connection: close\r\n\r\n"

def constructCanonicalUpstreamHead (method : List UInt8) (target : NormalizedTarget) (authority : EffectiveAuthority)
    (headers : SanitizedHeaders) (framing : BodyFraming) (forwarding : ForwardingResult) : Result CanonicalRequestHead := do
  let plan ← compileWirePlan method target authority headers framing forwarding
  .ok ⟨emitPlan plan method target authority headers framing forwarding,framing⟩

end CanonicalHeadCompiledPlan

namespace CanonicalHeadDualSink

inductive HeaderRule where
  | keep
  | replace
  | forbidden
deriving DecidableEq

def headerRules : List (List UInt8 × HeaderRule) :=
  [(ascii "host",.replace),(ascii "content-length",.replace),(ascii "transfer-encoding",.replace),
    (ascii "connection",.replace),(ascii "forwarded",.replace),(ascii "proxy-connection",.forbidden),
    (ascii "keep-alive",.forbidden),(ascii "te",.forbidden),(ascii "trailer",.forbidden),(ascii "upgrade",.forbidden),
    (ascii "proxy-authenticate",.forbidden),(ascii "proxy-authorization",.forbidden)]

def headerRule (name : List UInt8) : HeaderRule :=
  if (ascii "x-forwarded-").isPrefixOf name then .replace
  else (headerRules.findSome? fun rule => if rule.1 == name then some rule.2 else none).getD .keep

structure TrustedView where
  method : List UInt8
  path : List UInt8
  authorityHost : List UInt8
  bracketHost : Bool

/-- A sink of bytes: `bytes` may refuse, and `upperAscii` may take its bytes as they are. -/
structure HeadSink (S : Type) where
  bytes : S → List UInt8 → Option S
  upperAscii : S → List UInt8 → Option S

def HeadSink.decimal {S : Type} (sink : HeadSink S) (state : S) (number : Nat) : Option S :=
  sink.bytes state (renderDecimal number)

/-- The sink that counts. -/
def counter : HeadSink Nat where
  bytes count chunk := some (count + chunk.length)
  upperAscii count chunk := some (count + chunk.length)

/-- The sink that writes; the upper-case bytes come one by one. -/
def vector : HeadSink (List UInt8) where
  bytes output chunk := some (output ++ chunk)
  upperAscii output chunk := chunk.foldlM (fun output byte => some (output ++ [toAsciiUppercase byte])) output

def isLowerTokenByte (byte : UInt8) : Bool :=
  isAsciiLowercase byte || isAsciiDigit byte || byte == 0x21 || byte == 0x23 || byte == 0x24 || byte == 0x25 ||
    byte == 0x26 || byte == 0x27 || byte == 0x2a || byte == 0x2b || byte == 0x2d || byte == 0x2e || byte == 0x5e ||
    byte == 0x5f || byte == 0x60 || byte == 0x7c || byte == 0x7e

def hasEdgeOws (bytes : List UInt8) : Bool := bytes.head?.any isOws || bytes.getLast?.any isOws

def validPort (port : List UInt8) : Bool :=
  !port.isEmpty && (parseUnsigned u16Max port).any fun number => 1 ≤ number && number ≤ u16Max

def validPortSuffix (suffix : List UInt8) : Bool := startsWith 0x3a suffix && validPort (suffix.drop 1)

def validCanonicalDns (host : List UInt8) : Bool :=
  !host.isEmpty && host.length ≤ 253 && !endsWith 0x2e host && (host.splitOn 0x2e).all isDnsLabel

def validCanonicalIpv6 (host : List UInt8) : Bool :=
  !host.isEmpty && !host.contains 0x25 && !host.any isAsciiUppercase && isIpv6 host

/-- The authority of an absolute target is only checked for its form, not against the effective one. -/
def validCanonicalAuthority (authority : List UInt8) : Bool :=
  if authority.isEmpty || authority.contains 0x40 then false
  else if startsWith 0x5b authority then
    let rest := authority.drop 1
    match position (· == 0x5d) rest with
    | none => false
    | some close =>
      if !validCanonicalIpv6 (rest.take close) then false
      else
        let suffix := rest.drop (close + 1)
        suffix.isEmpty || validPortSuffix suffix
  else
    let (host,port) := match rsplitOnce 0x3a authority with
      | some (host,port) => (host,some port)
      | none => (authority,none)
    validCanonicalDns host && port.all validPort

def validateEffectiveAuthority (authority : EffectiveAuthority) : Result (List UInt8 × Bool) :=
  let host := authority.host
  if authority.port = some 0 then invariant
  else if startsWith 0x5b host || endsWith 0x5d host then
    match bracketed host with
    | none => invariant
    | some inner => if !validCanonicalIpv6 inner then invariant else .ok (inner,true)
  else if host.contains 0x3a then if !validCanonicalIpv6 host then invariant else .ok (host,true)
  else if !validCanonicalDns host then invariant
  else .ok (host,false)

/-- The loop over the bytes of a target; a separator may be escaped nowhere. -/
def validCanonicalTargetBytes : List UInt8 → Bool
  | [] => true
  | byte :: bytes =>
    if byte == 0x25 then
      match bytes with
      | high :: low :: rest =>
        if !isUpperHex high || !isUpperHex low then false
        else
          let decoded := joinNibbles (hex high) (hex low)
          if isUnreserved decoded || decoded == 0x2f || decoded == 0x5c || decoded ≤ 31 || decoded == 127 then false
          else validCanonicalTargetBytes rest
      | _ => false
    else if !(0x21 ≤ byte && byte ≤ 0x7e) || byte == 0x5c || byte == 0x23 then false
    else validCanonicalTargetBytes bytes

def validateTargetForm (target : NormalizedTarget) : Result Unit :=
  match target.form with
  | .origin => if target.scheme.isSome || target.authority.isSome then invariant else .ok ()
  | .absolute =>
    if (schemePort target.scheme).isNone || !target.authority.any validCanonicalAuthority then invariant else .ok ()
  | .authority => invariant
  | .asterisk => invariant

def validateTarget (target : NormalizedTarget) : Result Unit := do
  validateTargetForm target
  let path := target.pathAndQuery
  if path.isEmpty || path.length > targetLimit || !startsWith 0x2f path then invariant
  else
    let queryAt := queryStart path
    if target.routingPath != path.take queryAt || !validCanonicalTargetBytes path || hasDotSegment target.routingPath then
      invariant
    else .ok ()

structure ListState where
  quoted : Bool
  escaped : Bool
  member : List UInt8

def isBlankMember (member : List UInt8) : Bool := member.all isOws

/-- The round of the loop over a list: a comma outside of quotes ends a member, which must not be blank. The member
that is open is kept with its bytes. -/
def listRound (state : ListState) (byte : UInt8) : Option ListState :=
  if state.escaped then some { state with escaped := false, member := state.member ++ [byte] }
  else if state.quoted && byte == 0x5c then some { state with escaped := true, member := state.member ++ [byte] }
  else if byte == 0x22 then some { state with quoted := !state.quoted, member := state.member ++ [byte] }
  else if !state.quoted && byte == 0x2c then
    if isBlankMember state.member then none else some { state with member := [] }
  else some { state with member := state.member ++ [byte] }

def validForwardingValue (value : List UInt8) : Bool :=
  if value.isEmpty || value.length > forwardingLimit || (!value.all fun byte => 0x20 ≤ byte && byte ≤ 0x7e) ||
      hasEdgeOws value then false
  else match value.foldlM listRound ⟨false,false,[]⟩ with
    | none => false
    | some state => !state.quoted && !state.escaped && !isBlankMember state.member

def validateBoundary (method : List UInt8) (target : NormalizedTarget) (authority : EffectiveAuthority)
    (headers : SanitizedHeaders) (framing : BodyFraming) (forwarding : ForwardingResult) : Result TrustedView := do
  if method.isEmpty || method.length > methodLimit || !method.all isLowerTokenByte then invariant
  else
    validateTarget target
    let (authorityHost,bracketHost) ← validateEffectiveAuthority authority
    let canonicalName := fun name : List UInt8 =>
      !name.isEmpty && name.length ≤ fieldNameLimit && name.all isLowerTokenByte
    if headers.fields.length > fieldLimit then invariant
    else if headers.fields.any fun field => !canonicalName field.name || field.value.length > fieldValueLimit ||
        !field.value.all isValueByte || hasEdgeOws field.value || headerRule field.name == .forbidden then invariant
    else
      ensure (increasingNames canonicalName none headers.removedNames)
      if exceedsLength framing then invariant
      else if (forwardingValues forwarding).any fun value => !validForwardingValue value then invariant
      else .ok ⟨method,target.pathAndQuery,authorityHost,bracketHost⟩

def emitField {S : Type} (sink : HeadSink S) (state : S) (name value : List UInt8) : Option S := do
  let state ← sink.bytes state name
  let state ← sink.bytes state (ascii ": ")
  let state ← sink.bytes state value
  sink.bytes state (ascii "\r\n")

def emitHead {S : Type} (sink : HeadSink S) (state : S) (trusted : TrustedView) (authority : EffectiveAuthority)
    (headers : SanitizedHeaders) (framing : BodyFraming) (forwarding : ForwardingResult) : Option S := do
  let state ← sink.upperAscii state trusted.method
  let state ← sink.bytes state (ascii " ")
  let state ← sink.bytes state trusted.path
  let state ← sink.bytes state (ascii " HTTP/1.1\r\nHost: ")
  let state ← if trusted.bracketHost then sink.bytes state (ascii "[") else some state
  let state ← sink.bytes state trusted.authorityHost
  let state ← if trusted.bracketHost then sink.bytes state (ascii "]") else some state
  let state ← match authority.port with
    | some port => do
      let state ← sink.bytes state (ascii ":")
      sink.decimal state port
    | none => some state
  let state ← sink.bytes state (ascii "\r\n")
  let state ← headers.fields.foldlM (fun state field =>
    if headerRule field.name == .keep then emitField sink state field.name field.value else some state) state
  let state ← (forwardingNames.zip (forwardingValues forwarding)).foldlM (fun state (name,value) =>
    emitField sink state name value) state
  let state ← match framing with
    | .none => some state
    | .contentLength length => do
      let state ← sink.bytes state (ascii "Content-Length: ")
      let state ← sink.decimal state length
      sink.bytes state (ascii "\r\n")
    | .chunked => sink.bytes state (ascii "Transfer-Encoding: chunked\r\n")
  sink.bytes state (ascii "Connection: close\r\n\r\n")

def constructCanonicalUpstreamHead (method : List UInt8) (target : NormalizedTarget) (authority : EffectiveAuthority)
    (headers : SanitizedHeaders) (framing : BodyFraming) (forwarding : ForwardingResult) : Result CanonicalRequestHead := do
  let trusted ← validateBoundary method target authority headers framing forwarding
  match emitHead counter 0 trusted authority headers framing forwarding with
  | none => headTooLong u64Max
  | some count =>
    if count > headLimit then headTooLong count
    else match emitHead vector [] trusted authority headers framing forwarding with
      | none => invariant
      | some bytes => .ok ⟨bytes,framing⟩

end CanonicalHeadDualSink

namespace CanonicalHeadReverseFill

inductive Framing where
  | absent
  | length (length : Nat)
  | chunked

structure EndToEnd where
  source : SanitizedHeaders
  retained : BitVec 128

structure Validated where
  method : List UInt8
  route : List UInt8
  authority : Endpoint
  fields : EndToEnd
  forwarding : List (List UInt8)
  framing : Framing

inductive SurvivorDecision where
  | retain
  | replace
  | reject
deriving DecidableEq

def survivorTable : List (List UInt8 × SurvivorDecision) :=
  [(ascii "host",.replace),(ascii "content-length",.replace),(ascii "transfer-encoding",.replace),
    (ascii "connection",.replace),(ascii "forwarded",.replace),(ascii "proxy-connection",.reject),
    (ascii "keep-alive",.reject),(ascii "te",.reject),(ascii "trailer",.reject),(ascii "upgrade",.reject),
    (ascii "proxy-authenticate",.reject),(ascii "proxy-authorization",.reject)]

def survivorDecision (name : List UInt8) : SurvivorDecision :=
  if (ascii "x-forwarded-").isPrefixOf name then .replace
  else (survivorTable.findSome? fun rule => if rule.1 == name then some rule.2 else none).getD .retain

def canonicalName (value : List UInt8) : Bool :=
  (1 ≤ value.length && value.length ≤ fieldNameLimit) && value.all isTchar && !value.any isAsciiUppercase

def hasEdgeOws (value : List UInt8) : Bool := value.head?.any isOws || value.getLast?.any isOws

def Method.validate (value : List UInt8) : Result (List UInt8) :=
  if !(1 ≤ value.length && value.length ≤ methodLimit) || !value.all isTchar || value.any isAsciiUppercase then invariant
  else .ok value

def validateDns (value : List UInt8) : Result Unit :=
  if !value.isEmpty && value.length ≤ 253 && value.all isAscii && !endsWith 0x2e value && (value.splitOn 0x2e).all isDnsLabel
  then .ok () else invariant

def Authority.validateEffective (value : EffectiveAuthority) : Result Endpoint :=
  (effectiveHost validateDns value).map fun host => ⟨host,value.port⟩

def OriginRoute.validate (target : NormalizedTarget) (effective : Endpoint) : Result (List UInt8) := do
  validateForm validateDns target effective
  validatePath target.pathAndQuery target.routingPath
  .ok target.pathAndQuery

/-- The round of the loop over the fields, which sets the bit of a retained one. -/
def retainField (retained : BitVec 128) (indexed : HeaderField × Nat) : Result (BitVec 128) :=
  let (field,index) := indexed
  if !canonicalName field.name || field.value.length > fieldValueLimit || !field.value.all isValueByte ||
      hasEdgeOws field.value then invariant
  else match survivorDecision field.name with
    | .retain => .ok (retained ||| (1#128 <<< index))
    | .replace => .ok retained
    | .reject => invariant

def EndToEnd.validate (value : SanitizedHeaders) : Result EndToEnd :=
  if value.fields.length > fieldLimit then invariant
  else do
    let retained ← value.fields.zipIdx.foldlM retainField 0
    ensure (increasingNames canonicalName none value.removedNames)
    .ok ⟨value,retained⟩

/-- The blanks at the edges of a list are those of a field value. -/
def validForwarding (value : List UInt8) : Bool :=
  !value.isEmpty && value.length ≤ forwardingLimit && (value.all fun byte => 0x20 ≤ byte && byte ≤ 0x7e) &&
    !hasEdgeOws value && !(value.splitOn 0x2c).any fun member => member.all (· == 0x20)

def Forwarding.validate (value : ForwardingResult) : Result (List (List UInt8)) :=
  if (forwardingValues value).any fun value => !validForwarding value then invariant else .ok (forwardingValues value)

def Framing.validate : BodyFraming → Result Framing
  | .none => .ok .absent
  | .contentLength value => if value ≤ bodyLimit then .ok (.length value) else invariant
  | .chunked => .ok .chunked

def Validated.fromModels (method : List UInt8) (target : NormalizedTarget) (authority : EffectiveAuthority)
    (headers : SanitizedHeaders) (framing : BodyFraming) (forwarding : ForwardingResult) : Result Validated := do
  let method ← Method.validate method
  let authority ← Authority.validateEffective authority
  let route ← OriginRoute.validate target authority
  let fields ← EndToEnd.validate headers
  let forwarding ← Forwarding.validate forwarding
  let framing ← Framing.validate framing
  .ok ⟨method,route,authority,fields,forwarding,framing⟩

def fieldLineLen (name value : Nat) : Nat := name + 2 + value + 2

def renderedLen (authority : Endpoint) : Nat :=
  (match authority.host with
    | .name value => value.length
    | .ipv6 value => value.length + 2) +
    authority.port.elim 0 fun port => 1 + decimalLen port

def isRetained (fields : EndToEnd) (index : Nat) : Bool := fields.retained &&& (1#128 <<< index) != 0

def Framing.lineLen : Framing → Nat
  | .absent => 0
  | .length value => fieldLineLen (ascii "Content-Length").length (decimalLen value)
  | .chunked => fieldLineLen (ascii "Transfer-Encoding").length (ascii "chunked").length

def Validated.wireLen (trusted : Validated) : Nat :=
  let request := trusted.method.length + 1 + trusted.route.length + (ascii " HTTP/1.1\r\n").length
  let host := (ascii "Host: \r\n").length + renderedLen trusted.authority
  let retained := (trusted.fields.source.fields.zipIdx.filter fun (_,index) => isRetained trusted.fields index).foldl
    (fun total (field,_) => total + fieldLineLen field.name.length field.value.length) 0
  let forwarding := (forwardingNames.zip trusted.forwarding).foldl
    (fun total (name,value) => total + fieldLineLen name.length value.length) 0
  [request,host,retained,forwarding,trusted.framing.lineLen,(ascii "Connection: close\r\n\r\n").length].foldl (· + ·) 0

/-- A buffer that is filled from its end; the bytes before the cursor are still to come. -/
structure ReverseWriter where
  bytes : List UInt8
  cursor : Nat

def ReverseWriter.new (size : Nat) : ReverseWriter := ⟨List.replicate size 0,size⟩

/-- The cursor goes back by the length of the value, which is copied behind it. -/
def ReverseWriter.prepend (value : List UInt8) (writer : ReverseWriter) : ReverseWriter :=
  let cursor := writer.cursor - value.length
  ⟨writer.bytes.take cursor ++ value ++ writer.bytes.drop (cursor + value.length),cursor⟩

def ReverseWriter.prependField (name value : List UInt8) (writer : ReverseWriter) : ReverseWriter :=
  (((writer.prepend (ascii "\r\n")).prepend value).prepend (ascii ": ")).prepend name

def ReverseWriter.prependDecimalField (name : List UInt8) (value : Nat) (writer : ReverseWriter) : ReverseWriter :=
  writer.prependField name (renderDecimal value)

def ReverseWriter.prependHost (authority : Endpoint) (writer : ReverseWriter) : ReverseWriter :=
  let writer := writer.prepend (ascii "\r\n")
  let writer := match authority.port with
    | some port => (writer.prepend (renderDecimal port)).prepend (ascii ":")
    | none => writer
  let writer := match authority.host with
    | .name value => writer.prepend value
    | .ipv6 value => ((writer.prepend (ascii "]")).prepend value).prepend (ascii "[")
  writer.prepend (ascii "Host: ")

def ReverseWriter.prependRequest (method route : List UInt8) (writer : ReverseWriter) : ReverseWriter :=
  (((writer.prepend (ascii " HTTP/1.1\r\n")).prepend route).prepend (ascii " ")).prepend (method.map toAsciiUppercase)

/-- The buffer behind all writes, the last line first. -/
def filled (trusted : Validated) (writer : ReverseWriter) : ReverseWriter :=
  let writer := writer.prepend (ascii "\r\n")
  let writer := writer.prependField (ascii "Connection") (ascii "close")
  let writer := match trusted.framing with
    | .absent => writer
    | .length value => writer.prependDecimalField (ascii "Content-Length") value
    | .chunked => writer.prependField (ascii "Transfer-Encoding") (ascii "chunked")
  let writer := (forwardingNames.zip trusted.forwarding).reverse.foldl
    (fun writer (name,value) => writer.prependField name value) writer
  let writer := trusted.fields.source.fields.zipIdx.reverse.foldl (fun writer (field,index) =>
    if isRetained trusted.fields index then writer.prependField field.name field.value else writer) writer
  let writer := writer.prependHost trusted.authority
  writer.prependRequest trusted.method trusted.route

def constructCanonicalUpstreamHead (method : List UInt8) (target : NormalizedTarget) (authority : EffectiveAuthority)
    (headers : SanitizedHeaders) (framing : BodyFraming) (forwarding : ForwardingResult) : Result CanonicalRequestHead := do
  let trusted ← Validated.fromModels method target authority headers framing forwarding
  let outputLen := trusted.wireLen
  if outputLen > headLimit then headTooLong outputLen
  else .ok ⟨(filled trusted (.new outputLen)).bytes,framing⟩

end CanonicalHeadReverseFill

/-- The implementations of `construct_canonical_upstream_head` in registration order. -/
def canonicalHeadImplementations : List (List UInt8 → NormalizedTarget → EffectiveAuthority → SanitizedHeaders → BodyFraming →
    ForwardingResult → Result CanonicalRequestHead) :=
  [CanonicalHeadRulePhases.constructCanonicalUpstreamHead,CanonicalHeadComposableTable.constructCanonicalUpstreamHead,
    CanonicalHeadCompiledPlan.constructCanonicalUpstreamHead,CanonicalHeadDualSink.constructCanonicalUpstreamHead,
    CanonicalHeadReverseFill.constructCanonicalUpstreamHead]

end Polyguard
