import Polyguard.RequestTarget.Implementations

/-! The five registered implementations of `reconcile_authority`.
A text is the list of its bytes. Each implementation keeps the host and the port of
a parsed authority in a record of its own; the records have the same two fields. -/
namespace Polyguard
open Ascii Slices Decimal Address TargetBytes

def missingHost {α : Type} : Result α := .error .missingHost

def multipleHost {α : Type} : Result α := .error .multipleHost

def authorityMismatch {α : Type} : Result α := .error .authorityMismatch

/-- A host and its explicit port. -/
structure Authority where
  host : List UInt8
  port : Option Nat
deriving DecidableEq, Repr

/-- One digit more, with the two checked operations of a `u32`. -/
def pushChecked (value : Nat) (digit : UInt8) : Option Nat :=
  if value * 10 ≤ u32Max then
    if value * 10 + (digit - 0x30).toNat ≤ u32Max then some (value * 10 + (digit - 0x30).toNat) else none
  else none

/-- The error of a host value with a comma: every member the same and not empty, or not. -/
def commaValueError (value : List UInt8) : PolyguardError :=
  match value.splitOn 0x2c with
  | [] => .invalidAuthority
  | first :: members => if !first.isEmpty && members.all (· == first) then .multipleHost else .invalidAuthority

/-- The only host field: a second one is an error. -/
def collectHost (fields : List HeaderField) : Result (Option (List UInt8)) :=
  fields.foldlM (fun found field =>
    if field.name != ascii "host" then .ok found
    else if found.isSome then multipleHost
    else .ok (some field.value)) none

/-- A label that four implementations refuse. -/
def refusesLabel (label : List UInt8) : Bool :=
  label.isEmpty || label.length > 63 || label.head? == some 0x2d || label.getLast? == some 0x2d ||
    !label.all fun byte => isAsciiAlphanumeric byte || byte == 0x2d

/-- An `Option` of a result, as `transpose` turns it around. -/
def transpose {α : Type} : Option (Result α) → Result (Option α)
  | none => .ok none
  | some (.ok value) => .ok (some value)
  | some (.error error) => .error error

namespace AuthorityComposableComponents

inductive HostSyntax where
  | dns (text : List UInt8)
  | ipv6 (text : List UInt8)

def isRepeatedCommaValue (value : List UInt8) : Bool :=
  match value.splitOn 0x2c with
  | [] => false
  | first :: members => members.all (· == first) && decide (1 + members.length > 1)

def singleHostValue (headers : HeaderBlock) : Result (Option (List UInt8)) :=
  headers.fields.foldlM (fun found field =>
    if !eqIgnoreAsciiCase field.name (ascii "host") then .ok found
    else if found.isSome || isRepeatedCommaValue field.value then multipleHost
    else .ok (some field.value)) none

def requireHostForForm (form : TargetForm) (host : Option (List UInt8)) : Result Unit :=
  if (form = .origin ∨ form = .asterisk) ∧ host = none then missingHost else .ok ()

def separateHostAndPort (text : List UInt8) : Result (HostSyntax × Option (List UInt8)) :=
  if startsWith 0x5b text then
    let afterOpen := text.drop 1
    match position (· == 0x5d) afterOpen with
    | none => invalidAuthority
    | some close =>
      let literal := afterOpen.take close
      let suffix := afterOpen.drop (close + 1)
      if suffix.isEmpty then .ok (.ipv6 literal,none)
      else if startsWith 0x3a suffix && !(suffix.drop 1).isEmpty then .ok (.ipv6 literal,some (suffix.drop 1))
      else invalidAuthority
  else
    match text.count 0x3a with
    | 0 => .ok (.dns text,none)
    | 1 =>
      match splitOnce 0x3a text with
      | none => invalidAuthority
      | some (host,port) => if host.isEmpty || port.isEmpty then invalidAuthority else .ok (.dns host,some port)
    | _ => invalidAuthority

def canonicalDns (text : List UInt8) : Result (List UInt8) :=
  let withoutFinalDot := (stripSuffix 0x2e text).getD text
  if withoutFinalDot.isEmpty || withoutFinalDot.length > 253 then invalidAuthority
  else if (withoutFinalDot.splitOn 0x2e).any refusesLabel then invalidAuthority
  else .ok (withoutFinalDot.map toAsciiLowercase)

def canonicalIpv6 (text : List UInt8) : Result (List UInt8) :=
  if text.isEmpty || text.contains 0x25 || !isIpv6 text then invalidAuthority
  else .ok (0x5b :: (text.map toAsciiLowercase ++ [0x5d]))

def parsePort (text : List UInt8) : Result Nat :=
  if text.isEmpty || !text.all isAsciiDigit then invalidAuthority
  else match text.foldlM pushChecked 0 with
    | none => invalidAuthority
    | some value => if 1 ≤ value && value ≤ 65535 then .ok value else invalidAuthority

def parseAuthority (input : List UInt8) : Result Authority :=
  if input.isEmpty || !input.all isAscii then invalidAuthority
  else do
    let (hostSyntax,portText) ← separateHostAndPort input
    let host ← match hostSyntax with
      | .dns value => canonicalDns value
      | .ipv6 value => canonicalIpv6 value
    let port ← transpose (portText.map parsePort)
    .ok ⟨host,port⟩

def defaultPort (target : NormalizedTarget) : Option Nat :=
  if target.form ≠ .absolute then none
  else if target.scheme = some (ascii "http") then some 80
  else if target.scheme = some (ascii "https") then some 443
  else none

def comparablePort (port fallback : Option Nat) : Option Nat := port.or fallback

def disagree (fallback : Option Nat) : Option Authority → Option Authority → Bool
  | some fromTarget,some fromHeader => fromTarget.host != fromHeader.host ||
      comparablePort fromTarget.port fallback != comparablePort fromHeader.port fallback
  | _,_ => false

def reconcileAuthority (target : NormalizedTarget) (headers : HeaderBlock) : Result EffectiveAuthority := do
  let hostValue ← singleHostValue headers
  requireHostForForm target.form hostValue
  let headerAuthority ← transpose (hostValue.map parseAuthority)
  let targetAuthority ← transpose (target.authority.map parseAuthority)
  let fallback := defaultPort target
  if disagree fallback targetAuthority headerAuthority then authorityMismatch
  else match targetAuthority.or headerAuthority with
    | none => missingHost
    | some selected => .ok ⟨selected.host,selected.port.filter fun port => some port != fallback⟩

end AuthorityComposableComponents

namespace AuthorityPhases

inductive DefaultPort where
  | none
  | http
  | https

def DefaultPort.number : DefaultPort → Option Nat
  | .none => Option.none
  | .http => some 80
  | .https => some 443

def hostText (headers : HeaderBlock) : Result (Option (List UInt8)) := do
  let found ← collectHost headers.fields
  match found with
  | some value =>
    if value.contains 0x2c then .error (commaValueError value)
    else match Utf8.fromUtf8 value with
      | some text => .ok (some text)
      | none => invalidAuthority
  | none => .ok none

def enforceHostCardinality (form : TargetForm) (host : Option (List UInt8)) : Result Unit :=
  if (form = .origin ∨ form = .asterisk) ∧ host = none then missingHost else .ok ()

def targetDefault (target : NormalizedTarget) : Result DefaultPort :=
  match target.form,target.scheme with
  | .absolute,some scheme =>
    if scheme = ascii "http" then .ok .http else if scheme = ascii "https" then .ok .https else invalidAuthority
  | .authority,none => .ok .none
  | .origin,none => .ok .none
  | .asterisk,none => .ok .none
  | _,_ => invalidAuthority

def parsePort (port : List UInt8) : Result Nat :=
  if port.isEmpty || !port.all isAsciiDigit then invalidAuthority
  else match parseUnsigned u16Max port with
    | some value => if 1 ≤ value then .ok value else invalidAuthority
    | none => invalidAuthority

def validateDns (dns : List UInt8) : Result Unit :=
  if dns.isEmpty || dns.length > 253 then invalidAuthority
  else if (dns.splitOn 0x2e).any refusesLabel then invalidAuthority
  else .ok ()

def parseBracketedIpv6 (input : List UInt8) : Result Authority :=
  match position (· == 0x5d) input with
  | none => invalidAuthority
  | some closing =>
    let address := slice input 1 closing
    if address.isEmpty || !isIpv6 address then invalidAuthority
    else do
      let remainder := input.drop (closing + 1)
      let port ← if remainder.isEmpty then .ok none
        else if startsWith 0x3a remainder then (parsePort (remainder.drop 1)).map some
        else invalidAuthority
      .ok ⟨0x5b :: (address.map toAsciiLowercase ++ [0x5d]),port⟩

def parseDnsAuthority (input : List UInt8) : Result Authority := do
  let (dns,port) ← match splitOnce 0x3a input with
    | some (dns,port) =>
      if !port.contains 0x3a then (parsePort port).map fun port => (dns,some port) else invalidAuthority
    | none => .ok (input,none)
  let canonicalDns := (stripSuffix 0x2e dns).getD dns
  validateDns canonicalDns
  .ok ⟨canonicalDns.map toAsciiLowercase,port⟩

def parseAuthority (input : List UInt8) : Result Authority :=
  if input.isEmpty || !input.all isAscii || input.any (fun byte => isAsciiWhitespace byte || isAsciiControl byte) ||
      input.any (fun byte => byte == 0x2c || byte == 0x40 || byte == 0x2f || byte == 0x3f || byte == 0x23 ||
        byte == 0x25) then invalidAuthority
  else if startsWith 0x5b input then parseBracketedIpv6 input
  else parseDnsAuthority input

def targetAuthority (target : NormalizedTarget) : Result (Option Authority) :=
  match target.form,target.authority with
  | .absolute,some value => (parseAuthority value).map some
  | .authority,some value => (parseAuthority value).map some
  | .origin,none => .ok none
  | .asterisk,none => .ok none
  | _,_ => invalidAuthority

def comparisonPort (explicit : Option Nat) (fallback : DefaultPort) : Option Nat := explicit.or fallback.number

def authoritiesAgree (left right : Authority) (fallback : DefaultPort) : Bool :=
  left.host == right.host && comparisonPort left.port fallback == comparisonPort right.port fallback

def renderEffective (authority : Authority) (fallback : DefaultPort) : EffectiveAuthority :=
  ⟨authority.host,authority.port.filter fun port => some port != fallback.number⟩

def mismatched (fallback : DefaultPort) : Option Authority → Option Authority → Bool
  | some fromTarget,some fromHeader => !authoritiesAgree fromTarget fromHeader fallback
  | _,_ => false

def reconcileAuthority (target : NormalizedTarget) (headers : HeaderBlock) : Result EffectiveAuthority := do
  let hostValue ← hostText headers
  enforceHostCardinality target.form hostValue
  let fallback ← targetDefault target
  let headerAuthority ← transpose (hostValue.map parseAuthority)
  let fromTarget ← targetAuthority target
  if mismatched fallback fromTarget headerAuthority then authorityMismatch
  else match fromTarget.or headerAuthority with
    | none => missingHost
    | some chosen => .ok (renderEffective chosen fallback)

end AuthorityPhases

/-- The bytes that two implementations refuse before anything else. -/
def outsideAlphabet (byte : UInt8) : Bool :=
  isAsciiControl byte || isAsciiWhitespace byte || byte == 0x2c || byte == 0x40 || byte == 0x2f || byte == 0x5c ||
    byte == 0x3f || byte == 0x23 || byte == 0x25

/-- The loop of two implementations over the digits of a port, which stops above the greatest `u16`. -/
def portFrom (value : Nat) : List UInt8 → Result Nat
  | [] => .ok value
  | digit :: digits =>
    if !isAsciiDigit digit then invalidAuthority
    else match pushChecked value digit with
      | none => invalidAuthority
      | some value => if value > u16Max then invalidAuthority else portFrom value digits

/-- The port behind that loop: in the range of a `u16` and not zero. -/
def boundedPort (digits : List UInt8) : Result Nat :=
  if digits.isEmpty then invalidAuthority
  else do
    let value ← portFrom 0 digits
    if value ≤ u16Max && value != 0 then .ok value else invalidAuthority

namespace AuthorityEndpointAlgebra

inductive RawHost where
  | dns (name : List UInt8)
  | ipv6 (address : List UInt8)

structure ValidatedAuthority where
  host : RawHost
  port : Option Nat

inductive HostField (α : Type) where
  | missing
  | present (value : α)

structure CanonicalEvidence where
  form : TargetForm
  scheme : Option (List UInt8)
  target : Option Authority
  header : HostField Authority

/-- One digit of the fold, which stops at a byte that is none. -/
def foldDigit (value : Nat) (digit : UInt8) : Option Nat :=
  if !isAsciiDigit digit then none else pushChecked value digit

def parsePort (digits : List UInt8) : Result Nat :=
  match digits.foldlM foldDigit 0 with
  | some value => if (1 ≤ value && value ≤ 65535) && !digits.isEmpty then .ok value else invalidAuthority
  | none => invalidAuthority

def validateIpv6Authority (afterOpen : List UInt8) : Result ValidatedAuthority :=
  match position (· == 0x5d) afterOpen with
  | none => invalidAuthority
  | some close =>
    let address := afterOpen.take close
    if !isIpv6 address then invalidAuthority
    else do
      let suffix := afterOpen.drop (close + 1)
      let port ← if suffix.isEmpty then .ok none
        else if startsWith 0x3a suffix then (parsePort (suffix.drop 1)).map some
        else invalidAuthority
      .ok ⟨.ipv6 address,port⟩

def validateDnsAuthority (input : List UInt8) : Result ValidatedAuthority := do
  let (spelledHost,port) ← match input.count 0x3a with
    | 0 => .ok (input,none)
    | 1 =>
      match splitOnce 0x3a input with
      | none => invalidAuthority
      | some (host,digits) => (parsePort digits).map fun port => (host,some port)
    | _ => invalidAuthority
  let host := (stripSuffix 0x2e spelledHost).getD spelledHost
  if host.isEmpty || host.length > 253 then invalidAuthority
  else if (host.splitOn 0x2e).any refusesLabel then invalidAuthority
  else .ok ⟨.dns host,port⟩

def validateAuthority (input : List UInt8) : Result ValidatedAuthority :=
  if input.isEmpty || !input.all isAscii || input.any outsideAlphabet then invalidAuthority
  else if startsWith 0x5b input then validateIpv6Authority (input.drop 1)
  else validateDnsAuthority input

def observeHost (headers : HeaderBlock) : Result (HostField ValidatedAuthority) := do
  let observed ← collectHost headers.fields
  match observed with
  | none => .ok .missing
  | some value =>
    if value.contains 0x2c then .error (commaValueError value)
    else match Utf8.fromUtf8 value with
      | none => invalidAuthority
      | some text => (validateAuthority text).map .present

def canonicalize (authority : ValidatedAuthority) : Authority :=
  let host := match authority.host with
    | .dns name => name.map toAsciiLowercase
    | .ipv6 address => 0x5b :: (address.map toAsciiLowercase ++ [0x5d])
  ⟨host,authority.port⟩

def HostField.map {α β : Type} (f : α → β) : HostField α → HostField β
  | .missing => .missing
  | .present value => .present (f value)

def endpointKey (authority : Authority) (fallback : Option Nat) : List UInt8 × Option Nat :=
  (authority.host,authority.port.or fallback)

def asEffective (authority : Authority) (fallback : Option Nat) : EffectiveAuthority :=
  ⟨authority.host,authority.port.filter fun explicit => some explicit != fallback⟩

def deriveEffective (preferred : Authority) (corroborating : HostField Authority) (fallback : Option Nat) :
    Result EffectiveAuthority :=
  match corroborating with
  | .present header =>
    if endpointKey preferred fallback != endpointKey header fallback then authorityMismatch
    else .ok (asEffective preferred fallback)
  | .missing => .ok (asEffective preferred fallback)

def decisionTable (evidence : CanonicalEvidence) : Result EffectiveAuthority :=
  match evidence.form,evidence.scheme,evidence.target,evidence.header with
  | .origin,none,none,.present header => .ok (asEffective header none)
  | .asterisk,none,none,.present header => .ok (asEffective header none)
  | .origin,none,none,.missing => missingHost
  | .asterisk,none,none,.missing => missingHost
  | .absolute,some scheme,some target,header =>
    if scheme = ascii "http" then deriveEffective target header (some 80)
    else if scheme = ascii "https" then deriveEffective target header (some 443)
    else invalidAuthority
  | .authority,none,some target,header => deriveEffective target header none
  | _,_,_,_ => invalidAuthority

def reconcileAuthority (target : NormalizedTarget) (headers : HeaderBlock) : Result EffectiveAuthority := do
  let header ← observeHost headers
  let targetAuthority ← transpose (target.authority.map validateAuthority)
  decisionTable ⟨target.form,target.scheme,targetAuthority.map canonicalize,header.map canonicalize⟩

end AuthorityEndpointAlgebra

namespace AuthoritySegmentPipeline

/-- The two sources, the target before the header. -/
structure Boundary where
  target : Option (List UInt8)
  header : Option (List UInt8)
  defaultPort : Option Nat

structure Endpoint where
  canonicalHost : List UInt8
  explicitPort : Option Nat

def validateHostCardinality (headers : HeaderBlock) : Result (Option (List UInt8)) := do
  let host ← collectHost headers.fields
  match host with
  | some value => if value.contains 0x2c then .error (commaValueError value) else .ok (some value)
  | none => .ok none

/-- The authority of the target, its default port and whether a host is required. -/
def targetShape (target : NormalizedTarget) : Result (Option (List UInt8) × Option Nat × Bool) :=
  match target.form,target.scheme,target.authority with
  | .origin,none,none => .ok (none,none,true)
  | .asterisk,none,none => .ok (none,none,true)
  | .absolute,some scheme,some value =>
    if scheme = ascii "http" then .ok (some value,some 80,false)
    else if scheme = ascii "https" then .ok (some value,some 443,false)
    else invalidAuthority
  | .authority,none,some value => .ok (some value,none,false)
  | _,_,_ => invalidAuthority

def validateBoundary (target : NormalizedTarget) (headers : HeaderBlock) : Result Boundary := do
  let header ← validateHostCardinality headers
  let (targetAuthority,defaultPort,hostRequired) ← targetShape target
  if hostRequired && header.isNone then missingHost
  else .ok ⟨targetAuthority,header,defaultPort⟩

def validateAuthorityAlphabet (input : List UInt8) : Result Unit :=
  if input.isEmpty || !input.all isAscii || input.any outsideAlphabet then invalidAuthority else .ok ()

def decodePort (digits : List UInt8) : Result Nat := boundedPort digits

def decodeSuffixPort (suffix : List UInt8) : Result (Option Nat) :=
  if suffix.isEmpty then .ok none
  else if startsWith 0x3a suffix then (decodePort (suffix.drop 1)).map some
  else invalidAuthority

def decodeBracketedIpv6 (input : List UInt8) : Result Endpoint :=
  match position (· == 0x5d) input with
  | none => invalidAuthority
  | some close =>
    let host := input.take (close + 1)
    match Utf8.fromUtf8 (slice input 1 close) with
    | none => invalidAuthority
    | some literal =>
      if literal.isEmpty || !isIpv6 literal then invalidAuthority
      else do
        let explicitPort ← decodeSuffixPort (input.drop (close + 1))
        .ok ⟨host,explicitPort⟩

def refusesDnsLabel (label : List UInt8) : Bool :=
  let validEdges := label.head?.any (· != 0x2d) && label.getLast?.any (· != 0x2d)
  let validBody := label.all fun byte => isAsciiAlphanumeric byte || byte == 0x2d
  label.length > 63 || !validEdges || !validBody

def validateDnsName (host : List UInt8) : Result Unit :=
  if host.isEmpty || host.length > 253 then invalidAuthority
  else if (host.splitOn 0x2e).any refusesDnsLabel then invalidAuthority
  else .ok ()

def decodeDnsAuthority (input : List UInt8) : Result Endpoint := do
  let (spelledHost,explicitPort) ← match position (· == 0x3a) input with
    | some index =>
      if (input.drop (index + 1)).contains 0x3a then invalidAuthority
      else (decodePort (input.drop (index + 1))).map fun port => (input.take index,some port)
    | none => .ok (input,none)
  let canonicalHost := (stripSuffix 0x2e spelledHost).getD spelledHost
  validateDnsName canonicalHost
  .ok ⟨canonicalHost,explicitPort⟩

def decodeAuthority (input : List UInt8) : Result Endpoint := do
  validateAuthorityAlphabet input
  if startsWith 0x5b input then decodeBracketedIpv6 input else decodeDnsAuthority input

def decodeSources (boundary : Boundary) : Result (Option Endpoint × Option Endpoint) := do
  let target ← transpose (boundary.target.map decodeAuthority)
  let header ← transpose (boundary.header.map decodeAuthority)
  .ok (target,header)

def requireAgreement (endpoints : Option Endpoint × Option Endpoint) (fallback : Option Nat) : Result Unit :=
  match endpoints.1,endpoints.2 with
  | some target,some header =>
    let sameHost := eqIgnoreAsciiCase target.canonicalHost header.canonicalHost
    let samePort := target.explicitPort.or fallback == header.explicitPort.or fallback
    if sameHost && samePort then .ok () else authorityMismatch
  | _,_ => .ok ()

def materializePreferred (endpoints : Option Endpoint × Option Endpoint) (fallback : Option Nat) :
    Result EffectiveAuthority :=
  match endpoints.1.or endpoints.2 with
  | none => missingHost
  | some selected =>
    .ok ⟨collectChars (selected.canonicalHost.map toAsciiLowercase),
      selected.explicitPort.filter fun port => some port != fallback⟩

def reconcileAuthority (target : NormalizedTarget) (headers : HeaderBlock) : Result EffectiveAuthority := do
  let boundary ← validateBoundary target headers
  let endpoints ← decodeSources boundary
  requireAgreement endpoints boundary.defaultPort
  materializePreferred endpoints boundary.defaultPort

end AuthoritySegmentPipeline

namespace AuthorityInvariantTable

inductive ValidHost where
  | dns (value : List UInt8)
  | ipv6 (value : List UInt8)

def ValidHost.asStr : ValidHost → List UInt8
  | .dns value => value
  | .ipv6 value => value

structure ValidAuthority where
  host : ValidHost
  explicitPort : Option Nat

inductive HostInput where
  | absent
  | one (value : List UInt8)

structure ReconciliationInputs where
  target : Option (List UInt8)
  header : Option (List UInt8)
  defaultPort : Option Nat

def inspectHostFields (headers : HeaderBlock) : Result HostInput := do
  let value ← collectHost headers.fields
  match value with
  | none => .ok .absent
  | some bytes =>
    if bytes.contains 0x2c then .error (commaValueError bytes)
    else match Utf8.fromUtf8 bytes with
      | some text => .ok (.one text)
      | none => invalidAuthority

def decideInputs (target : NormalizedTarget) (host : HostInput) : Result ReconciliationInputs :=
  let header := match host with
    | .absent => none
    | .one value => some value
  match target.form,target.scheme,target.authority,header with
  | .origin,none,none,some header => .ok ⟨none,some header,none⟩
  | .asterisk,none,none,some header => .ok ⟨none,some header,none⟩
  | .origin,none,none,none => missingHost
  | .asterisk,none,none,none => missingHost
  | .absolute,some scheme,some authority,header =>
    if scheme = ascii "http" then .ok ⟨some authority,header,some 80⟩
    else if scheme = ascii "https" then .ok ⟨some authority,header,some 443⟩
    else invalidAuthority
  | .authority,none,some authority,header => .ok ⟨some authority,header,none⟩
  | _,_,_,_ => invalidAuthority

def rejectForbiddenAuthorityBytes (input : List UInt8) : Result Unit :=
  if input.isEmpty || !input.all isAscii || input.any (fun byte => isAsciiWhitespace byte || isAsciiControl byte ||
      byte == 0x2c || byte == 0x40 || byte == 0x2f || byte == 0x3f || byte == 0x23 || byte == 0x25) then
    invalidAuthority
  else .ok ()

def parsePort (input : List UInt8) : Result Nat := boundedPort input

def parseIpv6 (input : List UInt8) : Result ValidAuthority :=
  match position (· == 0x5d) input with
  | none => invalidAuthority
  | some closing =>
    let address := slice input 1 closing
    if address.isEmpty || !isIpv6 address then invalidAuthority
    else do
      let suffix := input.drop (closing + 1)
      let explicitPort ← if suffix.isEmpty then .ok none
        else if startsWith 0x3a suffix then (parsePort (suffix.drop 1)).map some
        else invalidAuthority
      .ok ⟨.ipv6 (input.take (closing + 1)),explicitPort⟩

def parseDns (input : List UInt8) : Result ValidAuthority := do
  let (name,explicitPort) ← match splitOnce 0x3a input with
    | none => .ok (input,none)
    | some (name,port) =>
      if !port.contains 0x3a then (parsePort port).map fun port => (name,some port) else invalidAuthority
  let name := (stripSuffix 0x2e name).getD name
  if name.isEmpty || name.length > 253 then invalidAuthority
  else if (name.splitOn 0x2e).any refusesLabel then invalidAuthority
  else .ok ⟨.dns name,explicitPort⟩

def parse (input : List UInt8) : Result ValidAuthority := do
  rejectForbiddenAuthorityBytes input
  if startsWith 0x5b input then parseIpv6 input else parseDns input

def sameCanonicalHost : ValidHost → ValidHost → Bool
  | .dns left,.dns right => eqIgnoreAsciiCase left right
  | .ipv6 left,.ipv6 right => eqIgnoreAsciiCase left right
  | _,_ => false

def sameEndpoint (left right : ValidAuthority) (fallback : Option Nat) : Bool :=
  sameCanonicalHost left.host right.host && left.explicitPort.or fallback == right.explicitPort.or fallback

def intoEffective (authority : ValidAuthority) (fallback : Option Nat) : EffectiveAuthority :=
  ⟨authority.host.asStr.map toAsciiLowercase,authority.explicitPort.filter fun port => some port != fallback⟩

def differ (fallback : Option Nat) : Option ValidAuthority → Option ValidAuthority → Bool
  | some target,some header => !sameEndpoint target header fallback
  | _,_ => false

def reconcileAuthority (target : NormalizedTarget) (headers : HeaderBlock) : Result EffectiveAuthority := do
  let host ← inspectHostFields headers
  let inputs ← decideInputs target host
  let targetAuthority ← transpose (inputs.target.map parse)
  let headerAuthority ← transpose (inputs.header.map parse)
  if differ inputs.defaultPort targetAuthority headerAuthority then authorityMismatch
  else match targetAuthority.or headerAuthority with
    | none => missingHost
    | some authority => .ok (intoEffective authority inputs.defaultPort)

end AuthorityInvariantTable

/-- The registered implementations, in registry order. -/
def authorityImplementations : List (NormalizedTarget → HeaderBlock → Result EffectiveAuthority) :=
  [AuthorityPhases.reconcileAuthority,AuthorityInvariantTable.reconcileAuthority,
    AuthorityComposableComponents.reconcileAuthority,AuthoritySegmentPipeline.reconcileAuthority,
    AuthorityEndpointAlgebra.reconcileAuthority]

end Polyguard
