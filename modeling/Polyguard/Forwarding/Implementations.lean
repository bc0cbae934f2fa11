import Polyguard.Authority.Implementations
import Polyguard.Bytes.AddressText
import Polyguard.Proxy.Config
import Mathlib.Data.Fin.VecNotation

/-! The five registered implementations of `apply_forwarding_policy`.
A text is the list of its bytes; a character that is looked for is ASCII, so that the
bytes are searched. The four places of an array are a function on its indices. -/
namespace Polyguard
open Ascii Slices Decimal Address TargetBytes
open Proxy (AddressParts parseIpAddr)

def invalidForwardingInput {α : Type} : Result α := .error .invalidForwardingInput

def forwardingValueLimit : Nat := 1024

/-- The check of a length, by the same limit under the same name everywhere. -/
def enforceForwardingLimit (actual : Nat) : Result Unit :=
  if actual > forwardingValueLimit then .error (.limitExceeded "forwarding_value_bytes" forwardingValueLimit actual)
  else .ok ()

abbrev Slots (α : Type) := Fin 4 → α

def Slots.put {α : Type} (slots : Slots α) (slot : Fin 4) (value : α) : Slots α := Function.update slots slot value

/-- `IpAddr::to_string`. -/
def addressString : AddressParts → List UInt8
  | .v4 octets => displayIpv4 octets
  | .v6 segments => displayIpv6 segments

def isHttpScheme (proto : List UInt8) : Bool := proto == ascii "http" || proto == ascii "https"

/-- A byte that three implementations refuse in a host. -/
def refusesHostByte (byte : UInt8) : Bool :=
  isAsciiControl byte || isAsciiWhitespace byte || byte == 0x2c || byte == 0x40 || byte == 0x2f || byte == 0x3f ||
    byte == 0x23 || byte == 0x25

def refusesHostBytes (authority : List UInt8) : Bool :=
  authority.isEmpty || !authority.all isAscii || authority.any refusesHostByte

/-- A port as `u16`, of digits and not zero. -/
def isForwardingPort (port : List UInt8) : Bool :=
  !port.isEmpty && port.all isAsciiDigit && (parseUnsigned u16Max port).any (1 ≤ ·)

/-- A member between commas that holds nothing but blanks. -/
def hasBlankMember (value : List UInt8) : Bool := (value.splitOn 0x2c).any fun member => member.all (· == 0x20)

def isQuotedByte (byte : UInt8) : Bool := byte == 0x22 || byte == 0x5c

def escapedHostBytes (host : List UInt8) : Nat := host.countP isQuotedByte

/-- The text with a backslash before every quote and every backslash. -/
def escapeQuoted (value : List UInt8) : List UInt8 := value.flatMap fun byte => if isQuotedByte byte then [0x5c,byte] else [byte]

def authorityWithoutDot (host : List UInt8) : List UInt8 := (stripSuffix 0x2e host).getD host

namespace ForwardingDecisionTable

structure FieldRule where
  name : List UInt8
  slot : Fin 4

def fieldRules : List FieldRule :=
  [⟨ascii "forwarded",0⟩,⟨ascii "x-forwarded-for",1⟩,⟨ascii "x-forwarded-proto",2⟩,⟨ascii "x-forwarded-host",3⟩]

inductive Transition where
  | replace
  | extend
deriving DecidableEq

def validateClientAddress (input : List UInt8) : Result AddressParts :=
  if input.isEmpty || input.contains 0x25 || startsWith 0x5b input || endsWith 0x5d input then invalidForwardingInput
  else match parseIpAddr input with
    | some (.v4 octets) => if displayIpv4 octets = input then .ok (.v4 octets) else invalidForwardingInput
    | some (.v6 segments) => .ok (.v6 segments)
    | none => invalidForwardingInput

def validateProto (proto : List UInt8) : Result Unit := if isHttpScheme proto then .ok () else invalidForwardingInput

def validatePort (port : List UInt8) : Result Unit :=
  if port.isEmpty || !port.all isAsciiDigit then invalidForwardingInput
  else match parseUnsigned u16Max port with
    | some number => if 1 ≤ number then .ok () else invalidForwardingInput
    | none => invalidForwardingInput

def validateBracketedHost (authority : List UInt8) : Result Unit :=
  match position (· == 0x5d) authority with
  | none => invalidForwardingInput
  | some closing =>
    let literal := slice authority 1 closing
    if literal.isEmpty || !isIpv6 literal then invalidForwardingInput
    else
      let suffix := authority.drop (closing + 1)
      if suffix.isEmpty then .ok ()
      else if startsWith 0x3a suffix then validatePort (suffix.drop 1)
      else invalidForwardingInput

def validateNamedHost (authority : List UInt8) : Result Unit := do
  let (host,port) ← match splitOnce 0x3a authority with
    | some (host,port) => if port.contains 0x3a then invalidForwardingInput else .ok (host,some port)
    | none => .ok (authority,none)
  let host := authorityWithoutDot host
  if host.isEmpty || host.length > 253 then invalidForwardingInput
  else if (host.splitOn 0x2e).any refusesLabel then invalidForwardingInput
  else match port with
    | some port => validatePort port
    | none => .ok ()

def validateHostAuthority (authority : List UInt8) : Result Unit :=
  if refusesHostBytes authority then invalidForwardingInput
  else if startsWith 0x5b authority then validateBracketedHost authority
  else validateNamedHost authority

def validateTrustedValue (value : List UInt8) : Result Unit := do
  enforceForwardingLimit value.length
  if value.isEmpty || !value.all (fun byte => 0x20 ≤ byte && byte ≤ 0x7e) then invalidForwardingInput
  else if hasBlankMember value then invalidForwardingInput
  else .ok ()

def collectField (values : Slots (Option (List UInt8))) (field : HeaderField) : Result (Slots (Option (List UInt8))) :=
  match fieldRules.find? fun rule => field.name == rule.name with
  | none => .ok values
  | some rule =>
    if (values rule.slot).isSome then invalidForwardingInput
    else do
      validateTrustedValue field.value
      .ok (values.put rule.slot (some field.value))

def collectTrustedValues (headers : HeaderBlock) : Result (Slots (Option (List UInt8))) :=
  headers.fields.foldlM collectField fun _ => none

def renderForwardedHop (address : AddressParts) (proto host : List UInt8) : Result (List UInt8) := do
  let addressText := match address with
    | .v4 octets => displayIpv4 octets
    | .v6 segments => ascii "\"[" ++ displayIpv6 segments ++ ascii "]\""
  let length := (ascii "for=;proto=;host=\"\"").length + addressText.length + proto.length + host.length + escapedHostBytes host
  enforceForwardingLimit length
  .ok (ascii "for=" ++ addressText ++ ascii ";proto=" ++ proto ++ ascii ";host=\"" ++ escapeQuoted host ++ ascii "\"")

def transitionValue (transition : Transition) (previous : Option (List UInt8)) (addition : List UInt8) :
    Result (List UInt8) := do
  let kept := match transition with
    | .replace => none
    | .extend => previous
  enforceForwardingLimit (kept.elim addition.length fun value => value.length + (ascii ", ").length + addition.length)
  match kept with
  | none => .ok addition
  | some value =>
    match Utf8.fromUtf8 value with
    | some text => .ok (text ++ ascii ", " ++ addition)
    | none => invalidForwardingInput

def applyForwardingPolicy (policy : ForwardingPolicy) (headers : HeaderBlock) : Result ForwardingResult := do
  let address ← validateClientAddress policy.clientIp
  validateProto policy.proto
  validateHostAuthority policy.host
  let previous ← if policy.trustIncoming then collectTrustedValues headers else .ok fun _ => none
  let canonicalForwarded ← renderForwardedHop address policy.proto policy.host
  let additions : Slots (List UInt8) := ![canonicalForwarded,addressString address,policy.proto,policy.host]
  let transition := if policy.trustIncoming then Transition.extend else Transition.replace
  let outputs : Slots (List UInt8) ← fieldRules.foldlM (fun outputs rule => do
    let value ← transitionValue transition (previous rule.slot) (additions rule.slot)
    .ok (outputs.put rule.slot value)) fun _ => []
  .ok ⟨outputs 0,outputs 1,outputs 2,outputs 3⟩

end ForwardingDecisionTable

namespace ForwardingDirectMatch

inductive ClientFamily where
  | v4
  | v6
deriving DecidableEq

structure PriorValues where
  forwarded : Option (List UInt8)
  xFor : Option (List UInt8)
  xProto : Option (List UInt8)
  xHost : Option (List UInt8)

def validatePort (port : List UInt8) : Result Unit :=
  match parseUnsigned u16Max port with
  | some number => if 1 ≤ number ∧ port.all isAsciiDigit then .ok () else invalidForwardingInput
  | none => invalidForwardingInput

def validateHost (authority : List UInt8) : Result Unit :=
  if refusesHostBytes authority then invalidForwardingInput
  else if startsWith 0x5b authority then
    match splitOnce 0x5d (authority.drop 1) with
    | some (literal,suffix) =>
      if literal.isEmpty || literal.contains 0x25 || !isIpv6 literal then invalidForwardingInput
      else if suffix.isEmpty then .ok ()
      else if startsWith 0x3a suffix then validatePort (suffix.drop 1)
      else invalidForwardingInput
    | none => invalidForwardingInput
  else do
    let (name,port) ← match splitOnce 0x3a authority with
      | none => .ok (authority,none)
      | some (name,port) => if port.contains 0x3a then invalidForwardingInput else .ok (name,some port)
    let name := authorityWithoutDot name
    if name.isEmpty || name.length > 253 then invalidForwardingInput
    else if (name.splitOn 0x2e).any refusesLabel then invalidForwardingInput
    else match port with
      | none => .ok ()
      | some value => validatePort value

def clientFamily (clientIp : List UInt8) : Result ClientFamily :=
  if (parseIpv4 clientIp).any fun octets => displayIpv4 octets == clientIp then .ok .v4
  else if (parseIpv6 clientIp).any fun segments => displayIpv6 segments == clientIp then .ok .v6
  else invalidForwardingInput

def validateListenerValues (policy : ForwardingPolicy) : Result ClientFamily := do
  let family ← clientFamily policy.clientIp
  if isHttpScheme policy.proto then .ok () else invalidForwardingInput
  validateHost policy.host
  .ok family

/-- A comma needs a member with content before it, and so does the end. -/
def membersHaveContent : Bool → List UInt8 → Bool
  | content,[] => content
  | content,byte :: rest =>
    if byte == 0x2c then content && membersHaveContent false rest
    else if byte == 0x20 then membersHaveContent content rest
    else membersHaveContent true rest

def validatePriorValue (value : List UInt8) : Result Unit := do
  enforceForwardingLimit value.length
  if value.isEmpty || value.any (fun byte => !(0x20 ≤ byte && byte ≤ 0x7e)) then invalidForwardingInput
  else if membersHaveContent false value then .ok ()
  else invalidForwardingInput

/-- A value for a place that has none yet. -/
def store (place : Option (List UInt8)) (value : List UInt8) (put : Option (List UInt8) → PriorValues) : Result PriorValues :=
  match place with
  | none => do
    validatePriorValue value
    .ok (put (some value))
  | some _ => invalidForwardingInput

def inspectField (prior : PriorValues) (field : HeaderField) : Result PriorValues :=
  if field.name = ascii "forwarded" then store prior.forwarded field.value fun value => { prior with forwarded := value }
  else if field.name = ascii "x-forwarded-for" then store prior.xFor field.value fun value => { prior with xFor := value }
  else if field.name = ascii "x-forwarded-proto" then store prior.xProto field.value fun value => { prior with xProto := value }
  else if field.name = ascii "x-forwarded-host" then store prior.xHost field.value fun value => { prior with xHost := value }
  else .ok prior

def inspectPriorValues (headers : HeaderBlock) : Result PriorValues := headers.fields.foldlM inspectField ⟨none,none,none,none⟩

def canonicalHop (policy : ForwardingPolicy) (family : ClientFamily) : Result (List UInt8) := do
  let addressOverhead := match family with
    | .v4 => 0
    | .v6 => 4
  enforceForwardingLimit (19 + addressOverhead + policy.clientIp.length + policy.proto.length + policy.host.length +
    escapedHostBytes policy.host)
  let node := match family with
    | .v4 => policy.clientIp
    | .v6 => ascii "\"[" ++ policy.clientIp ++ ascii "]\""
  .ok (ascii "for=" ++ node ++ ascii ";proto=" ++ policy.proto ++ ascii ";host=\"" ++ escapeQuoted policy.host ++ ascii "\"")

def combinedLen (previous : Option (List UInt8)) (additionLen : Nat) : Result Nat := do
  let actual := match previous with
    | none => additionLen
    | some value => value.length + 2 + additionLen
  enforceForwardingLimit actual
  .ok actual

def combine (previous : Option (List UInt8)) (addition : List UInt8) : Result (List UInt8) :=
  match previous with
  | none => .ok addition
  | some value =>
    match Utf8.fromUtf8 value with
    | some text => .ok (text ++ ascii ", " ++ addition)
    | none => invalidForwardingInput

def applyForwardingPolicy (policy : ForwardingPolicy) (headers : HeaderBlock) : Result ForwardingResult := do
  let family ← validateListenerValues policy
  let prior ← if policy.trustIncoming then inspectPriorValues headers else .ok ⟨none,none,none,none⟩
  let newForwarded ← canonicalHop policy family
  let _ ← combinedLen prior.forwarded newForwarded.length
  let _ ← combinedLen prior.xFor policy.clientIp.length
  let _ ← combinedLen prior.xProto policy.proto.length
  let _ ← combinedLen prior.xHost policy.host.length
  let forwarded ← combine prior.forwarded newForwarded
  let xForwardedFor ← combine prior.xFor policy.clientIp
  let xForwardedProto ← combine prior.xProto policy.proto
  let xForwardedHost ← combine prior.xHost policy.host
  .ok ⟨forwarded,xForwardedFor,xForwardedProto,xForwardedHost⟩

end ForwardingDirectMatch

namespace ForwardingTransitionModel

inductive Occupancy where
  | vacant
  | occupied
deriving DecidableEq

inductive Transition where
  | store
  | rejectDuplicate
deriving DecidableEq

def headerTransitions : Occupancy → Transition
  | .vacant => .store
  | .occupied => .rejectDuplicate

inductive ClientAddress where
  | v4 (text : List UInt8)
  | v6 (text : List UInt8)

def fieldSlots : List (List UInt8 × Fin 4) :=
  [(ascii "forwarded",0),(ascii "x-forwarded-for",1),(ascii "x-forwarded-proto",2),(ascii "x-forwarded-host",3)]

def lookupSlot (name : List UInt8) : Option (Fin 4) :=
  (fieldSlots.find? fun candidate => eqIgnoreAsciiCase name candidate.1).map (·.2)

def validateClientAddress (input : List UInt8) : Result ClientAddress :=
  if input.any fun byte => byte == 0x5b || byte == 0x5d || byte == 0x25 then invalidForwardingInput
  else match parseIpAddr input with
    | some (.v4 octets) => if displayIpv4 octets = input then .ok (.v4 input) else invalidForwardingInput
    | some (.v6 _) => .ok (.v6 input)
    | none => invalidForwardingInput

def validateProto (proto : List UInt8) : Result Unit := if isHttpScheme proto then .ok () else invalidForwardingInput

def validPort (port : List UInt8) : Bool := isForwardingPort port

def validPortSuffix (suffix : List UInt8) : Bool := suffix.isEmpty || (startsWith 0x3a suffix && validPort (suffix.drop 1))

def validLabel (label : List UInt8) : Bool :=
  !label.isEmpty && label.length ≤ 63 && label.all (fun byte => isAsciiAlphanumeric byte || byte == 0x2d) &&
    label.head?.any isAsciiAlphanumeric && label.getLast?.any isAsciiAlphanumeric

def validDnsName (name : List UInt8) : Bool :=
  let name := authorityWithoutDot name
  !name.isEmpty && name.length ≤ 253 && (name.splitOn 0x2e).all validLabel

def validateAuthority (authority : List UInt8) : Result Unit :=
  if authority.isEmpty || !authority.all isAscii then invalidForwardingInput
  else if startsWith 0x5b authority then
    let literal := authority.drop 1
    match position (· == 0x5d) literal with
    | none => invalidForwardingInput
    | some close =>
      let address := literal.take close
      let suffix := literal.drop close
      if address.isEmpty || address.contains 0x25 || !isIpv6 address || !validPortSuffix (suffix.drop 1) then
        invalidForwardingInput
      else .ok ()
  else do
    let (host,port) ← match rsplitOnce 0x3a authority with
      | some (host,port) => if host.contains 0x3a then invalidForwardingInput else .ok (host,some port)
      | none => .ok (authority,none)
    if !validDnsName host || port.any (fun value => !validPort value) then invalidForwardingInput else .ok ()

def formatForwardedHop (client : ClientAddress) (proto host : List UInt8) : List UInt8 :=
  let node := match client with
    | .v4 address => ascii "for=" ++ address
    | .v6 address => ascii "for=\"[" ++ address ++ ascii "]\""
  node ++ ascii ";proto=" ++ proto ++ ascii ";host=\"" ++ escapeQuoted host ++ ascii "\""

def validateIncomingValue (value : List UInt8) : Result Unit := do
  enforceForwardingLimit value.length
  if value.any (fun byte => !isAscii byte || isAsciiControl byte) || hasBlankMember value then invalidForwardingInput
  else .ok ()

def scanField (incoming : Slots (Option (List UInt8))) (field : HeaderField) : Result (Slots (Option (List UInt8))) :=
  match lookupSlot field.name with
  | none => .ok incoming
  | some slot => do
    validateIncomingValue field.value
    match headerTransitions (if (incoming slot).isSome then .occupied else .vacant) with
    | .store => .ok (incoming.put slot (some field.value))
    | .rejectDuplicate => invalidForwardingInput

def appendValue (before current : List UInt8) : Result (List UInt8) := do
  enforceForwardingLimit (before.length + (ascii ", ").length + current.length)
  match Utf8.fromUtf8 before with
  | some text => .ok (text ++ ascii ", " ++ current)
  | none => invalidForwardingInput

def resultFromValues (values : Slots (List UInt8)) : Result ForwardingResult := do
  (List.finRange 4).forM fun index => enforceForwardingLimit (values index).length
  .ok ⟨values 0,values 1,values 2,values 3⟩

def extendOutput (incoming : Slots (Option (List UInt8))) (output : Slots (List UInt8)) (index : Fin 4) :
    Result (Slots (List UInt8)) :=
  match incoming index with
  | some before => do
    let value ← appendValue before (output index)
    .ok (output.put index value)
  | none => do
    enforceForwardingLimit (output index).length
    .ok output

def applyForwardingPolicy (policy : ForwardingPolicy) (headers : HeaderBlock) : Result ForwardingResult := do
  let client ← validateClientAddress policy.clientIp
  validateProto policy.proto
  validateAuthority policy.host
  let current : Slots (List UInt8) :=
    ![formatForwardedHop client policy.proto policy.host,policy.clientIp,policy.proto,policy.host]
  if !policy.trustIncoming then resultFromValues current
  else do
    let incoming ← headers.fields.foldlM scanField fun _ => none
    let output ← (List.finRange 4).foldlM (extendOutput incoming) current
    resultFromValues output

end ForwardingTransitionModel

namespace ForwardingCentralTransition

structure HeaderRule where
  name : List UInt8
  slot : Fin 4

def forwardingHeaders : List HeaderRule :=
  [⟨ascii "forwarded",0⟩,⟨ascii "x-forwarded-for",1⟩,⟨ascii "x-forwarded-proto",2⟩,⟨ascii "x-forwarded-host",3⟩]

inductive BoundaryState where
  | replace
  | extend (previous : Slots (Option (List UInt8)))

def canonicalClient (value : List UInt8) : Result AddressParts :=
  if value.any fun byte => byte == 0x5b || byte == 0x5d || byte == 0x25 then invalidForwardingInput
  else match parseIpAddr value with
    | none => invalidForwardingInput
    | some address => if addressString address ≠ value then invalidForwardingInput else .ok address

def validateProto (value : List UInt8) : Result Unit := if isHttpScheme value then .ok () else invalidForwardingInput

def validatePort (port : List UInt8) : Result Unit :=
  if port.isEmpty || !port.all isAsciiDigit then invalidForwardingInput
  else match parseUnsigned u16Max port with
    | none => invalidForwardingInput
    | some number => if number = 0 then invalidForwardingInput else .ok ()

def validateDnsName (host : List UInt8) : Result Unit :=
  let name := authorityWithoutDot host
  if name.isEmpty || name.length > 253 then invalidForwardingInput
  else if (name.splitOn 0x2e).any refusesLabel then invalidForwardingInput
  else .ok ()

def refusesNameByte (byte : UInt8) : Bool :=
  byte == 0x5b || byte == 0x5d || byte == 0x40 || byte == 0x2f || byte == 0x3f || byte == 0x23 || byte == 0x2c ||
    byte == 0x5c || byte == 0x22

def validateAuthority (value : List UInt8) : Result Unit :=
  if value.isEmpty || !value.all isAscii then invalidForwardingInput
  else if startsWith 0x5b value then
    let afterOpen := value.drop 1
    match position (· == 0x5d) afterOpen with
    | none => invalidForwardingInput
    | some close =>
      if !isIpv6 (afterOpen.take close) then invalidForwardingInput
      else
        let remainder := afterOpen.drop (close + 1)
        if remainder.isEmpty then .ok ()
        else if startsWith 0x3a remainder then validatePort (remainder.drop 1)
        else invalidForwardingInput
  else if value.any refusesNameByte then invalidForwardingInput
  else do
    let (host,port) ← match rsplitOnce 0x3a value with
      | some (host,port) => if host.contains 0x3a then invalidForwardingInput else .ok (host,some port)
      | none => .ok (value,none)
    validateDnsName host
    match port with
    | some port => validatePort port
    | none => .ok ()

def quoteHost (host : List UInt8) : List UInt8 := 0x22 :: (escapeQuoted host ++ [0x22])

def validateIncomingValue (value : List UInt8) : Result Unit := do
  enforceForwardingLimit value.length
  if value.any (fun byte => !isAscii byte || isAsciiControl byte) || hasBlankMember value then invalidForwardingInput
  else .ok ()

def collectField (values : Slots (Option (List UInt8))) (field : HeaderField) : Result (Slots (Option (List UInt8))) :=
  match forwardingHeaders.find? fun rule => field.name == rule.name with
  | none => .ok values
  | some rule => do
    validateIncomingValue field.value
    if (values rule.slot).isSome then invalidForwardingInput
    else match Utf8.fromUtf8 field.value with
      | some text => .ok (values.put rule.slot (some text))
      | none => invalidForwardingInput

def collectForwardingHeaders (headers : HeaderBlock) : Result (Slots (Option (List UInt8))) :=
  headers.fields.foldlM collectField fun _ => none

/-- The beginning of a hop, with the node of the client. -/
def canonicalFor (client : AddressParts) (clientIp : List UInt8) : List UInt8 :=
  match client with
  | .v4 _ => ascii "for=" ++ clientIp
  | .v6 _ => ascii "for=\"[" ++ clientIp ++ ascii "]\""

def boundedCopy (value : List UInt8) : Result (List UInt8) := do
  enforceForwardingLimit value.length
  .ok value

def transitionValue (previous : Option (List UInt8)) (canonical : List UInt8) : Result (List UInt8) := do
  enforceForwardingLimit (previous.elim canonical.length fun value => value.length + (ascii ", ").length + canonical.length)
  .ok (previous.elim canonical fun value => value ++ ascii ", " ++ canonical)

def boundaryState (policy : ForwardingPolicy) (headers : HeaderBlock) : Result BoundaryState :=
  if policy.trustIncoming then (collectForwardingHeaders headers).map .extend else .ok .replace

def boundaryOutputs (canonical : Slots (List UInt8)) : BoundaryState → Result (List (List UInt8))
  | .replace => (List.finRange 4).mapM fun index => boundedCopy (canonical index)
  | .extend previous => (List.finRange 4).mapM fun index => transitionValue (previous index) (canonical index)

def applyForwardingPolicy (policy : ForwardingPolicy) (headers : HeaderBlock) : Result ForwardingResult := do
  let client ← canonicalClient policy.clientIp
  validateProto policy.proto
  validateAuthority policy.host
  let canonicalForwarded :=
    canonicalFor client policy.clientIp ++ ascii ";proto=" ++ policy.proto ++ ascii ";host=" ++ quoteHost policy.host
  let state ← boundaryState policy headers
  let canonical : Slots (List UInt8) := ![canonicalForwarded,policy.clientIp,policy.proto,policy.host]
  let outputs ← boundaryOutputs canonical state
  match outputs with
  | [forwarded,xForwardedFor,xForwardedProto,xForwardedHost] => .ok ⟨forwarded,xForwardedFor,xForwardedProto,xForwardedHost⟩
  | _ => invalidForwardingInput

end ForwardingCentralTransition

namespace ForwardingPrimitiveBoundary

inductive IpFamily where
  | v4
  | v6
deriving DecidableEq

def validatePort (port : List UInt8) : Result Unit :=
  match parseUnsigned u16Max port with
  | some number => if 1 ≤ number ∧ port.all isAsciiDigit then .ok () else invalidForwardingInput
  | none => invalidForwardingInput

def validateIpv6Authority (authority : List UInt8) : Result Unit :=
  match position (· == 0x5d) authority with
  | none => invalidForwardingInput
  | some close =>
    let literal := slice authority 1 close
    if literal.isEmpty || literal.contains 0x25 || !isIpv6 literal then invalidForwardingInput
    else
      let suffix := authority.drop (close + 1)
      if suffix.isEmpty then .ok ()
      else if startsWith 0x3a suffix then validatePort (suffix.drop 1)
      else invalidForwardingInput

def refusesDnsLabel (label : List UInt8) : Bool :=
  let edge := match label.head?,label.getLast? with
    | some first,some last => isAsciiAlphanumeric first && isAsciiAlphanumeric last
    | _,_ => false
  label.length > 63 || !edge || !label.all fun byte => isAsciiAlphanumeric byte || byte == 0x2d

def validateDnsAuthority (authority : List UInt8) : Result Unit := do
  let (host,port) ← match splitOnce 0x3a authority with
    | none => .ok (authority,none)
    | some (host,port) => if port.contains 0x3a then invalidForwardingInput else .ok (host,some port)
  let name := authorityWithoutDot host
  if name.isEmpty || name.length > 253 then invalidForwardingInput
  else if (name.splitOn 0x2e).any refusesDnsLabel then invalidForwardingInput
  else match port with
    | some value => validatePort value
    | none => .ok ()

def validateHostAuthority (authority : List UInt8) : Result Unit :=
  if refusesHostBytes authority then invalidForwardingInput
  else if startsWith 0x5b authority then validateIpv6Authority authority
  else validateDnsAuthority authority

def ipFamily (clientIp : List UInt8) : Result IpFamily :=
  match parseIpv4 clientIp,parseIpv6 clientIp with
  | some octets,_ => if displayIpv4 octets = clientIp then .ok .v4 else invalidForwardingInput
  | none,some _ =>
    if !clientIp.any (fun byte => byte == 0x5b || byte == 0x5d || byte == 0x25) && !clientIp.isEmpty then .ok .v6
    else invalidForwardingInput
  | none,none => invalidForwardingInput

def validatePolicy (policy : ForwardingPolicy) : Result IpFamily := do
  let family ← ipFamily policy.clientIp
  if isHttpScheme policy.proto then .ok () else invalidForwardingInput
  validateHostAuthority policy.host
  .ok family

/-- A comma or another byte outside the printable ones is refused where it stands. -/
def scanMembers : Bool → List UInt8 → Result Bool
  | content,[] => .ok content
  | content,byte :: rest =>
    if byte == 0x2c then if content then scanMembers false rest else invalidForwardingInput
    else if byte == 0x20 then scanMembers content rest
    else if 0x21 ≤ byte && byte ≤ 0x7e then scanMembers true rest
    else invalidForwardingInput

def validateOldValue (value : List UInt8) : Result Unit := do
  enforceForwardingLimit value.length
  let content ← scanMembers false value
  if content then .ok () else invalidForwardingInput

def fieldSlot (name : List UInt8) : Option (Fin 4) :=
  if name = ascii "forwarded" then some 0
  else if name = ascii "x-forwarded-for" then some 1
  else if name = ascii "x-forwarded-proto" then some 2
  else if name = ascii "x-forwarded-host" then some 3
  else none

/-- The sentinel of a place without a field is no position. -/
def positionField (positions : Slots (Option Nat)) (indexed : HeaderField × Nat) : Result (Slots (Option Nat)) :=
  match fieldSlot indexed.1.name with
  | none => .ok positions
  | some slot => do
    validateOldValue indexed.1.value
    if (positions slot).isSome then invalidForwardingInput else .ok (positions.put slot (some indexed.2))

def validateTrustedHeaders (headers : HeaderBlock) : Result (Slots (Option Nat)) :=
  headers.fields.zipIdx.foldlM positionField fun _ => none

def makeHop (policy : ForwardingPolicy) (family : IpFamily) : Result (List UInt8) := do
  let familyExtra := match family with
    | .v4 => 0
    | .v6 => 4
  enforceForwardingLimit (19 + familyExtra + policy.clientIp.length + policy.proto.length + policy.host.length +
    escapedHostBytes policy.host)
  let node := match family with
    | .v4 => policy.clientIp
    | .v6 => ascii "\"[" ++ policy.clientIp ++ ascii "]\""
  let host := policy.host.flatMap fun byte => if isQuotedByte byte then 0x5c :: charFrom byte else charFrom byte
  .ok (ascii "for=" ++ node ++ ascii ";proto=" ++ policy.proto ++ ascii ";host=\"" ++ host ++ ascii "\"")

/-- The value of the field at a position. -/
def oldValue (headers : HeaderBlock) (index : Nat) : List UInt8 := (headers.fields[index]?.map (·.value)).getD []

def outputSize (oldPosition : Option Nat) (additionSize : Nat) (headers : HeaderBlock) : Result Nat := do
  let size := match oldPosition with
    | none => additionSize
    | some index => (oldValue headers index).length + 2 + additionSize
  enforceForwardingLimit size
  .ok size

def writeOutput (oldPosition : Option Nat) (addition : List UInt8) (headers : HeaderBlock) : Result (List UInt8) :=
  match oldPosition with
  | none => .ok addition
  | some index =>
    match Utf8.fromUtf8 (oldValue headers index) with
    | some old => .ok (old ++ ascii ", " ++ addition)
    | none => invalidForwardingInput

def applyForwardingPolicy (policy : ForwardingPolicy) (headers : HeaderBlock) : Result ForwardingResult := do
  let family ← validatePolicy policy
  let oldFields ← if policy.trustIncoming then validateTrustedHeaders headers else .ok fun _ => none
  let hop ← makeHop policy family
  let additions : Slots (List UInt8) := ![hop,policy.clientIp,policy.proto,policy.host]
  (List.finRange 4).forM fun index => do
    let _ ← outputSize (oldFields index) (additions index).length headers
    .ok ()
  let forwarded ← writeOutput (oldFields 0) (additions 0) headers
  let xForwardedFor ← writeOutput (oldFields 1) (additions 1) headers
  let xForwardedProto ← writeOutput (oldFields 2) (additions 2) headers
  let xForwardedHost ← writeOutput (oldFields 3) (additions 3) headers
  .ok ⟨forwarded,xForwardedFor,xForwardedProto,xForwardedHost⟩

end ForwardingPrimitiveBoundary

/-- The registered implementations, in registry order. -/
def forwardingImplementations : List (ForwardingPolicy → HeaderBlock → Result ForwardingResult) :=
  [ForwardingDecisionTable.applyForwardingPolicy,ForwardingDirectMatch.applyForwardingPolicy,
    ForwardingTransitionModel.applyForwardingPolicy,ForwardingCentralTransition.applyForwardingPolicy,
    ForwardingPrimitiveBoundary.applyForwardingPolicy]

example : ForwardingDirectMatch.applyForwardingPolicy ⟨true,ascii "192.0.2.1",ascii "http",ascii "a.test:8080"⟩
    ⟨[⟨ascii "x-forwarded-for",ascii "198.51.100.7"⟩],0⟩ =
    .ok ⟨ascii "for=192.0.2.1;proto=http;host=\"a.test:8080\"",ascii "198.51.100.7, 192.0.2.1",ascii "http",
      ascii "a.test:8080"⟩ := by decide +kernel

end Polyguard
