import Polyguard.Model
import Polyguard.Collections.Ordered

/-! The five registered implementations of `classify_telemetry_outcome`.
A code is a text of any bytes; the tables and their order are those of the source. -/
namespace Polyguard
open Ascii

inductive OutcomeCategory where
  | accepted
  | clientSyntax
  | ambiguousFraming
  | policyRejected
  | routeMissing
  | upstreamFailure
  | timeout
  | implementationDisagreement
  | internalFailure
deriving DecidableEq, Repr

structure TelemetryOutcome where
  category : OutcomeCategory
  success : Bool
deriving DecidableEq, Repr

/-- The length of the longest code. -/
def maxCodeBytes : Nat := (ascii "implementation_disagreement").length

def serializationInvariant {α : Type} : Result α := .error .serializationInvariant

namespace TelemetryRuleTable

inductive UpstreamConstraint where
  | either
  | mustNotBeReached
deriving DecidableEq

structure OutcomeRule where
  code : List UInt8
  category : OutcomeCategory
  success : Bool
  upstream : UpstreamConstraint

def rules : List OutcomeRule :=
  [⟨ascii "accepted",.accepted,true,.either⟩,
    ⟨ascii "client_syntax",.clientSyntax,false,.mustNotBeReached⟩,
    ⟨ascii "ambiguous_framing",.ambiguousFraming,false,.mustNotBeReached⟩,
    ⟨ascii "policy_rejected",.policyRejected,false,.mustNotBeReached⟩,
    ⟨ascii "route_missing",.routeMissing,false,.mustNotBeReached⟩,
    ⟨ascii "upstream_failure",.upstreamFailure,false,.either⟩,
    ⟨ascii "timeout",.timeout,false,.either⟩,
    ⟨ascii "implementation_disagreement",.implementationDisagreement,false,.mustNotBeReached⟩,
    ⟨ascii "internal_failure",.internalFailure,false,.either⟩]

def parse (code : List UInt8) : Result OutcomeRule :=
  if code.length > maxCodeBytes then serializationInvariant
  else match rules.find? (·.code == code) with
    | none => serializationInvariant
    | some rule => .ok rule

def validateUpstream (rule : OutcomeRule) (upstreamReached : Bool) : Result OutcomeRule :=
  if upstreamReached && rule.upstream == .mustNotBeReached then serializationInvariant else .ok rule

def classifyTelemetryOutcome (code : List UInt8) (upstreamReached : Bool) : Result TelemetryOutcome := do
  let recognized ← parse code
  let consistent ← validateUpstream recognized upstreamReached
  .ok ⟨consistent.category,consistent.success⟩

end TelemetryRuleTable

namespace TelemetrySymbolPhases

inductive OutcomeSymbol where
  | accepted
  | clientSyntax
  | ambiguousFraming
  | policyRejected
  | routeMissing
  | upstreamFailure
  | timeout
  | implementationDisagreement
  | internalFailure

def decodeBoundary (code : List UInt8) : Result OutcomeSymbol :=
  if code = ascii "accepted" then .ok .accepted
  else if code = ascii "client_syntax" then .ok .clientSyntax
  else if code = ascii "ambiguous_framing" then .ok .ambiguousFraming
  else if code = ascii "policy_rejected" then .ok .policyRejected
  else if code = ascii "route_missing" then .ok .routeMissing
  else if code = ascii "upstream_failure" then .ok .upstreamFailure
  else if code = ascii "timeout" then .ok .timeout
  else if code = ascii "implementation_disagreement" then .ok .implementationDisagreement
  else if code = ascii "internal_failure" then .ok .internalFailure
  else serializationInvariant

def permitsUpstream : OutcomeSymbol → Bool
  | .accepted => true
  | .upstreamFailure => true
  | .timeout => true
  | .internalFailure => true
  | _ => false

def project : OutcomeSymbol → TelemetryOutcome
  | .accepted => ⟨.accepted,true⟩
  | .clientSyntax => ⟨.clientSyntax,false⟩
  | .ambiguousFraming => ⟨.ambiguousFraming,false⟩
  | .policyRejected => ⟨.policyRejected,false⟩
  | .routeMissing => ⟨.routeMissing,false⟩
  | .upstreamFailure => ⟨.upstreamFailure,false⟩
  | .timeout => ⟨.timeout,false⟩
  | .implementationDisagreement => ⟨.implementationDisagreement,false⟩
  | .internalFailure => ⟨.internalFailure,false⟩

def classifyTelemetryOutcome (code : List UInt8) (upstreamReached : Bool) : Result TelemetryOutcome := do
  let symbol ← decodeBoundary code
  if upstreamReached && !permitsUpstream symbol then serializationInvariant else .ok (project symbol)

end TelemetrySymbolPhases

namespace TelemetryLengthDispatch

inductive ReachabilityChecked where
  | any (outcome : TelemetryOutcome)
  | beforeUpstream (outcome : TelemetryOutcome)

def ReachabilityChecked.release (checked : ReachabilityChecked) (upstreamReached : Bool) : Result TelemetryOutcome :=
  match checked with
  | .any outcome => .ok outcome
  | .beforeUpstream outcome => if upstreamReached then serializationInvariant else .ok outcome

def sevenByteCode (code : List UInt8) : Option ReachabilityChecked :=
  if code = ascii "timeout" then some (.any ⟨.timeout,false⟩) else none

def eightByteCode (code : List UInt8) : Option ReachabilityChecked :=
  if code = ascii "accepted" then some (.any ⟨.accepted,true⟩) else none

def thirteenByteCode (code : List UInt8) : Option ReachabilityChecked :=
  if code = ascii "client_syntax" then some (.beforeUpstream ⟨.clientSyntax,false⟩)
  else if code = ascii "route_missing" then some (.beforeUpstream ⟨.routeMissing,false⟩)
  else none

def fifteenByteCode (code : List UInt8) : Option ReachabilityChecked :=
  if code = ascii "policy_rejected" then some (.beforeUpstream ⟨.policyRejected,false⟩) else none

def sixteenByteCode (code : List UInt8) : Option ReachabilityChecked :=
  if code = ascii "upstream_failure" then some (.any ⟨.upstreamFailure,false⟩)
  else if code = ascii "internal_failure" then some (.any ⟨.internalFailure,false⟩)
  else none

def seventeenByteCode (code : List UInt8) : Option ReachabilityChecked :=
  if code = ascii "ambiguous_framing" then some (.beforeUpstream ⟨.ambiguousFraming,false⟩) else none

def twentySevenByteCode (code : List UInt8) : Option ReachabilityChecked :=
  if code = ascii "implementation_disagreement" then some (.beforeUpstream ⟨.implementationDisagreement,false⟩)
  else none

def lengthRules : List (Nat × (List UInt8 → Option ReachabilityChecked)) :=
  [(7,sevenByteCode),(8,eightByteCode),(13,thirteenByteCode),(15,fifteenByteCode),(16,sixteenByteCode),
    (17,seventeenByteCode),(27,twentySevenByteCode)]

def classifyTelemetryOutcome (code : List UInt8) (upstreamReached : Bool) : Result TelemetryOutcome :=
  if code.length > maxCodeBytes then serializationInvariant
  else match lengthRules.find? (·.1 == code.length) with
    | none => serializationInvariant
    | some rule =>
      match rule.2 code with
      | none => serializationInvariant
      | some classified => classified.release upstreamReached

end TelemetryLengthDispatch

namespace TelemetryFingerprintIndex

/-- The length, the first and the last byte, compared in this order. -/
structure CodeKey where
  length : Nat
  first : UInt8
  last : UInt8
deriving DecidableEq

def CodeKey.compare (left right : CodeKey) : Ordering :=
  ((cmp left.length right.length).then (cmp left.first right.first)).then (cmp left.last right.last)

/-- The key of a code that is not empty. -/
def keyOf (code : List UInt8) : CodeKey := ⟨code.length,code.headD 0,code.getLastD 0⟩

inductive FixedCategory where
  | accepted
  | clientSyntax
  | ambiguousFraming
  | policyRejected
  | routeMissing
  | upstreamFailure
  | timeout
  | implementationDisagreement
  | internalFailure

def FixedCategory.emit : FixedCategory → TelemetryOutcome
  | .accepted => ⟨.accepted,true⟩
  | .clientSyntax => ⟨.clientSyntax,false⟩
  | .ambiguousFraming => ⟨.ambiguousFraming,false⟩
  | .policyRejected => ⟨.policyRejected,false⟩
  | .routeMissing => ⟨.routeMissing,false⟩
  | .upstreamFailure => ⟨.upstreamFailure,false⟩
  | .timeout => ⟨.timeout,false⟩
  | .implementationDisagreement => ⟨.implementationDisagreement,false⟩
  | .internalFailure => ⟨.internalFailure,false⟩

structure Rule where
  key : CodeKey
  literal : List UInt8
  category : FixedCategory
  permitsUpstream : Bool

/-- Sorted by key for the binary search. -/
def rules : List Rule :=
  [⟨⟨7,0x74,0x74⟩,ascii "timeout",.timeout,true⟩,
    ⟨⟨8,0x61,0x64⟩,ascii "accepted",.accepted,true⟩,
    ⟨⟨13,0x63,0x78⟩,ascii "client_syntax",.clientSyntax,false⟩,
    ⟨⟨13,0x72,0x67⟩,ascii "route_missing",.routeMissing,false⟩,
    ⟨⟨15,0x70,0x64⟩,ascii "policy_rejected",.policyRejected,false⟩,
    ⟨⟨16,0x69,0x65⟩,ascii "internal_failure",.internalFailure,true⟩,
    ⟨⟨16,0x75,0x65⟩,ascii "upstream_failure",.upstreamFailure,true⟩,
    ⟨⟨17,0x61,0x67⟩,ascii "ambiguous_framing",.ambiguousFraming,false⟩,
    ⟨⟨27,0x69,0x74⟩,ascii "implementation_disagreement",.implementationDisagreement,false⟩]

def locate (code : List UInt8) : Result Rule :=
  match (Ordered.binarySearchBy (fun rule : Rule => rule.key.compare (keyOf code)) rules).bind (rules[·]?) with
  | none => serializationInvariant
  | some rule => if code ≠ rule.literal then serializationInvariant else .ok rule

def emit (rule : Rule) (upstreamReached : Bool) : Result TelemetryOutcome :=
  if upstreamReached && !rule.permitsUpstream then serializationInvariant else .ok rule.category.emit

def classifyTelemetryOutcome (code : List UInt8) (upstreamReached : Bool) : Result TelemetryOutcome :=
  if code.isEmpty || code.length > maxCodeBytes then serializationInvariant
  else do
    let matched ← locate code
    emit matched upstreamReached

end TelemetryFingerprintIndex

namespace TelemetryWordComposition

inductive Word where
  | accepted
  | ambiguous
  | client
  | disagreement
  | failure
  | framing
  | implementation
  | internal
  | missing
  | policy
  | rejected
  | route
  | grammar
  | timeout
  | upstream
deriving DecidableEq

structure Words where
  first : Word
  second : Option Word

inductive Reachability where
  | either
  | beforeUpstream
deriving DecidableEq

structure ValidatedOutcome where
  category : OutcomeCategory
  reachability : Reachability

def parseWord (word : List UInt8) : Result Word :=
  if word = ascii "accepted" then .ok .accepted
  else if word = ascii "ambiguous" then .ok .ambiguous
  else if word = ascii "client" then .ok .client
  else if word = ascii "disagreement" then .ok .disagreement
  else if word = ascii "failure" then .ok .failure
  else if word = ascii "framing" then .ok .framing
  else if word = ascii "implementation" then .ok .implementation
  else if word = ascii "internal" then .ok .internal
  else if word = ascii "missing" then .ok .missing
  else if word = ascii "policy" then .ok .policy
  else if word = ascii "rejected" then .ok .rejected
  else if word = ascii "route" then .ok .route
  else if word = ascii "syntax" then .ok .grammar
  else if word = ascii "timeout" then .ok .timeout
  else if word = ascii "upstream" then .ok .upstream
  else serializationInvariant

/-- `Option::map(parse_word).transpose()` on the second piece. -/
def parseSecond : Option (List UInt8) → Result (Option Word)
  | none => .ok none
  | some piece => do
    let word ← parseWord piece
    .ok (some word)

def splitWords (code : List UInt8) : Result Words :=
  if code.isEmpty || code.length > maxCodeBytes || !code.all (fun byte => byte == 0x5f || isAsciiLowercase byte) then
    serializationInvariant
  else do
    let pieces := code.splitOn 0x5f
    let first ← parseWord (pieces.headD [])
    let second ← parseSecond pieces[1]?
    if pieces[2]?.isSome then serializationInvariant else .ok ⟨first,second⟩

def compose (words : Words) : Result ValidatedOutcome :=
  match words.first,words.second with
  | .accepted,none => .ok ⟨.accepted,.either⟩
  | .client,some .grammar => .ok ⟨.clientSyntax,.beforeUpstream⟩
  | .ambiguous,some .framing => .ok ⟨.ambiguousFraming,.beforeUpstream⟩
  | .policy,some .rejected => .ok ⟨.policyRejected,.beforeUpstream⟩
  | .route,some .missing => .ok ⟨.routeMissing,.beforeUpstream⟩
  | .upstream,some .failure => .ok ⟨.upstreamFailure,.either⟩
  | .timeout,none => .ok ⟨.timeout,.either⟩
  | .implementation,some .disagreement => .ok ⟨.implementationDisagreement,.beforeUpstream⟩
  | .internal,some .failure => .ok ⟨.internalFailure,.either⟩
  | _,_ => serializationInvariant

def validateReachability (outcome : ValidatedOutcome) (upstreamReached : Bool) : Result Unit :=
  if upstreamReached && outcome.reachability == .beforeUpstream then serializationInvariant else .ok ()

def project (outcome : ValidatedOutcome) : TelemetryOutcome := ⟨outcome.category,outcome.category == .accepted⟩

def classifyTelemetryOutcome (code : List UInt8) (upstreamReached : Bool) : Result TelemetryOutcome := do
  let words ← splitWords code
  let outcome ← compose words
  validateReachability outcome upstreamReached
  .ok (project outcome)

end TelemetryWordComposition

/-- The registered implementations, in registry order. -/
def telemetryImplementations : List (List UInt8 → Bool → Result TelemetryOutcome) :=
  [TelemetryRuleTable.classifyTelemetryOutcome,TelemetrySymbolPhases.classifyTelemetryOutcome,
    TelemetryLengthDispatch.classifyTelemetryOutcome,TelemetryFingerprintIndex.classifyTelemetryOutcome,
    TelemetryWordComposition.classifyTelemetryOutcome]

end Polyguard
