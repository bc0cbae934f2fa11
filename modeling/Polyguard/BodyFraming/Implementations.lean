import Polyguard.Model

/-! The five registered implementations of `determine_body_framing`.
The request argument is not read by any of them. A loop that searches the next
comma runs on the unread suffix with a bound on its length as fuel. -/
namespace Polyguard
open Ascii Slices

def contentLengthLimit : Nat := 16777216

def excessiveLength (actual : Nat) : PolyguardError :=
  .limitExceeded "content_length" contentLengthLimit actual

def contentLengthName : List UInt8 := ascii "content-length"

def transferEncodingName : List UInt8 := ascii "transfer-encoding"

/-- One step of a decimal value, `None` when the 64-bit value overflows. -/
def pushDigit (value : Nat) (digit : UInt8) : Option Nat :=
  (checkedMul value 10).bind (checkedAdd · (digit - 0x30).toNat)

/-- The digit loop shared by the implementations that stop at the first bad byte. -/
def decimalFrom (value : Nat) : List UInt8 → Result Nat
  | [] => .ok value
  | byte :: bytes =>
    if !isAsciiDigit byte then .error .invalidContentLength
    else match pushDigit value byte with
      | none => .error .invalidContentLength
      | some value => decimalFrom value bytes

/-- A trimmed member as a bounded length. -/
def boundedDecimal (member : List UInt8) : Result Nat :=
  if member.isEmpty then .error .invalidContentLength
  else do
    let value ← decimalFrom 0 member
    if value > contentLengthLimit then .error (excessiveLength value) else .ok value

namespace BodyFramingDirect

inductive FramingMetadata where
  | absent
  | contentLength
  | transferEncoding
  | ambiguous

def classifyFrom (contentLengthPresent transferEncodingPresent : Bool) : List HeaderField → FramingMetadata
  | [] =>
    if contentLengthPresent then .contentLength
    else if transferEncodingPresent then .transferEncoding else .absent
  | field :: fields =>
    let (contentLengthPresent,transferEncodingPresent) :=
      if field.name == contentLengthName then (true,transferEncodingPresent)
      else if field.name == transferEncodingName then (contentLengthPresent,true)
      else (contentLengthPresent,transferEncodingPresent)
    if contentLengthPresent && transferEncodingPresent then .ambiguous
    else classifyFrom contentLengthPresent transferEncodingPresent fields

def classifyMetadata (headers : HeaderBlock) : FramingMetadata := classifyFrom false false headers.fields

/-- Two index loops: past the leading OWS, then back over the trailing OWS. -/
def withoutOws (bytes : List UInt8) : List UInt8 := (bytes.dropWhile isOws).rdropWhile isOws

def parseDecimalLength (raw : List UInt8) : Result Nat := boundedDecimal (withoutOws raw)

def validateMembers (accepted : Option Nat) : Nat → List UInt8 → Result (Option Nat)
  | 0,_ => .ok accepted
  | fuel + 1,remaining => do
    let memberEnd := (position (· == 0x2c) remaining).getD remaining.length
    let parsed ← parseDecimalLength (remaining.take memberEnd)
    if accepted.any (· ≠ parsed) then .error .conflictingContentLength
    else if memberEnd = remaining.length then .ok (some parsed)
    else validateMembers (some parsed) fuel (remaining.drop (memberEnd + 1))

def validateFields (accepted : Option Nat) : List HeaderField → Result (Option Nat)
  | [] => .ok accepted
  | field :: fields =>
    if field.name != contentLengthName then validateFields accepted fields
    else do
      let accepted ← validateMembers accepted (field.value.length + 1) field.value
      validateFields accepted fields

def validateConsistent (headers : HeaderBlock) : Result Nat := do
  match ← validateFields none headers.fields with
  | some length => .ok length
  | none => .error .invalidContentLength

def countMembers (membersSeen : Nat) : Nat → List UInt8 → Result Nat
  | 0,_ => .ok membersSeen
  | fuel + 1,remaining =>
    let memberEnd := (position (· == 0x2c) remaining).getD remaining.length
    let member := withoutOws (remaining.take memberEnd)
    let membersSeen := membersSeen + 1
    if membersSeen ≠ 1 || !eqIgnoreAsciiCase member (ascii "chunked") then .error .invalidTransferEncoding
    else if memberEnd = remaining.length then .ok membersSeen
    else countMembers membersSeen fuel (remaining.drop (memberEnd + 1))

def countFields (membersSeen : Nat) : List HeaderField → Result Nat
  | [] => .ok membersSeen
  | field :: fields =>
    if field.name != transferEncodingName then countFields membersSeen fields
    else do
      let membersSeen ← countMembers membersSeen (field.value.length + 1) field.value
      countFields membersSeen fields

def validateChunked (headers : HeaderBlock) : Result Unit := do
  let membersSeen ← countFields 0 headers.fields
  if membersSeen ≠ 1 then .error .invalidTransferEncoding else .ok ()

def determineBodyFraming (headers : HeaderBlock) : Result BodyFraming :=
  match classifyMetadata headers with
  | .transferEncoding => do
    validateChunked headers
    .ok .chunked
  | .contentLength => do
    let length ← validateConsistent headers
    if length = 0 then .ok .none else .ok (.contentLength length)
  | .absent => .ok .none
  | .ambiguous => .error .ambiguousFraming

end BodyFramingDirect

namespace BodyFramingTransition

def hasContentLength : UInt8 := 0b01
def hasTransferEncoding : UInt8 := 0b10
def hasBoth : UInt8 := hasContentLength ||| hasTransferEncoding

def trimOws (bytes : List UInt8) : List UInt8 :=
  let start := (position (fun byte => !isOws byte) bytes).getD bytes.length
  let stop := ((rposition (fun byte => !isOws byte) bytes).map (· + 1)).getD start
  slice bytes start stop

def contentLengthMembers (headers : HeaderBlock) : List (List UInt8) :=
  (headers.fields.filter (·.name == contentLengthName)).flatMap (·.value.splitOn 0x2c)

def appendDigit (value : Nat) (digit : UInt8) : Result Nat :=
  match pushDigit value digit with
  | none => .error .invalidContentLength
  | some value => .ok value

def acceptContentLength (accepted : Option Nat) (raw : List UInt8) : Result (Option Nat) :=
  let member := trimOws raw
  if member.isEmpty || !member.all isAsciiDigit then .error .invalidContentLength
  else do
    let value ← member.foldlM appendDigit 0
    if value > contentLengthLimit then .error (excessiveLength value)
    else if accepted.any (· ≠ value) then .error .conflictingContentLength
    else .ok (some value)

def acceptCoding (count : Nat) (raw : List UInt8) : Result Nat :=
  let member := trimOws raw
  if !eqIgnoreAsciiCase member (ascii "chunked") || count ≠ 0 then .error .invalidTransferEncoding
  else .ok (count + 1)

def validateTransferEncoding (headers : HeaderBlock) : Result Unit := do
  let members := (headers.fields.filter (·.name == transferEncodingName)).flatMap (·.value.splitOn 0x2c)
  let memberCount ← members.foldlM acceptCoding 0
  if memberCount = 1 then .ok () else .error .invalidTransferEncoding

def observeField (state : UInt8) (field : HeaderField) : UInt8 :=
  state ||| (if field.name == contentLengthName then hasContentLength
    else if field.name == transferEncodingName then hasTransferEncoding else 0)

def metadataState (headers : HeaderBlock) : UInt8 := headers.fields.foldl observeField 0

def determineBodyFraming (headers : HeaderBlock) : Result BodyFraming :=
  let state := metadataState headers
  if state == hasBoth then .error .ambiguousFraming
  else if state == hasTransferEncoding then do
    validateTransferEncoding headers
    .ok .chunked
  else if state == hasContentLength then do
    match ← (contentLengthMembers headers).foldlM acceptContentLength none with
    | none => .ok .none
    | some length => if length = 0 then .ok .none else .ok (.contentLength length)
  else .ok .none

end BodyFramingTransition

namespace BodyFramingStreamMachine

def sawContentLength : UInt8 := 0b01
def sawTransferEncoding : UInt8 := 0b10

inductive Fault where
  | noFault
  | badContentLength
  | conflictingLength
  | excessiveLength
  | badTransferEncoding
deriving DecidableEq

structure FramingMachine where
  presence : UInt8
  agreedLength : Nat
  hasAgreedLength : Bool
  transferMembers : Nat
  fault : Fault
  faultActual : Nat

def trimOws (bytes : List UInt8) : List UInt8 :=
  let first := (position (fun byte => !isOws byte) bytes).getD bytes.length
  let width := ((rposition (fun byte => !isOws byte) (bytes.drop first)).map (· + 1)).getD 0
  slice bytes first (first + width)

def appendDigit (value : Nat) (byte : UInt8) : Option Nat :=
  if !isAsciiDigit byte then none else pushDigit value byte

def decimalValue (bytes : List UInt8) : Option Nat :=
  if bytes.isEmpty then none else bytes.foldlM appendDigit 0

def rememberFault (machine : FramingMachine) (fault : Fault) (actual : Nat) : FramingMachine :=
  if machine.fault = .noFault then { machine with fault := fault, faultActual := actual } else machine

def observeLength (machine : FramingMachine) (raw : List UInt8) : FramingMachine :=
  match decimalValue (trimOws raw) with
  | some value =>
    if value > contentLengthLimit then rememberFault machine .excessiveLength value
    else if machine.hasAgreedLength && machine.agreedLength ≠ value then
      rememberFault machine .conflictingLength 0
    else { machine with agreedLength := value, hasAgreedLength := true }
  | none => rememberFault machine .badContentLength 0

def observeCoding (machine : FramingMachine) (raw : List UInt8) : FramingMachine :=
  let machine := { machine with transferMembers := machine.transferMembers + 1 }
  if machine.transferMembers ≠ 1 || !eqIgnoreAsciiCase (trimOws raw) (ascii "chunked") then
    rememberFault machine .badTransferEncoding 0
  else machine

def transitionField (machine : FramingMachine) (field : HeaderField) : FramingMachine :=
  if field.name == contentLengthName then
    (field.value.splitOn 0x2c).foldl observeLength
      { machine with presence := machine.presence ||| sawContentLength }
  else if field.name == transferEncodingName then
    (field.value.splitOn 0x2c).foldl observeCoding
      { machine with presence := machine.presence ||| sawTransferEncoding }
  else machine

def finish (machine : FramingMachine) : Result BodyFraming :=
  if machine.presence == (sawContentLength ||| sawTransferEncoding) then .error .ambiguousFraming
  else match machine.fault with
    | .badContentLength => .error .invalidContentLength
    | .conflictingLength => .error .conflictingContentLength
    | .excessiveLength => .error (Polyguard.excessiveLength machine.faultActual)
    | .badTransferEncoding => .error .invalidTransferEncoding
    | .noFault =>
      if machine.presence == sawTransferEncoding then
        if machine.transferMembers = 1 then .ok .chunked else .error .invalidTransferEncoding
      else if machine.presence == sawContentLength && machine.hasAgreedLength &&
          machine.agreedLength ≠ 0 then
        .ok (.contentLength machine.agreedLength)
      else .ok .none

def determineBodyFraming (headers : HeaderBlock) : Result BodyFraming :=
  finish (headers.fields.foldl transitionField ⟨0,0,false,0,.noFault,0⟩)

end BodyFramingStreamMachine

namespace BodyFramingRuleMatrix

structure PresenceKey where
  contentLength : Bool
  transferEncoding : Bool
deriving DecidableEq

structure HeaderInventory where
  key : PresenceKey
  contentLengthFields : Nat
  transferEncodingFields : Nat

inductive ValidationRule where
  | noMetadata
  | contentLength
  | transferEncoding
  | ambiguous

structure RuleRow where
  key : PresenceKey
  validation : ValidationRule

def ruleMatrix : List RuleRow :=
  [⟨⟨false,false⟩,.noMetadata⟩,⟨⟨true,false⟩,.contentLength⟩,
    ⟨⟨false,true⟩,.transferEncoding⟩,⟨⟨true,true⟩,.ambiguous⟩]

inductive ValidatedFraming where
  | noBody
  | fixed (length : Nat)
  | chunked

def countField (counts : Nat × Nat) (field : HeaderField) : Nat × Nat :=
  if field.name == contentLengthName then (counts.1 + 1,counts.2)
  else if field.name == transferEncodingName then (counts.1,counts.2 + 1) else counts

def inventory (headers : HeaderBlock) : HeaderInventory :=
  let (contentLengthFields,transferEncodingFields) :=
    headers.fields.foldl countField (0,0)
  ⟨⟨decide (contentLengthFields ≠ 0),decide (transferEncodingFields ≠ 0)⟩,
    contentLengthFields,transferEncodingFields⟩

/-- The matrix has a row for every key; the fallback stands for the `expect`. -/
def lookupRule (key : PresenceKey) : ValidationRule :=
  ((ruleMatrix.find? (·.key = key)).map (·.validation)).getD .ambiguous

def trimOws (bytes : List UInt8) : List UInt8 :=
  let leading := (bytes.takeWhile isOws).length
  let trailing := ((bytes.drop leading).reverse.takeWhile isOws).length
  slice bytes leading (bytes.length - trailing)

def parseDecimalMember (raw : List UInt8) : Result Nat := boundedDecimal (trimOws raw)

/-- The loop over the boundaries `boundary..=raw.len()`; `member` is `raw[member_start..boundary]`. -/
def validateBoundaries (agreed : Option Nat) (member : List UInt8) : List UInt8 → Result (Option Nat)
  | [] => do
    let value ← parseDecimalMember member
    if agreed.any (· ≠ value) then .error .conflictingContentLength else .ok (some value)
  | byte :: bytes =>
    if byte != 0x2c then validateBoundaries agreed (member ++ [byte]) bytes
    else do
      let value ← parseDecimalMember member
      if agreed.any (· ≠ value) then .error .conflictingContentLength
      else validateBoundaries (some value) [] bytes

def validateContentLengthField (raw : List UInt8) (agreed : Option Nat) : Result Nat := do
  match ← validateBoundaries agreed [] raw with
  | some length => .ok length
  | none => .error .invalidContentLength

def validateFields (agreed : Option Nat) : List HeaderField → Result (Option Nat)
  | [] => .ok agreed
  | field :: fields =>
    if field.name != contentLengthName then validateFields agreed fields
    else do
      let length ← validateContentLengthField field.value agreed
      validateFields (some length) fields

def validateContentLengths (headers : HeaderBlock) : Result Nat := do
  match ← validateFields none headers.fields with
  | some length => .ok length
  | none => .error .invalidContentLength

def validateTransferEncoding (inventory : HeaderInventory) (headers : HeaderBlock) : Result Unit :=
  if inventory.transferEncodingFields ≠ 1 then .error .invalidTransferEncoding
  else match headers.fields.find? (·.name == transferEncodingName) with
    | none => .error .invalidTransferEncoding
    | some field =>
      if eqIgnoreAsciiCase (trimOws field.value) (ascii "chunked") then .ok ()
      else .error .invalidTransferEncoding

def validateRule (rule : ValidationRule) (inventory : HeaderInventory) (headers : HeaderBlock) :
    Result ValidatedFraming :=
  match rule with
  | .noMetadata => .ok .noBody
  | .ambiguous => .error .ambiguousFraming
  | .contentLength => do
    let length ← validateContentLengths headers
    if length = 0 then .ok .noBody else .ok (.fixed length)
  | .transferEncoding => do
    validateTransferEncoding inventory headers
    .ok .chunked

def render : ValidatedFraming → BodyFraming
  | .noBody => .none
  | .fixed length => .contentLength length
  | .chunked => .chunked

def determineBodyFraming (headers : HeaderBlock) : Result BodyFraming := do
  let inventory := inventory headers
  let validated ← validateRule (lookupRule inventory.key) inventory headers
  .ok (render validated)

end BodyFramingRuleMatrix

namespace BodyFramingBoundedDomain

inductive ValidatedMetadata where
  | noBody
  | fixed (length : Nat)
  | chunked

def trimOws (bytes : List UInt8) : List UInt8 :=
  let start := (position (fun byte => !isOws byte) bytes).getD bytes.length
  let stop := ((rposition (fun byte => !isOws byte) bytes).map (· + 1)).getD start
  slice bytes start stop

/-- The items of the `CommaMembers` iterator. -/
def commaMembers : Nat → List UInt8 → List (List UInt8)
  | 0,_ => []
  | fuel + 1,remaining =>
    match position (· == 0x2c) remaining with
    | some comma => remaining.take comma :: commaMembers fuel (remaining.drop (comma + 1))
    | none => [remaining]

def parse (raw : List UInt8) : Result Nat := boundedDecimal (trimOws raw)

def accept (agreed : Option Nat) (candidate : Nat) : Result (Option Nat) :=
  if agreed.any (· ≠ candidate) then .error .conflictingContentLength else .ok (some candidate)

def acceptMembers (agreed : Option Nat) : List (List UInt8) → Result (Option Nat)
  | [] => .ok agreed
  | member :: members => do
    let candidate ← parse member
    let agreed ← accept agreed candidate
    acceptMembers agreed members

def acceptFields (agreed : Option Nat) : List HeaderField → Result (Option Nat)
  | [] => .ok agreed
  | field :: fields =>
    if field.name != contentLengthName then acceptFields agreed fields
    else do
      let agreed ← acceptMembers agreed (commaMembers (field.value.length + 1) field.value)
      acceptFields agreed fields

def validateContentLengths (headers : HeaderBlock) : Result ValidatedMetadata := do
  match ← acceptFields none headers.fields with
  | none => .error .invalidContentLength
  | some length => if length = 0 then .ok .noBody else .ok (.fixed length)

def validateChunked (headers : HeaderBlock) (transferEncodingFields : Nat) : Result ValidatedMetadata :=
  if transferEncodingFields ≠ 1 then .error .invalidTransferEncoding
  else match headers.fields.find? (·.name == transferEncodingName) with
    | none => .error .invalidTransferEncoding
    | some field =>
      if !eqIgnoreAsciiCase (trimOws field.value) (ascii "chunked") then .error .invalidTransferEncoding
      else .ok .chunked

def validateBoundary (headers : HeaderBlock) : Result ValidatedMetadata :=
  let contentLengthFields := headers.fields.countP (·.name == contentLengthName)
  let transferEncodingFields := headers.fields.countP (·.name == transferEncodingName)
  if contentLengthFields ≠ 0 && transferEncodingFields ≠ 0 then .error .ambiguousFraming
  else if transferEncodingFields ≠ 0 then validateChunked headers transferEncodingFields
  else if contentLengthFields = 0 then .ok .noBody
  else validateContentLengths headers

def determineBodyFraming (headers : HeaderBlock) : Result BodyFraming := do
  match ← validateBoundary headers with
  | .noBody => .ok .none
  | .fixed length => .ok (.contentLength length)
  | .chunked => .ok .chunked

end BodyFramingBoundedDomain

/-- The registered implementations, in registry order. -/
def bodyFramingImplementations : List (HeaderBlock → Result BodyFraming) :=
  [BodyFramingTransition.determineBodyFraming,BodyFramingDirect.determineBodyFraming,
    BodyFramingRuleMatrix.determineBodyFraming,BodyFramingStreamMachine.determineBodyFraming,
    BodyFramingBoundedDomain.determineBodyFraming]

end Polyguard
