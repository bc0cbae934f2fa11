import Polyguard.Model

/-! The five registered implementations of `parse_request_line`.
A loop over offsets runs on the unread suffix of the input together with its
offset, so that `input[offset]` is the head of the suffix and
`input.get(offset + 1)` the head of its tail. -/
namespace Polyguard
open Ascii Slices

def invalidRequestLine {α : Type} (reason : String) : Result α := .error (.invalidRequestLine reason)

@[simp,grind =] theorem invalidRequestLine_bind {α β : Type} (reason : String) (next : α → Result β) :
    (invalidRequestLine reason >>= next) = invalidRequestLine reason := rfl

namespace RequestLineState

def requestLineLimit : Nat := 8192
def methodLimit : Nat := 32
def http11 : List UInt8 := ascii "HTTP/1.1"
def tokenPunctuation : List UInt8 := ascii "!#$%&'*+-.^_`|~"

inductive LineBoundary where
  | complete (index : Nat)
  | incomplete
  | overLimit (actual : Nat)
  | bareEnding
  | control

inductive RequestParts where
  | complete (method target version : List UInt8)
  | missingVersion
  | invalidSpacing

inductive PartState where
  | method
  | target (methodEnd : Nat)
  | version (methodEnd targetEnd : Nat)
  | invalid

def isToken (byte : UInt8) : Bool := isAsciiAlphanumeric byte || tokenPunctuation.contains byte

def locateBoundaryFrom (index : Nat) : List UInt8 → LineBoundary
  | [] => .incomplete
  | byte :: bytes =>
    if index = requestLineLimit then
      if byte == 0x0d && bytes.head? == some 0x0a then .complete index
      else .overLimit (requestLineLimit + 1)
    else if byte == 0x0d && bytes.head? == some 0x0a then .complete index
    else if byte == 0x0d || byte == 0x0a then .bareEnding
    else if byte ≤ 8 || (11 ≤ byte && byte ≤ 31) || byte == 127 then .control
    else locateBoundaryFrom (index + 1) bytes

def locateBoundary (input : List UInt8) : LineBoundary := locateBoundaryFrom 0 input

def partStep (line : List UInt8) (state : PartState) (observed : UInt8 × Nat) : PartState :=
  let (byte,index) := observed
  if byte == 0x09 then .invalid
  else match state with
    | .method =>
      if byte == 0x20 then (if index = 0 then .invalid else .target index) else .method
    | .target methodEnd =>
      if byte == 0x20 then
        if (line)[index - 1]? == some 0x20 then .invalid else .version methodEnd index
      else .target methodEnd
    | .version methodEnd targetEnd => if byte == 0x20 then .invalid else .version methodEnd targetEnd
    | .invalid => .invalid

def partition (line : List UInt8) : RequestParts :=
  match line.zipIdx.foldl (partStep line) .method with
  | .version methodEnd targetEnd =>
    if targetEnd + 1 < line.length then
      .complete (slice line 0 methodEnd) (slice line (methodEnd + 1) targetEnd) (line.drop (targetEnd + 1))
    else .invalidSpacing
  | .target methodEnd => if methodEnd + 1 < line.length then .missingVersion else .invalidSpacing
  | _ => .invalidSpacing

def parseRequestLine (input : List UInt8) : Result RequestLine := do
  let lineEnd ← match locateBoundary input with
    | .complete index => .ok index
    | .incomplete => .error .incomplete
    | .overLimit actual => .error (.limitExceeded "request_line_bytes" requestLineLimit actual)
    | .bareEnding => invalidRequestLine "bare_line_ending"
    | .control => invalidRequestLine "control_character"
  let (method,target,version) ← match partition (slice input 0 lineEnd) with
    | .complete method target version => .ok (method,target,version)
    | .missingVersion => .error .unsupportedVersion
    | .invalidSpacing => invalidRequestLine "invalid_spacing"
  if !(1 ≤ method.length && method.length ≤ methodLimit) || !method.all isToken then
    .error .invalidMethod
  else if target.isEmpty then invalidRequestLine "invalid_spacing"
  else match target.find? (fun byte => byte == 0x23 || !isAsciiGraphic byte) with
    | some byte =>
      if byte == 0x23 then invalidTarget "fragment_not_allowed" else invalidTarget "non_visible_ascii"
    | none =>
      if version != http11 then .error .unsupportedVersion
      else .ok ⟨method.map toAsciiLowercase,target,.http11,lineEnd + 2⟩

end RequestLineState

namespace RequestLineDirect

def maxLineContent : Nat := 8192
def maxMethodBytes : Nat := 32

def isTokenByte (byte : UInt8) : Bool := isTchar byte

def findTerminatorFrom (offset : Nat) : List UInt8 → Result Nat
  | [] => .error .incomplete
  | byte :: bytes =>
    if offset = maxLineContent then
      if byte == 0x0d && bytes.head? == some 0x0a then .ok offset
      else .error (.limitExceeded "request_line_bytes" maxLineContent (maxLineContent + 1))
    else if byte == 0x0d then
      if bytes.head? == some 0x0a then .ok offset else invalidRequestLine "bare_line_ending"
    else if byte == 0x0a then invalidRequestLine "bare_line_ending"
    else if byte ≤ 8 || (11 ≤ byte && byte ≤ 12) || (14 ≤ byte && byte ≤ 31) || byte == 127 then
      invalidRequestLine "control_character"
    else findTerminatorFrom (offset + 1) bytes

def findTerminator (input : List UInt8) : Result Nat := findTerminatorFrom 0 input

def checkTarget : List UInt8 → Result Unit
  | [] => .ok ()
  | byte :: bytes =>
    if byte == 0x23 then invalidTarget "fragment_not_allowed"
    else if !(0x21 ≤ byte && byte ≤ 0x7e) then invalidTarget "non_visible_ascii"
    else checkTarget bytes

def parseRequestLine (input : List UInt8) : Result RequestLine := do
  let lineLength ← findTerminator input
  let line := input.take lineLength
  if line.contains 0x09 then invalidRequestLine "invalid_spacing"
  else match position (· == 0x20) line with
    | none => invalidRequestLine "invalid_spacing"
    | some methodEnd =>
      if methodEnd = 0 then invalidRequestLine "invalid_spacing"
      else
        let targetStart := methodEnd + 1
        match position (· == 0x20) (line.drop targetStart) with
        | none =>
          if targetStart < lineLength then .error .unsupportedVersion
          else invalidRequestLine "invalid_spacing"
        | some relativeTargetEnd =>
          let targetEnd := targetStart + relativeTargetEnd
          let versionStart := targetEnd + 1
          if targetEnd = targetStart then invalidRequestLine "invalid_spacing"
          else if versionStart = lineLength || (line.drop versionStart).contains 0x20 then
            invalidRequestLine "invalid_spacing"
          else
            let methodBytes := line.take methodEnd
            let targetBytes := slice line targetStart targetEnd
            if methodBytes.length > maxMethodBytes || !methodBytes.all isTokenByte then
              .error .invalidMethod
            else if targetBytes.length > maxLineContent then invalidTarget "non_visible_ascii"
            else do
              checkTarget targetBytes
              if line.drop versionStart != ascii "HTTP/1.1" then .error .unsupportedVersion
              else .ok ⟨collectChars (methodBytes.map toAsciiLowercase),targetBytes,.http11,lineLength + 2⟩

end RequestLineDirect

namespace RequestLineRuleWrappers

def requestLineLimit : Nat := 8192
def methodLimit : Nat := 32

inductive BoundaryRule where
  | data
  | carriageReturn
  | lineFeed
  | forbiddenControl
deriving DecidableEq

inductive TargetRule where
  | allowed
  | fragment
  | nonVisible
deriving DecidableEq

/-- Assignment of one value to the table entries `first..last`, as the `while` loops of the tables do. -/
def fill {α : Type} (rules : List α) (first last : Nat) (rule : α) : List α :=
  rules.zipIdx.map fun (old,index) => if first ≤ index ∧ index ≤ last then rule else old

def boundaryRules : List BoundaryRule :=
  ((((fill (List.replicate 128 .data) 0 31 .forbiddenControl).set 0x09 .data).set
    0x0d .carriageReturn).set 0x0a .lineFeed).set 127 .forbiddenControl

def methodRules : List Bool :=
  (ascii "!#$%&'*+-.^_`|~").foldl (fun rules byte => rules.set byte.toNat true)
    (fill (fill (fill (List.replicate 128 false) 0x30 0x39 true) 0x41 0x5a true) 0x61 0x7a true)

def targetRules : List TargetRule :=
  (fill (List.replicate 128 .nonVisible) 0x21 0x7e .allowed).set 0x23 .fragment

structure BoundaryCheckedLine where
  content : List UInt8
  bytesConsumed : Nat

structure GrammarParts where
  method : List UInt8
  target : List UInt8
  version : List UInt8
  bytesConsumed : Nat

def validateBoundaryFrom (input : List UInt8) (offset : Nat) : List UInt8 → Result BoundaryCheckedLine
  | [] => .error .incomplete
  | byte :: bytes =>
    if offset = requestLineLimit then
      if slice input offset (offset + 2) == [0x0d,0x0a] then .ok ⟨input.take offset,offset + 2⟩
      else .error (.limitExceeded "request_line_bytes" requestLineLimit (requestLineLimit + 1))
    else
      let rule := if isAscii byte then boundaryRules.getD byte.toNat .data else .data
      match rule with
      | .carriageReturn =>
        if input[offset + 1]? == some 0x0a then .ok ⟨input.take offset,offset + 2⟩
        else invalidRequestLine "bare_line_ending"
      | .lineFeed => invalidRequestLine "bare_line_ending"
      | .forbiddenControl => invalidRequestLine "control_character"
      | .data => validateBoundaryFrom input (offset + 1) bytes

def validateBoundary (input : List UInt8) : Result BoundaryCheckedLine :=
  validateBoundaryFrom input 0 (input.take (requestLineLimit + 1))

def applyGrammar (line : BoundaryCheckedLine) : Result GrammarParts :=
  if line.content.contains 0x09 then invalidRequestLine "invalid_spacing"
  else match line.content.splitOn 0x20 with
    | [method,target,version] =>
      if !method.isEmpty && !target.isEmpty && !version.isEmpty then
        .ok ⟨method,target,version,line.bytesConsumed⟩
      else invalidRequestLine "invalid_spacing"
    | [method,target] =>
      if !method.isEmpty && !target.isEmpty then .error .unsupportedVersion
      else invalidRequestLine "invalid_spacing"
    | _ => invalidRequestLine "invalid_spacing"

def validMethod (bytes : List UInt8) : Result (List UInt8) :=
  let validLength := decide (1 ≤ bytes.length) && decide (bytes.length ≤ methodLimit)
  let validBytes := bytes.all fun byte => isAscii byte && methodRules.getD byte.toNat false
  if !validLength || !validBytes then .error .invalidMethod else .ok (bytes.map toAsciiLowercase)

def checkTarget : List UInt8 → Result Unit
  | [] => .ok ()
  | byte :: bytes =>
    match if isAscii byte then targetRules.getD byte.toNat .nonVisible else .nonVisible with
    | .allowed => checkTarget bytes
    | .fragment => invalidTarget "fragment_not_allowed"
    | .nonVisible => invalidTarget "non_visible_ascii"

def validTarget (bytes : List UInt8) : Result (List UInt8) :=
  if bytes.isEmpty || bytes.length > requestLineLimit then invalidTarget "non_visible_ascii"
  else do
    checkTarget bytes
    .ok bytes

def validateVersion (version : List UInt8) : Result Unit :=
  if version == ascii "HTTP/1.1" then .ok () else .error .unsupportedVersion

def parseRequestLine (input : List UInt8) : Result RequestLine := do
  let line ← validateBoundary input
  let parts ← applyGrammar line
  let method ← validMethod parts.method
  let target ← validTarget parts.target
  validateVersion parts.version
  .ok ⟨method,target,.http11,parts.bytesConsumed⟩

end RequestLineRuleWrappers

namespace RequestLineDecisionMachine

def maxRequestLineBytes : Nat := 8192
def maxMethodBytes : Nat := 32
def http11Bytes : List UInt8 := ascii "HTTP/1.1"

def tokenBytes : List Bool :=
  (ascii "!#$%&'*+-.^_`|~").foldl (fun lookup byte => lookup.set byte.toNat true)
    (RequestLineRuleWrappers.fill (RequestLineRuleWrappers.fill (RequestLineRuleWrappers.fill
      (List.replicate 256 false) 0x30 0x39 true) 0x41 0x5a true) 0x61 0x7a true)

inductive TargetFault where
  | none
  | fragment
  | nonVisible

structure SemanticRecord where
  methodEnd : Nat
  methodIsToken : Bool
  targetEnd : Nat
  targetFault : TargetFault
  versionLen : Nat
  versionMatches : Bool

inductive Machine where
  | method (length : Nat) (isToken : Bool)
  | target (methodEnd : Nat) (methodIsToken : Bool) (length : Nat) (fault : TargetFault)
  | version (record : SemanticRecord)

inductive GrammarFailure where
  | invalidSpacing

def requestLineBoundaryFrom : List ((UInt8 × Option UInt8) × Nat) → Result Nat
  | [] => .error .incomplete
  | ((byte,following),offset) :: observations =>
    if offset = maxRequestLineBytes then
      if byte == 0x0d && following == some 0x0a then .ok offset
      else .error (.limitExceeded "request_line_bytes" maxRequestLineBytes (maxRequestLineBytes + 1))
    else if byte == 0x0d && following == some 0x0a then .ok offset
    else if byte == 0x0d || byte == 0x0a then invalidRequestLine "bare_line_ending"
    else if byte ≤ 8 || (11 ≤ byte && byte ≤ 12) || (14 ≤ byte && byte ≤ 31) || byte == 127 then
      invalidRequestLine "control_character"
    else requestLineBoundaryFrom observations

def requestLineBoundary (input : List UInt8) : Result Nat :=
  let observations := input.zip (input.tail.map some ++ [none])
  requestLineBoundaryFrom (observations.zipIdx.take (maxRequestLineBytes + 1))

def nextTargetFault (current : TargetFault) (byte : UInt8) : TargetFault :=
  match current with
  | .fragment | .nonVisible => current
  | .none =>
    if byte == 0x23 then .fragment else if !isAsciiGraphic byte then .nonVisible else .none

def transition (machine : Machine) (observed : UInt8 × Nat) : Except GrammarFailure Machine :=
  let (byte,offset) := observed
  if byte == 0x09 then .error .invalidSpacing
  else match machine with
    | .method length isToken =>
      if byte == 0x20 then
        if length = 0 then .error .invalidSpacing else .ok (.target offset isToken 0 .none)
      else .ok (.method (length + 1) (isToken && tokenBytes.getD byte.toNat false))
    | .target methodEnd methodIsToken length fault =>
      if byte == 0x20 then
        if length = 0 then .error .invalidSpacing
        else .ok (.version ⟨methodEnd,methodIsToken,offset,fault,0,true⟩)
      else .ok (.target methodEnd methodIsToken (length + 1) (nextTargetFault fault byte))
    | .version record =>
      if byte == 0x20 then .error .invalidSpacing
      else .ok (.version { record with
        versionMatches := record.versionMatches && http11Bytes[record.versionLen]? == some byte
        versionLen := record.versionLen + 1 })

def runDecisionMachine (line : List UInt8) : Result SemanticRecord :=
  match line.zipIdx.foldlM transition (.method 0 true) with
  | .error .invalidSpacing => invalidRequestLine "invalid_spacing"
  | .ok (.method _ _) => invalidRequestLine "invalid_spacing"
  | .ok (.target _ _ length _) =>
    if length = 0 then invalidRequestLine "invalid_spacing" else .error .unsupportedVersion
  | .ok (.version record) =>
    if record.versionLen = 0 then invalidRequestLine "invalid_spacing" else .ok record

def parseRequestLine (input : List UInt8) : Result RequestLine := do
  let contentLength ← requestLineBoundary input
  let line := input.take contentLength
  let record ← runDecisionMachine line
  if record.methodEnd > maxMethodBytes || !record.methodIsToken then .error .invalidMethod
  else match record.targetFault with
    | .fragment => invalidTarget "fragment_not_allowed"
    | .nonVisible => invalidTarget "non_visible_ascii"
    | .none =>
      if record.versionLen ≠ http11Bytes.length || !record.versionMatches then .error .unsupportedVersion
      else
        let targetStart := record.methodEnd + 1
        .ok ⟨collectChars ((line.take record.methodEnd).map toAsciiLowercase),
          slice line targetStart record.targetEnd,.http11,contentLength + 2⟩

end RequestLineDecisionMachine

namespace RequestLineReverseOffsets

def maxRequestLineBytes : Nat := 8192
def maxMethodBytes : Nat := 32

def isMethodToken (byte : UInt8) : Bool := RequestLineDirect.isTokenByte byte

def requestLineEndFrom (offset : Nat) : List UInt8 → Result Nat
  | [] => .error .incomplete
  | byte :: bytes =>
    -- The loop condition `offset <= MAX_REQUEST_LINE_BYTES` guards the body.
    if maxRequestLineBytes < offset then .error .incomplete
    else if offset = maxRequestLineBytes then
      if byte == 0x0d && bytes.head? == some 0x0a then .ok offset
      else .error (.limitExceeded "request_line_bytes" maxRequestLineBytes (maxRequestLineBytes + 1))
    else if byte == 0x0d then
      if bytes.head? == some 0x0a then .ok offset else invalidRequestLine "bare_line_ending"
    else if byte == 0x0a then invalidRequestLine "bare_line_ending"
    else if (byte < 0x20 && byte != 0x09) || byte == 127 then invalidRequestLine "control_character"
    else requestLineEndFrom (offset + 1) bytes

def requestLineEnd (input : List UInt8) : Result Nat := requestLineEndFrom 0 input

structure Spaces where
  count : Nat
  left : Nat
  right : Nat

def observeReversed (spaces : Spaces) (observed : UInt8 × Nat) : Result Spaces :=
  let (byte,offset) := observed
  if byte == 0x09 then invalidRequestLine "invalid_spacing"
  else if byte == 0x20 then
    .ok ⟨spaces.count + 1,offset,if spaces.count + 1 = 1 then offset else spaces.right⟩
  else .ok spaces

def checkMethod : List UInt8 → Result Unit
  | [] => .ok ()
  | byte :: bytes => if !isMethodToken byte then .error .invalidMethod else checkMethod bytes

def checkTarget : List UInt8 → Result Unit := RequestLineDirect.checkTarget

def parseRequestLine (input : List UInt8) : Result RequestLine := do
  let lineEnd ← requestLineEnd input
  let line := input.take lineEnd
  let spaces ← line.zipIdx.reverse.foldlM observeReversed ⟨0,0,0⟩
  if spaces.count = 1 && spaces.left ≠ 0 && spaces.left + 1 < lineEnd then .error .unsupportedVersion
  else if spaces.count ≠ 2 || spaces.left = 0 || spaces.right = spaces.left + 1 ||
      spaces.right + 1 = lineEnd then
    invalidRequestLine "invalid_spacing"
  else
    let methodBytes := line.take spaces.left
    if methodBytes.length > maxMethodBytes then .error .invalidMethod
    else do
      checkMethod methodBytes
      let targetBytes := slice line (spaces.left + 1) spaces.right
      if targetBytes.length > maxRequestLineBytes then invalidTarget "non_visible_ascii"
      else do
        checkTarget targetBytes
        if line.drop (spaces.right + 1) != ascii "HTTP/1.1" then .error .unsupportedVersion
        else .ok ⟨collectChars (methodBytes.map toAsciiLowercase),collectChars targetBytes,.http11,lineEnd + 2⟩

end RequestLineReverseOffsets

/-- The registered implementations, in registry order. -/
def requestLineImplementations : List (List UInt8 → Result RequestLine) :=
  [RequestLineState.parseRequestLine,RequestLineDirect.parseRequestLine,
    RequestLineRuleWrappers.parseRequestLine,RequestLineDecisionMachine.parseRequestLine,
    RequestLineReverseOffsets.parseRequestLine]

end Polyguard
