import Polyguard.Model

/-! The five registered implementations of `parse_header_section`.
A scan by cursor keeps the whole input, the cursor and the unread suffix. A loop
over lines runs at most once for each admitted field and once more, which is
the fuel of its recursion. -/
namespace Polyguard
open Ascii Slices

def headerSectionBytes : Nat := 32768
def headerFields : Nat := 128
def headerNameBytes : Nat := 128
def headerValueBytes : Nat := 8192

def invalidHeader {α : Type} (index : Nat) (reason : String) : Result α := .error (.invalidHeader index reason)

def sectionLimit {α : Type} (actual : Nat) : Result α :=
  .error (.limitExceeded "header_section_bytes" headerSectionBytes actual)

def nameLimit {α : Type} (actual : Nat) : Result α :=
  .error (.limitExceeded "header_name_bytes" headerNameBytes actual)

def valueLimit {α : Type} (actual : Nat) : Result α :=
  .error (.limitExceeded "header_value_bytes" headerValueBytes actual)

@[simp,grind =] theorem invalidHeader_bind {α β : Type} (index : Nat) (reason : String) (next : α → Result β) :
    (invalidHeader index reason >>= next) = invalidHeader index reason := rfl

@[simp,grind =] theorem sectionLimit_bind {α β : Type} (actual : Nat) (next : α → Result β) :
    (sectionLimit actual >>= next) = sectionLimit actual := rfl

@[simp,grind =] theorem nameLimit_bind {α β : Type} (actual : Nat) (next : α → Result β) :
    (nameLimit actual >>= next) = nameLimit actual := rfl

@[simp,grind =] theorem valueLimit_bind {α β : Type} (actual : Nat) (next : α → Result β) :
    (valueLimit actual >>= next) = valueLimit actual := rfl

def isBlank (byte : UInt8) : Bool := byte == 0x20 || byte == 0x09

def isValueByte (byte : UInt8) : Bool := byte == 0x09 || (0x20 ≤ byte && byte ≤ 0x7e) || 0x80 ≤ byte

namespace HeaderTypedCursor

inductive FramedLine where
  | field (bytes : List UInt8) (next : Nat)
  | terminator (next : Nat)

/-- The scan of `frame_next_line`; the list is `input[position..]`. -/
def frameFrom (input : List UInt8) (start position : Nat) : List UInt8 → Result FramedLine
  | [] => .error .incomplete
  | byte :: bytes =>
    if position = headerSectionBytes then sectionLimit (headerSectionBytes + 1)
    else if byte == 0x0a then invalidHeader start "bare_line_ending"
    else if byte != 0x0d then frameFrom input start (position + 1) bytes
    else if bytes.head? != some 0x0a then invalidHeader start "bare_line_ending"
    else
      let next := position + 2
      if next > headerSectionBytes then sectionLimit next
      else if position = start then .ok (.terminator next)
      else .ok (.field (slice input start position) next)

def frameNextLine (input : List UInt8) (cursor : Nat) : Result FramedLine :=
  frameFrom input cursor cursor (input.drop cursor)

def canonicalName (bytes : List UInt8) (lineStart : Nat) : Result (List UInt8) :=
  if bytes.isEmpty then invalidHeader lineStart "invalid_name"
  else if bytes.length > headerNameBytes then nameLimit bytes.length
  else if bytes.any isBlank then invalidHeader lineStart "whitespace_before_colon"
  else if bytes.any (fun byte => !isTchar byte) then invalidHeader lineStart "invalid_name"
  else .ok (collectChars (bytes.map toAsciiLowercase))

def trimmedValue (bytes : List UInt8) (lineStart : Nat) : Result (List UInt8) :=
  if bytes.any (fun byte => !isValueByte byte) then invalidHeader lineStart "invalid_value_byte"
  else
    let leading := (bytes.takeWhile isBlank).length
    let trailing := (bytes.reverse.takeWhile isBlank).length
    let trimmedLen := bytes.length - (leading + trailing)
    if trimmedLen > headerValueBytes then valueLimit trimmedLen
    else .ok (slice bytes leading (leading + trimmedLen))

def parseFrom (input : List UInt8) : Nat → Nat → List HeaderField → Result HeaderBlock
  | 0,_,_ => .error .tooManyHeaders
  | fuel + 1,cursor,fields => do
    match ← frameNextLine input cursor with
    | .terminator next => .ok ⟨fields,next⟩
    | .field bytes next =>
      if fields.length = headerFields then .error .tooManyHeaders
      else if bytes.head?.any isBlank then invalidHeader cursor "obs_fold"
      else match position (· == 0x3a) bytes with
        | none => invalidHeader cursor "invalid_name"
        | some colon => do
          let name ← canonicalName (bytes.take colon) cursor
          let value ← trimmedValue (bytes.drop (colon + 1)) cursor
          parseFrom input fuel next (fields ++ [⟨name,value⟩])

def parseHeaderSection (input : List UInt8) : Result HeaderBlock := parseFrom input (headerFields + 1) 0 []

end HeaderTypedCursor

namespace HeaderStatePhases

inductive NameClass where
  | token
  | containsWhitespace
  | invalid
deriving DecidableEq

inductive LexState where
  | lineStart
  | name (lineStart nameStart : Nat) (nameClass : NameClass)
  | value (lineStart nameStart nameEnd : Nat) (valueStart : Option Nat) (valueEnd : Nat)

structure FieldPlan where
  nameStart : Nat
  nameEnd : Nat
  valueStart : Nat
  valueEnd : Nat

/-- The loop of `prove_section_boundary`; `atStart` tells `LineStart` from `LineBody`. -/
def proveFrom (atStart : Bool) (offset cursor : Nat) : List UInt8 → Result Nat
  | [] => .error .incomplete
  | byte :: bytes =>
    if cursor = headerSectionBytes then sectionLimit (headerSectionBytes + 1)
    else if byte == 0x0a then invalidHeader offset "bare_line_ending"
    else if byte == 0x0d then
      match bytes with
      | [] => invalidHeader offset "bare_line_ending"
      | following :: rest =>
        if following != 0x0a then invalidHeader offset "bare_line_ending"
        else
          let next := cursor + 2
          if next > headerSectionBytes then sectionLimit next
          else if atStart then .ok next
          else proveFrom true next next rest
    else proveFrom false offset (cursor + 1) bytes

def proveSectionBoundary (input : List UInt8) : Result Nat := proveFrom true 0 0 input

def classifyNameByte (byte : UInt8) : NameClass :=
  if isTchar byte then .token else if isBlank byte then .containsWhitespace else .invalid

def advanceNameClass (nameClass : NameClass) (byte : UInt8) : NameClass :=
  match nameClass,classifyNameByte byte with
  | .containsWhitespace,_ | _,.containsWhitespace => .containsWhitespace
  | .invalid,_ | _,.invalid => .invalid
  | .token,.token => .token

def validateName (nameStart nameEnd : Nat) (nameClass : NameClass) (lineStart : Nat) : Result Unit :=
  let length := nameEnd - nameStart
  if length > headerNameBytes then nameLimit length
  else match nameClass with
    | .token => .ok ()
    | .containsWhitespace => invalidHeader lineStart "whitespace_before_colon"
    | .invalid => invalidHeader lineStart "invalid_name"

/-- The loop of `validate_field_grammar`; the list is `input[cursor..fields_end]`. -/
def validateFrom (state : LexState) (cursor : Nat) (plans : List FieldPlan) :
    List UInt8 → Result (List FieldPlan)
  | [] => .ok plans
  | byte :: bytes =>
    match state with
    | .lineStart =>
      if plans.length = headerFields then .error .tooManyHeaders
      else if isBlank byte then invalidHeader cursor "obs_fold"
      else validateFrom (.name cursor cursor (classifyNameByte byte)) (cursor + 1) plans bytes
    | .name lineStart nameStart nameClass =>
      if byte == 0x3a then do
        validateName nameStart cursor nameClass lineStart
        validateFrom (.value lineStart nameStart cursor none (cursor + 1)) (cursor + 1) plans bytes
      else if byte == 0x0d then invalidHeader lineStart "invalid_name"
      else validateFrom (.name lineStart nameStart (advanceNameClass nameClass byte)) (cursor + 1) plans bytes
    | .value lineStart nameStart nameEnd valueStart valueEnd =>
      if byte == 0x0d then
        let start := valueStart.getD cursor
        let stop := (valueStart.map fun _ => valueEnd).getD cursor
        if stop - start > headerValueBytes then valueLimit (stop - start)
        else
          let plans := plans ++ [⟨nameStart,nameEnd,start,stop⟩]
          match bytes with
          | [] => .ok plans
          | _ :: rest => validateFrom .lineStart (cursor + 2) plans rest
      else if !isValueByte byte then invalidHeader lineStart "invalid_value_byte"
      else
        let isContent := !isBlank byte
        let nextStart := valueStart.or (if isContent then some cursor else none)
        let nextEnd := if isContent then cursor + 1 else valueEnd
        validateFrom (.value lineStart nameStart nameEnd nextStart nextEnd) (cursor + 1) plans bytes

def validateFieldGrammar (input : List UInt8) (bytesConsumed : Nat) : Result (List FieldPlan) :=
  validateFrom .lineStart 0 [] (input.take (bytesConsumed - 2))

def materializeField (input : List UInt8) (plan : FieldPlan) : HeaderField :=
  ⟨collectChars ((slice input plan.nameStart plan.nameEnd).map toAsciiLowercase),
    slice input plan.valueStart plan.valueEnd⟩

def parseHeaderSection (input : List UInt8) : Result HeaderBlock := do
  let bytesConsumed ← proveSectionBoundary input
  let plans ← validateFieldGrammar input bytesConsumed
  .ok ⟨plans.map (materializeField input),bytesConsumed⟩

end HeaderStatePhases

namespace HeaderDecisionTable

structure FieldLayout where
  nameStart : Nat
  nameEnd : Nat
  valueStart : Nat
  valueEnd : Nat

inductive FieldPart where
  | name
  | value

inductive WireByte where
  | colon
  | ows
  | token
  | valueOnly
  | forbidden
deriving DecidableEq

structure LineFacts where
  colon : Option Nat
  nameHasWhitespace : Bool
  nameHasInvalidByte : Bool
  valueHasInvalidByte : Bool
  firstValueContent : Option Nat
  lastValueContent : Nat

inductive LineDecision where
  | accept (layout : FieldLayout)
  | reject (reason : String)
  | nameLimit (actual : Nat)
  | valueLimit (actual : Nat)

/-- The scan of `find_crlf`; the list is `input[index..]`. -/
def findFrom (lineStart index : Nat) : List UInt8 → Result (Nat × Nat)
  | [] => .error .incomplete
  | byte :: bytes =>
    if index = headerSectionBytes then sectionLimit (headerSectionBytes + 1)
    else if byte == 0x0a then invalidHeader lineStart "bare_line_ending"
    else if byte == 0x0d then
      if bytes.head? != some 0x0a then invalidHeader lineStart "bare_line_ending"
      else
        let next := index + 2
        if next > headerSectionBytes then sectionLimit next else .ok (index,next)
    else findFrom lineStart (index + 1) bytes

def findCrlf (input : List UInt8) (lineStart : Nat) : Result (Nat × Nat) :=
  findFrom lineStart lineStart (input.drop lineStart)

def classify (byte : UInt8) : WireByte :=
  if byte == 0x3a then .colon
  else if byte == 0x20 || byte == 0x09 then .ows
  else if isTchar byte then .token
  else if (0x21 ≤ byte && byte ≤ 0x7e) || 0x80 ≤ byte then .valueOnly
  else .forbidden

def observeByte (part : FieldPart) (byte : WireByte) (index : Nat) (facts : LineFacts) : LineFacts :=
  match part,byte with
  | .name,.colon => { facts with colon := some index }
  | .name,.ows => { facts with nameHasWhitespace := true }
  | .name,.token => facts
  | .name,.valueOnly | .name,.forbidden => { facts with nameHasInvalidByte := true }
  | .value,.forbidden => { facts with valueHasInvalidByte := true }
  | .value,.ows => facts
  | .value,.colon | .value,.token | .value,.valueOnly =>
    { facts with firstValueContent := facts.firstValueContent.or (some index), lastValueContent := index + 1 }

def lineStep (state : FieldPart × LineFacts) (observed : UInt8 × Nat) : FieldPart × LineFacts :=
  let (byte,index) := observed
  let facts := observeByte state.1 (classify byte) index state.2
  match state.1,classify byte with
  | .name,.colon => (.value,facts)
  | part,_ => (part,facts)

def decideLine (input : List UInt8) (start stop : Nat) : LineDecision :=
  let bytes := slice input start stop
  let facts := ((bytes.zipIdx start).foldl lineStep (.name,⟨none,false,false,false,none,start⟩)).2
  let nameLength := (facts.colon.map (· - start)).getD 0
  let valueStart := facts.firstValueContent.getD stop
  let valueEnd := (facts.firstValueContent.map fun _ => facts.lastValueContent).getD stop
  let valueLength := valueEnd - valueStart
  if bytes.head?.any isBlank then .reject "obs_fold"
  else match facts.colon with
    | none => .reject "invalid_name"
    | some colon =>
      if nameLength = 0 then .reject "invalid_name"
      else if nameLength > headerNameBytes then .nameLimit nameLength
      else if facts.nameHasWhitespace then .reject "whitespace_before_colon"
      else if facts.nameHasInvalidByte then .reject "invalid_name"
      else if facts.valueHasInvalidByte then .reject "invalid_value_byte"
      else if valueLength > headerValueBytes then .valueLimit valueLength
      else .accept ⟨start,colon,valueStart,valueEnd⟩

def validateFrom (input : List UInt8) : Nat → Nat → List FieldLayout → Result (List FieldLayout × Nat)
  | 0,_,_ => .error .tooManyHeaders
  | fuel + 1,lineStart,layouts => do
    let (lineEnd,nextLine) ← findCrlf input lineStart
    if lineEnd = lineStart then .ok (layouts,nextLine)
    else if layouts.length = headerFields then .error .tooManyHeaders
    else match decideLine input lineStart lineEnd with
      | .accept layout => validateFrom input fuel nextLine (layouts ++ [layout])
      | .reject reason => invalidHeader lineStart reason
      | .nameLimit actual => Polyguard.nameLimit actual
      | .valueLimit actual => Polyguard.valueLimit actual

def buildField (input : List UInt8) (layout : FieldLayout) : HeaderField :=
  ⟨collectChars ((slice input layout.nameStart layout.nameEnd).map toAsciiLowercase),
    slice input layout.valueStart layout.valueEnd⟩

def parseHeaderSection (input : List UInt8) : Result HeaderBlock := do
  let (layouts,bytesConsumed) ← validateFrom input (headerFields + 1) 0 []
  .ok ⟨layouts.map (buildField input),bytesConsumed⟩

end HeaderDecisionTable

namespace HeaderAlgebraicLines

structure SectionTail where
  offset : Nat
  bytes : List UInt8

structure CompleteLine where
  offset : Nat
  bytes : List UInt8

inductive NextLine where
  | field (line : CompleteLine) (tail : SectionTail)
  | finish (bytesConsumed : Nat)

def isLineControl (byte : UInt8) : Bool := byte == 0x0d || byte == 0x0a

/-- The first window of two bytes that is CRLF. -/
def crlfPosition : List UInt8 → Option Nat
  | [] => none
  | byte :: bytes =>
    if byte == 0x0d && bytes.head? == some 0x0a then some 0 else (crlfPosition bytes).map (· + 1)

def takeCompleteLine (tail : SectionTail) : Result NextLine :=
  match crlfPosition tail.bytes with
  | none =>
    if (position isLineControl tail.bytes).any (tail.offset + · < headerSectionBytes) then
      invalidHeader tail.offset "bare_line_ending"
    else if tail.offset + tail.bytes.length > headerSectionBytes then sectionLimit (headerSectionBytes + 1)
    else .error .incomplete
  | some lineLen =>
    if (position isLineControl (tail.bytes.take lineLen)).any (tail.offset + · < headerSectionBytes) then
      invalidHeader tail.offset "bare_line_ending"
    else
      let nextOffset := tail.offset + lineLen + 2
      if nextOffset > headerSectionBytes then sectionLimit (headerSectionBytes + 1)
      else if lineLen = 0 then .ok (.finish nextOffset)
      else .ok (.field ⟨tail.offset,tail.bytes.take lineLen⟩ ⟨nextOffset,tail.bytes.drop (lineLen + 2)⟩)

def lowercaseName (bytes : List UInt8) (lineOffset : Nat) : Result (List UInt8) :=
  if bytes.isEmpty then invalidHeader lineOffset "invalid_name"
  else if bytes.length > headerNameBytes then nameLimit bytes.length
  else if bytes.any isBlank then invalidHeader lineOffset "whitespace_before_colon"
  else if !bytes.all isTchar then invalidHeader lineOffset "invalid_name"
  else .ok (collectChars (bytes.map toAsciiLowercase))

def trimmed (bytes : List UInt8) : List UInt8 :=
  match position (fun byte => !isBlank byte) bytes with
  | none => slice bytes 0 0
  | some start =>
    -- A first content byte implies a last one, so the fallback of the `expect` is never read.
    slice bytes start ((rposition (fun byte => !isBlank byte) bytes).getD 0 + 1)

def trimmedValue (bytes : List UInt8) (lineOffset : Nat) : Result (List UInt8) :=
  if !bytes.all isValueByte then invalidHeader lineOffset "invalid_value_byte"
  else if (trimmed bytes).length > headerValueBytes then valueLimit (trimmed bytes).length
  else .ok (trimmed bytes)

def parseField (line : CompleteLine) : Result HeaderField :=
  if line.bytes.head?.any isBlank then invalidHeader line.offset "obs_fold"
  else match position (· == 0x3a) line.bytes with
    | none => invalidHeader line.offset "invalid_name"
    | some colon => do
      let name ← lowercaseName (line.bytes.take colon) line.offset
      let value ← trimmedValue (line.bytes.drop (colon + 1)) line.offset
      .ok ⟨name,value⟩

def parseFrom : Nat → SectionTail → List HeaderField → Result HeaderBlock
  | 0,_,_ => .error .tooManyHeaders
  | fuel + 1,tail,fields => do
    match ← takeCompleteLine tail with
    | .finish bytesConsumed => .ok ⟨fields,bytesConsumed⟩
    | .field line next =>
      if fields.length = headerFields then .error .tooManyHeaders
      else do
        let field ← parseField line
        parseFrom fuel next (fields ++ [field])

def parseHeaderSection (input : List UInt8) : Result HeaderBlock := parseFrom (headerFields + 1) ⟨0,input⟩ []

end HeaderAlgebraicLines

namespace HeaderTransitionReducer

inductive FramingState where
  | lineStart (offset : Nat)
  | lineData (offset : Nat)
  | afterCarriageReturn (offset : Nat) (empty : Bool)

inductive FramingTransition where
  | proceed (state : FramingState)
  | complete

structure SectionEnvelope where
  bytesConsumed : Nat
  fieldCount : Nat

structure NameFacts where
  length : Nat
  hasWhitespace : Bool
  hasInvalid : Bool

structure ValueFacts where
  name : NameFacts
  colon : Nat
  firstContent : Option Nat
  contentEnd : Nat
  hasInvalid : Bool

inductive FieldState where
  | name (facts : NameFacts)
  | value (facts : ValueFacts)

structure FieldPlan where
  nameStart : Nat
  nameEnd : Nat
  valueStart : Nat
  valueEnd : Nat

def framingStep (state : FramingState) (index : Nat) (byte : UInt8) : Except String FramingTransition :=
  match state with
  | .lineStart offset =>
    if byte == 0x0d then .ok (.proceed (.afterCarriageReturn offset true))
    else if byte == 0x0a then .error "bare_line_ending"
    else .ok (.proceed (.lineData offset))
  | .lineData offset =>
    if byte == 0x0d then .ok (.proceed (.afterCarriageReturn offset false))
    else if byte == 0x0a then .error "bare_line_ending"
    else .ok (.proceed (.lineData offset))
  | .afterCarriageReturn _ empty =>
    if byte == 0x0a then
      if empty then .ok .complete else .ok (.proceed (.lineStart (index + 1)))
    else .error "bare_line_ending"

def lineOffset : FramingState → Nat
  | .lineStart offset | .lineData offset | .afterCarriageReturn offset _ => offset

def endsField : FramingState → FramingState → Bool
  | .afterCarriageReturn _ false,.lineStart _ => true
  | _,_ => false

/-- What the loop returns when no byte is left at the cursor. -/
def exhausted (state : FramingState) : Result SectionEnvelope :=
  match state with
  | .afterCarriageReturn offset _ => invalidHeader offset "bare_line_ending"
  | _ => .error .incomplete

/-- The loop of `validate_framing`; the list is `input[cursor..]`. -/
def framingFrom (state : FramingState) (cursor fieldCount : Nat) : List UInt8 → Result SectionEnvelope
  | [] => exhausted state
  | byte :: bytes =>
    if cursor = headerSectionBytes then sectionLimit (headerSectionBytes + 1)
    else match framingStep state cursor byte with
      | .ok (.proceed next) =>
        framingFrom next (cursor + 1) (if endsField state next then fieldCount + 1 else fieldCount) bytes
      | .ok .complete => .ok ⟨cursor + 1,fieldCount⟩
      | .error reason => invalidHeader (lineOffset state) reason

def validateFraming (input : List UInt8) : Result SectionEnvelope := framingFrom (.lineStart 0) 0 0 input

def fieldStep (state : FieldState) (observed : UInt8 × Nat) : FieldState :=
  let (byte,index) := observed
  match state with
  | .name facts =>
    if byte == 0x3a then .value ⟨facts,index,none,index + 1,false⟩
    else .name ⟨facts.length + 1,facts.hasWhitespace || isBlank byte,facts.hasInvalid || !isTchar byte⟩
  | .value facts =>
    let content := !isBlank byte
    .value { facts with
      firstContent := facts.firstContent.or (if content then some index else none)
      contentEnd := if content then index + 1 else facts.contentEnd
      hasInvalid := facts.hasInvalid || !isValueByte byte }

def decideField (state : FieldState) (lineStart lineLen : Nat) : Result FieldPlan :=
  match state with
  | .name _ => invalidHeader lineStart "invalid_name"
  | .value value =>
    if value.colon = 0 then invalidHeader lineStart "invalid_name"
    else if value.name.length > headerNameBytes then nameLimit value.name.length
    else if value.name.hasWhitespace then invalidHeader lineStart "whitespace_before_colon"
    else if value.name.hasInvalid then invalidHeader lineStart "invalid_name"
    else if value.hasInvalid then invalidHeader lineStart "invalid_value_byte"
    else
      let valueStart := value.firstContent.getD lineLen
      let valueEnd := (value.firstContent.map fun _ => value.contentEnd).getD lineLen
      let valueLength := valueEnd - valueStart
      if valueLength > headerValueBytes then valueLimit valueLength
      else .ok ⟨lineStart,lineStart + value.colon,lineStart + valueStart,lineStart + valueEnd⟩

def reduceField (line : List UInt8) (lineStart : Nat) : Result FieldPlan :=
  if line.head?.any isBlank then invalidHeader lineStart "obs_fold"
  else decideField (line.zipIdx.foldl fieldStep (.name ⟨0,false,false⟩)) lineStart line.length

/-- The pieces of `split_inclusive` at line feeds; `piece` is the part of the current piece already read. -/
def splitInclusive (piece : List UInt8) : List UInt8 → List (List UInt8)
  | [] => if piece.isEmpty then [] else [piece]
  | byte :: bytes =>
    if byte == 0x0a then (piece ++ [byte]) :: splitInclusive [] bytes
    else splitInclusive (piece ++ [byte]) bytes

def reduceLines (ordinal lineStart : Nat) : List (List UInt8) → Result (List FieldPlan)
  | [] => .ok []
  | framed :: rest =>
    if ordinal = headerFields then .error .tooManyHeaders
    else do
      let plan ← reduceField (framed.take (framed.length - 2)) lineStart
      let plans ← reduceLines (ordinal + 1) (lineStart + framed.length) rest
      .ok (plan :: plans)

def validateFields (input : List UInt8) (envelope : SectionEnvelope) : Result (List FieldPlan) :=
  reduceLines 0 0 (splitInclusive [] (input.take (envelope.bytesConsumed - 2)))

def materializeField (input : List UInt8) (plan : FieldPlan) : HeaderField :=
  ⟨collectChars ((slice input plan.nameStart plan.nameEnd).map toAsciiLowercase),
    slice input plan.valueStart plan.valueEnd⟩

def parseHeaderSection (input : List UInt8) : Result HeaderBlock := do
  let envelope ← validateFraming input
  let plans ← validateFields input envelope
  .ok ⟨plans.map (materializeField input),envelope.bytesConsumed⟩

end HeaderTransitionReducer

/-- The registered implementations, in registry order. -/
def headerImplementations : List (List UInt8 → Result HeaderBlock) :=
  [HeaderTypedCursor.parseHeaderSection,HeaderStatePhases.parseHeaderSection,
    HeaderDecisionTable.parseHeaderSection,HeaderAlgebraicLines.parseHeaderSection,
    HeaderTransitionReducer.parseHeaderSection]

end Polyguard
