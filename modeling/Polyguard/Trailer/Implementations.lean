import Polyguard.Header.Implementations
import Polyguard.Collections.Ordered
import Polyguard.Collections.Radix

/-! The five registered implementations of `parse_trailer_section`.
Declared names are the bytes of their texts. A counting pass of a radix sort is the
stable distribution of its entries over the buckets. A loop over lines runs at most
once for each admitted field and once more, which is the fuel of its recursion. -/
namespace Polyguard
open Ascii Slices

def trailerBytes : Nat := 8192
def trailerFields : Nat := 32
def trailerNameBytes : Nat := 128
def trailerValueBytes : Nat := 8192

def invalidTrailer {α : Type} (reason : String) : Result α := .error (.invalidTrailer reason)

def trailerLimit {α : Type} (actual : Nat) : Result α := .error (.limitExceeded "trailer_bytes" trailerBytes actual)

@[simp] theorem invalidTrailer_bind {α β : Type} (reason : String) (next : α → Result β) :
    (invalidTrailer reason >>= next) = invalidTrailer reason := rfl

@[simp] theorem trailerLimit_bind {α β : Type} (actual : Nat) (next : α → Result β) :
    (trailerLimit actual >>= next) = trailerLimit actual := rfl

def forwardedStart : List UInt8 := ascii "x-forwarded-"

def forbiddenTrailers : List (List UInt8) :=
  [ascii "content-length",ascii "transfer-encoding",ascii "host",ascii "connection",ascii "trailer",ascii "upgrade",
    ascii "forwarded",ascii "authorization",ascii "proxy-authorization",ascii "cookie",ascii "set-cookie"]

/-- `is_forbidden` of a text. -/
def isForbiddenTrailer (name : List UInt8) : Bool := forwardedStart.isPrefixOf name || forbiddenTrailers.contains name

/-- `is_forbidden` of the bytes of a name in any case, with the names that are listed. -/
def isForbiddenWire (listed : List (List UInt8)) (name : List UInt8) : Bool :=
  (forwardedStart.length ≤ name.length && eqIgnoreAsciiCase (name.take forwardedStart.length) forwardedStart) ||
    listed.any (eqIgnoreAsciiCase name)

/-- Two neighbours of a list are equal. -/
def hasEqualNeighbours : List (List UInt8) → Bool
  | first :: second :: rest => first == second || hasEqualNeighbours (second :: rest)
  | _ => false

/-- The bucket of a name at a position: zero behind its end. -/
def radixBucket (position : Nat) (name : List UInt8) : Nat :=
  match name[position]? with
  | some byte => byte.toNat + 1
  | none => 0

/-- One counting pass with a number of buckets. -/
def radixPass {α : Type} (buckets : Nat) (key : α → List UInt8) (entries : List α) (position : Nat) : List α :=
  Radix.distribute buckets (fun entry => radixBucket position (key entry)) entries

def radixOrder {α : Type} (buckets : Nat) (key : α → List UInt8) (entries : List α) : List α :=
  (List.range trailerNameBytes).reverse.foldl (radixPass buckets key) entries

namespace TrailerDirectTable

inductive ByteKind where
  | colon
  | optionalWhitespace
  | token
  | valueOnly
  | prohibited
deriving DecidableEq

structure FieldSpan where
  nameEnd : Nat
  valueStart : Nat
  valueEnd : Nat

structure LineSummary where
  startsWithWhitespace : Bool
  colon : Option Nat
  whitespaceInName : Bool
  invalidName : Bool
  invalidValue : Bool
  valueStart : Option Nat
  valueEnd : Nat

inductive LineVerdict where
  | field (span : FieldSpan)
  | invalid (reason : String)

/-- A lowercase letter, a digit or a token punctuation. -/
def isDeclarationByte (byte : UInt8) : Bool :=
  isAsciiLowercase byte || isAsciiDigit byte || (isTchar byte && !isAsciiAlphanumeric byte)

def checkDeclarations : List (List UInt8) → Result Unit
  | [] => .ok ()
  | name :: names =>
    if name.isEmpty || name.length > trailerNameBytes || !name.all isDeclarationByte then invalidTrailer "invalid_declaration"
    else if isForbiddenTrailer name then invalidTrailer "forbidden_field"
    else checkDeclarations names

def declarationTable (names : List (List UInt8)) : Result (List (List UInt8)) := do
  checkDeclarations names
  let sorted := radixOrder 257 id names
  if hasEqualNeighbours sorted then invalidTrailer "duplicate_declaration" else .ok sorted

/-- The scan of `locate_line_end`; the list is `input[position..]`. -/
def locateFrom (position : Nat) : List UInt8 → Result (Nat × Nat)
  | [] => .error .incomplete
  | byte :: bytes =>
    if position = trailerBytes then trailerLimit (trailerBytes + 1)
    else if byte == 0x0a then invalidTrailer "bare_line_ending"
    else if byte == 0x0d then
      if bytes.head? != some 0x0a then invalidTrailer "bare_line_ending"
      else if position + 2 > trailerBytes then trailerLimit (position + 2)
      else .ok (position,position + 2)
    else locateFrom (position + 1) bytes

def locateLineEnd (input : List UInt8) (start : Nat) : Result (Nat × Nat) := locateFrom start (input.drop start)

def classify (byte : UInt8) : ByteKind :=
  if byte == 0x3a then .colon
  else if byte == 0x20 || byte == 0x09 then .optionalWhitespace
  else if isTchar byte then .token
  else if (0x21 ≤ byte && byte ≤ 0x7e) || 0x80 ≤ byte then .valueOnly
  else .prohibited

def observe (summary : LineSummary) (observed : UInt8 × Nat) : LineSummary :=
  let (byte,position) := observed
  match summary.colon,classify byte with
  | none,.colon => { summary with colon := some position }
  | none,.optionalWhitespace => { summary with whitespaceInName := true }
  | none,.token => summary
  | none,.valueOnly | none,.prohibited => { summary with invalidName := true }
  | some _,.prohibited => { summary with invalidValue := true }
  | some _,.optionalWhitespace => summary
  | some _,.colon | some _,.token | some _,.valueOnly =>
    { summary with valueStart := some (summary.valueStart.getD position), valueEnd := position + 1 }

def summarize (input : List UInt8) (start stop : Nat) : LineSummary :=
  ((slice input start stop).zipIdx start).foldl observe
    ⟨(slice input start stop).head?.any isBlank,none,false,false,false,none,stop⟩

def summarizeAndDecide (input : List UInt8) (start stop : Nat) : LineVerdict :=
  let summary := summarize input start stop
  let nameLength := (summary.colon.map (· - start)).getD 0
  let valueStart := summary.valueStart.getD stop
  let valueLength := summary.valueEnd - valueStart
  if summary.startsWithWhitespace then .invalid "obs_fold"
  else match summary.colon with
    | none => .invalid "invalid_name"
    | some nameEnd =>
      if nameLength = 0 then .invalid "invalid_name"
      else if nameLength > trailerNameBytes then .invalid "name_too_long"
      else if summary.whitespaceInName then .invalid "whitespace_before_colon"
      else if summary.invalidName then .invalid "invalid_name"
      else if summary.invalidValue then .invalid "invalid_value_byte"
      else if valueLength > trailerValueBytes then .invalid "value_too_long"
      else .field ⟨nameEnd,valueStart,summary.valueEnd⟩

def asciiLowercase (bytes : List UInt8) : List UInt8 := collectChars (bytes.map toAsciiLowercase)

def parseFrom (input : List UInt8) (declarations : List (List UInt8)) : Nat → Nat → List HeaderField → Result TrailerBlock
  | 0,_,_ => invalidTrailer "too_many_fields"
  | fuel + 1,cursor,fields => do
    let (lineEnd,nextLine) ← locateLineEnd input cursor
    if lineEnd = cursor then .ok ⟨fields,nextLine⟩
    else if fields.length = trailerFields then invalidTrailer "too_many_fields"
    else match summarizeAndDecide input cursor lineEnd with
      | .invalid reason => invalidTrailer reason
      | .field span =>
        let name := asciiLowercase (slice input cursor span.nameEnd)
        if isForbiddenTrailer name then invalidTrailer "forbidden_field"
        else if !declarations.contains name then invalidTrailer "undeclared_field"
        else if fields.any (·.name == name) then invalidTrailer "duplicate_field"
        else parseFrom input declarations fuel nextLine (fields ++ [⟨name,slice input span.valueStart span.valueEnd⟩])

def parseTrailerSection (input : List UInt8) (declaredNames : List (List UInt8)) : Result TrailerBlock := do
  let declarations ← declarationTable declaredNames
  parseFrom input declarations (trailerFields + 1) 0 []

end TrailerDirectTable

namespace TrailerValidatedInvariants

structure BoundedSection where
  fieldLines : List UInt8
  bytesConsumed : Nat

structure PermittedField where
  name : List UInt8
  value : List UInt8

/-- `split_inclusive`: the pieces up to each separator, which they keep. -/
def splitInclusive (separator : UInt8) : List UInt8 → List (List UInt8)
  | [] => []
  | byte :: bytes =>
    if byte == separator then [byte] :: splitInclusive separator bytes
    else match splitInclusive separator bytes with
      | [] => [[byte]]
      | piece :: pieces => (byte :: piece) :: pieces

/-- A CR before the last two bytes of a segment, at its place in the input. -/
def earlierCr (lineStart : Nat) (segment : List UInt8) : Option Nat :=
  let segmentEnd := lineStart + segment.length
  (segment.dropLast.zipIdx.find? fun (byte,offset) => byte == 0x0d && lineStart + offset + 1 < segmentEnd - 1).map
    fun (_,offset) => lineStart + offset

def boundaryFrom (input : List UInt8) (lineStart : Nat) : List (List UInt8) → Result BoundedSection
  | [] => if input.length > trailerBytes then trailerLimit (trailerBytes + 1) else .error .incomplete
  | segment :: segments =>
    if segment.getLast? != some 0x0a then
      if (segment.take (trailerBytes - lineStart)).any (· == 0x0d) then invalidTrailer "bare_line_ending"
      else if input.length > trailerBytes then trailerLimit (trailerBytes + 1)
      else .error .incomplete
    else
      let segmentEnd := lineStart + segment.length
      if (earlierCr lineStart segment).any (· < trailerBytes) then invalidTrailer "bare_line_ending"
      else if segmentEnd > trailerBytes then trailerLimit (trailerBytes + 1)
      else if segment.dropLast.getLast? != some 0x0d then invalidTrailer "bare_line_ending"
      else if segment.length = 2 then .ok ⟨input.take lineStart,segmentEnd⟩
      else boundaryFrom input segmentEnd segments

def establishSectionBoundary (input : List UInt8) : Result BoundedSection :=
  boundaryFrom input 0 (splitInclusive 0x0a (input.take (trailerBytes + 1)))

/-- The listed names; two of them are covered by the prefix as well. -/
def forbidden : List (List UInt8) := forbiddenTrailers ++ [ascii "x-forwarded-for",ascii "x-forwarded-proto"]

def isLowercaseTokenByte (byte : UInt8) : Bool := !isAsciiUppercase byte && isTchar byte

def checkDeclarations : List (List UInt8) → Result Unit
  | [] => .ok ()
  | name :: names =>
    if name.isEmpty || name.length > trailerNameBytes || !name.all isLowercaseTokenByte then invalidTrailer "invalid_declaration"
    else if isForbiddenWire forbidden name then invalidTrailer "forbidden_field"
    else checkDeclarations names

def declarationDomain (declaredNames : List (List UInt8)) : Result (List (List UInt8)) := do
  checkDeclarations declaredNames
  let names := Ordered.sort declaredNames
  if hasEqualNeighbours names then invalidTrailer "duplicate_declaration" else .ok names

def contains (names : List (List UInt8)) (candidate : List UInt8) : Bool :=
  (Ordered.binarySearchBy (fun declared => (cmp (candidate.map toAsciiLowercase) declared).swap) names).isSome

def validateFieldGrammar (bytes : List UInt8) : Result PermittedField :=
  if bytes.head?.any isBlank then invalidTrailer "obs_fold"
  else match position (· == 0x3a) bytes with
    | none => invalidTrailer "invalid_name"
    | some colon =>
      let name := bytes.take colon
      let untrimmed := bytes.drop (colon + 1)
      if name.isEmpty || name.length > trailerNameBytes then invalidTrailer "invalid_name"
      else if name.any isBlank then invalidTrailer "whitespace_before_colon"
      else if !name.all isTchar then invalidTrailer "invalid_name"
      else if !untrimmed.all isValueByte then invalidTrailer "invalid_value_byte"
      else
        let leading := (untrimmed.takeWhile isBlank).length
        let trailing := (untrimmed.reverse.takeWhile isBlank).length
        .ok ⟨name,slice untrimmed leading (max (untrimmed.length - trailing) leading)⟩

def authorizeField (name : List UInt8) (declarations : List (List UInt8)) (accepted : List PermittedField) : Result Unit :=
  if isForbiddenWire forbidden name then invalidTrailer "forbidden_field"
  else if !contains declarations name then invalidTrailer "undeclared_field"
  else if accepted.any (eqIgnoreAsciiCase ·.name name) then invalidTrailer "duplicate_field"
  else .ok ()

def permitFrom (declarations : List (List UInt8)) (permitted : List PermittedField) : List (List UInt8) → Result (List PermittedField)
  | [] => .ok permitted
  | terminated :: rest =>
    if permitted.length = trailerFields then invalidTrailer "too_many_fields"
    else do
      let field ← validateFieldGrammar terminated.dropLast
      authorizeField field.name declarations permitted
      permitFrom declarations (permitted ++ [field]) rest

def validateAndPermitFields (fieldLines : List UInt8) (declarations : List (List UInt8)) : Result (List PermittedField) :=
  permitFrom declarations [] (fieldLines.splitOn 0x0a).dropLast

def buildField (field : PermittedField) : HeaderField := ⟨collectChars (field.name.map toAsciiLowercase),field.value⟩

def parseTrailerSection (input : List UInt8) (declaredNames : List (List UInt8)) : Result TrailerBlock := do
  let bounded ← establishSectionBoundary input
  let declarations ← declarationDomain declaredNames
  let fields ← validateAndPermitFields bounded.fieldLines declarations
  .ok ⟨fields.map buildField,bounded.bytesConsumed⟩

end TrailerValidatedInvariants

namespace TrailerTransitionPhases

structure LineSpan where
  start : Nat
  stop : Nat

structure SectionFrame where
  lines : List LineSpan
  bytesConsumed : Nat

/-- `LineStart`, or `LineBytes` with the start of the line. -/
inductive ScanState where
  | lineStart
  | lineBytes (start : Nat)

def retain (lines : List LineSpan) (span : LineSpan) : List LineSpan :=
  if lines.length < trailerFields + 1 then lines ++ [span] else lines

/-- The loop of `scan_section`; the list is `input[offset..]`. -/
def scanFrom (inputLength : Nat) (state : ScanState) (offset : Nat) (lines : List LineSpan) : List UInt8 → Result SectionFrame
  | [] => if inputLength > trailerBytes then trailerLimit inputLength else .error .incomplete
  | byte :: bytes =>
    if offset ≥ trailerBytes then trailerLimit inputLength
    else if byte == 0x0d then
      match bytes with
      | [] => invalidTrailer "bare_line_ending"
      | following :: rest =>
        if following != 0x0a then invalidTrailer "bare_line_ending"
        else match state with
          | .lineStart => if offset + 2 > trailerBytes then trailerLimit (offset + 2) else .ok ⟨lines,offset + 2⟩
          | .lineBytes start => scanFrom inputLength .lineStart (offset + 2) (retain lines ⟨start,offset⟩) rest
    else if byte == 0x0a then invalidTrailer "bare_line_ending"
    else match state with
      | .lineStart => scanFrom inputLength (.lineBytes offset) (offset + 1) lines bytes
      | .lineBytes start => scanFrom inputLength (.lineBytes start) (offset + 1) lines bytes

def scanSection (input : List UInt8) : Result SectionFrame := scanFrom input.length .lineStart 0 [] input

/-- The group of equal names under way: its name, its lowest index and its second lowest. -/
structure Group where
  name : List UInt8
  lowest : Nat
  second : Option Nat

def Group.add (group : Group) (index : Nat) : Group :=
  if index < group.lowest then { group with lowest := index, second := some group.lowest }
  else match group.second with
    | none => { group with second := some index }
    | some second => if index < second then { group with second := some index } else group

def earliestOf (earliest second : Option Nat) : Option Nat :=
  match earliest,second with
  | some earliest,some second => some (min earliest second)
  | none,second => second
  | earliest,none => earliest

/-- The loops of `earliest_duplicate` over the groups of equal names. -/
def duplicateFrom (earliest : Option Nat) (group : Group) : List (Nat × List UInt8) → Option Nat
  | [] => earliestOf earliest group.second
  | (index,name) :: rest =>
    if name == group.name then duplicateFrom earliest (group.add index) rest
    else duplicateFrom (earliestOf earliest group.second) ⟨name,index,none⟩ rest

def earliestDuplicate : List (Nat × List UInt8) → Option Nat
  | [] => none
  | (index,name) :: rest => duplicateFrom none ⟨name,index,none⟩ rest

/-- The valid names up to the first issue, with their indices, and that issue. -/
def surveyFrom : List (List UInt8 × Nat) → List (Nat × List UInt8) × Option (Nat × String)
  | [] => ([],none)
  | (name,index) :: rest =>
    if name.isEmpty || name.length > trailerNameBytes || !name.all isTchar || name.any isAsciiUppercase then
      ([],some (index,"invalid_declaration"))
    else if isForbiddenTrailer name then ([],some (index,"forbidden_field"))
    else
      let (valid,issue) := surveyFrom rest
      ((index,name) :: valid,issue)

def catalogDeclarations (declaredNames : List (List UInt8)) : Result (List (List UInt8)) :=
  let (validPrefix,firstIssue) := surveyFrom declaredNames.zipIdx
  let ordered := radixOrder 128 Prod.snd validPrefix
  match earliestDuplicate ordered,firstIssue with
  | some _,none => invalidTrailer "duplicate_declaration"
  | some duplicate,some (issue,reason) =>
    if duplicate < issue then invalidTrailer "duplicate_declaration" else invalidTrailer reason
  | none,some (_,reason) => invalidTrailer reason
  | none,none => .ok (ordered.map Prod.snd)

def parseField (bytes : List UInt8) : Result HeaderField :=
  if bytes.head?.any isBlank then invalidTrailer "obs_fold"
  else match position (· == 0x3a) bytes with
    | none => invalidTrailer "invalid_name"
    | some colon =>
      let nameBytes := bytes.take colon
      let rawValue := bytes.drop (colon + 1)
      if nameBytes.getLast?.any isBlank then invalidTrailer "whitespace_before_colon"
      else if nameBytes.isEmpty || nameBytes.length > trailerNameBytes || !nameBytes.all isTchar then invalidTrailer "invalid_name"
      else if rawValue.any (fun byte => !isValueByte byte) then invalidTrailer "invalid_value_byte"
      else
        let valueStart := (position (fun byte => !isBlank byte) rawValue).getD rawValue.length
        let valueEnd := ((rposition (fun byte => !isBlank byte) rawValue).map (· + 1)).getD valueStart
        .ok ⟨collectChars (nameBytes.map toAsciiLowercase),slice rawValue valueStart valueEnd⟩

def authorizeField (field : HeaderField) (declarations received : List (List UInt8)) : Result Unit :=
  if isForbiddenTrailer field.name then invalidTrailer "forbidden_field"
  else if (Ordered.binarySearch declarations field.name).isNone then invalidTrailer "undeclared_field"
  else if received.contains field.name then invalidTrailer "duplicate_field"
  else .ok ()

def fieldsFrom (input : List UInt8) (declarations : List (List UInt8)) (index : Nat) (fields : List HeaderField) :
    List LineSpan → Result (List HeaderField)
  | [] => .ok fields
  | span :: spans =>
    if index = trailerFields then invalidTrailer "too_many_fields"
    else do
      let field ← parseField (slice input span.start span.stop)
      authorizeField field declarations (fields.map (·.name))
      fieldsFrom input declarations (index + 1) (fields ++ [field]) spans

def parseTrailerSection (input : List UInt8) (declaredNames : List (List UInt8)) : Result TrailerBlock := do
  let frame ← scanSection input
  let declarations ← catalogDeclarations declaredNames
  let fields ← fieldsFrom input declarations 0 [] frame.lines
  .ok ⟨fields,frame.bytesConsumed⟩

end TrailerTransitionPhases

namespace TrailerInvariantTrie

structure FramedSection where
  fieldBytes : List UInt8
  bytesConsumed : Nat

structure NameNode where
  edges : List (UInt8 × Nat)
  declared : Bool
  received : Bool
deriving DecidableEq

abbrev DeclaredNames := List NameNode

def NameNode.default : NameNode := ⟨[],false,false⟩

/-- The loop of `frame_section`; the list is `input[position..]`. -/
def frameFrom (input : List UInt8) (lineStart position : Nat) : List UInt8 → Result FramedSection
  | [] => .error .incomplete
  | byte :: bytes =>
    if position = trailerBytes then trailerLimit (trailerBytes + 1)
    else if byte == 0x0a then invalidTrailer "bare_line_ending"
    else if byte != 0x0d then frameFrom input lineStart (position + 1) bytes
    else match bytes with
      | [] => invalidTrailer "bare_line_ending"
      | following :: rest =>
        if following != 0x0a then invalidTrailer "bare_line_ending"
        else
          let afterLine := position + 2
          if afterLine > trailerBytes then trailerLimit afterLine
          else if position = lineStart then .ok ⟨input.take position,afterLine⟩
          else frameFrom input afterLine afterLine rest

def frameSection (input : List UInt8) : Result FramedSection := frameFrom input 0 0 input

def childOf (nodes : DeclaredNames) (nodeIndex : Nat) (byte : UInt8) : Option Nat :=
  nodes[nodeIndex]?.bind fun node => (node.edges.find? fun edge => edge.1 == byte).map Prod.snd

def insertByte (state : DeclaredNames × Nat) (byte : UInt8) : DeclaredNames × Nat :=
  match childOf state.1 state.2 byte with
  | some child => (state.1,child)
  | none =>
    let child := state.1.length
    ((state.1 ++ [NameNode.default]).modify state.2 fun node => { node with edges := node.edges ++ [(byte,child)] },child)

def declaredAt (nodes : DeclaredNames) (nodeIndex : Nat) : Bool := nodes[nodeIndex]?.any (·.declared)

def receivedAt (nodes : DeclaredNames) (nodeIndex : Nat) : Bool := nodes[nodeIndex]?.any (·.received)

def insert (nodes : DeclaredNames) (name : List UInt8) : Result DeclaredNames :=
  let (nodes,nodeIndex) := name.foldl insertByte (nodes,0)
  if declaredAt nodes nodeIndex then invalidTrailer "duplicate_declaration"
  else .ok (nodes.modify nodeIndex fun node => { node with declared := true })

def isLowercaseToken (bytes : List UInt8) : Bool :=
  !bytes.isEmpty && bytes.all isTchar && bytes.all fun byte => !(isAsciiUppercase byte || isAsciiLowercase byte) || isAsciiLowercase byte

def validateName (declarations : DeclaredNames) (name : List UInt8) : Result DeclaredNames :=
  if !isLowercaseToken name then invalidTrailer "invalid_declaration"
  else if isForbiddenTrailer name then invalidTrailer "forbidden_field"
  else insert declarations name

def validate (names : List (List UInt8)) : Result DeclaredNames := names.foldlM validateName [NameNode.default]

/-- The node of a name, when every edge to it exists. -/
def walk (nodes : DeclaredNames) (nodeIndex : Nat) : List UInt8 → Option Nat
  | [] => some nodeIndex
  | byte :: name =>
    match childOf nodes nodeIndex byte with
    | none => none
    | some child => walk nodes child name

def acceptReceived (nodes : DeclaredNames) (name : List UInt8) : Result DeclaredNames :=
  if isForbiddenTrailer name then invalidTrailer "forbidden_field"
  else match walk nodes 0 name with
    | none => invalidTrailer "undeclared_field"
    | some nodeIndex =>
      if !declaredAt nodes nodeIndex then invalidTrailer "undeclared_field"
      else if receivedAt nodes nodeIndex then invalidTrailer "duplicate_field"
      else .ok (nodes.modify nodeIndex fun node => { node with received := true })

/-- The name and the untrimmed value of a line. -/
def validateLine (bytes : List UInt8) : Result (List UInt8 × List UInt8) :=
  if bytes.head?.any isBlank then invalidTrailer "obs_fold"
  else match position (· == 0x3a) bytes with
    | none => invalidTrailer "invalid_name"
    | some colon =>
      let name := bytes.take colon
      let value := bytes.drop (colon + 1)
      if name.isEmpty || name.length > trailerNameBytes then invalidTrailer "invalid_name"
      else if name.any isBlank then invalidTrailer "whitespace_before_colon"
      else if !name.all isTchar then invalidTrailer "invalid_name"
      else if !value.all isValueByte then invalidTrailer "invalid_value_byte"
      else .ok (name,value)

def trimValue (bytes : List UInt8) : List UInt8 :=
  let first := (position (fun byte => !isBlank byte) bytes).getD bytes.length
  let last := ((rposition (fun byte => !isBlank byte) bytes).map (· + 1)).getD first
  slice bytes first last

def validateFrom (fields : List HeaderField) (declarations : DeclaredNames) : Nat → List UInt8 → Result (List HeaderField)
  | 0,_ => invalidTrailer "too_many_fields"
  | fuel + 1,remaining =>
    if remaining.isEmpty then .ok fields
    else if fields.length = trailerFields then invalidTrailer "too_many_fields"
    else do
      let lineEnd := (position (· == 0x0d) remaining).getD remaining.length
      let (name,value) ← validateLine (remaining.take lineEnd)
      let name := collectChars (name.map toAsciiLowercase)
      let declarations ← acceptReceived declarations name
      validateFrom (fields ++ [⟨name,trimValue value⟩]) declarations fuel (remaining.drop (lineEnd + 2))

def parseTrailerSection (input : List UInt8) (declaredNames : List (List UInt8)) : Result TrailerBlock := do
  let framed ← frameSection input
  let declarations ← validate declaredNames
  let fields ← validateFrom [] declarations (trailerFields + 1) framed.fieldBytes
  .ok ⟨fields,framed.bytesConsumed⟩

end TrailerInvariantTrie

namespace TrailerEventAutomaton

structure NameFacts where
  start : Nat
  length : Nat
  beginsWithOws : Bool
  containsOws : Bool
  containsNonToken : Bool

structure ValueFacts where
  name : NameFacts
  nameEnd : Nat
  valueStart : Nat
  firstContent : Option Nat
  contentEnd : Nat
  containsInvalidOctet : Bool

inductive RawLine where
  | missingColon (facts : NameFacts)
  | complete (facts : ValueFacts)

inductive PendingLine where
  | terminator
  | field (raw : RawLine)

inductive MachineState where
  | lineStart
  | name (facts : NameFacts)
  | value (facts : ValueFacts)
  | needLineFeed (pending : PendingLine)

inductive MachineEvent where
  | advance (state : MachineState)
  | emit (raw : RawLine)
  | finish

structure FieldPlan where
  nameStart : Nat
  nameEnd : Nat
  valueStart : Nat
  valueEnd : Nat

def checkDeclarations : List (List UInt8) → Result Unit
  | [] => .ok ()
  | name :: names =>
    if name.isEmpty || name.length > trailerNameBytes || name.any isAsciiUppercase || !name.all isTchar then
      invalidTrailer "invalid_declaration"
    else if isForbiddenTrailer name then invalidTrailer "forbidden_field"
    else checkDeclarations names

def compileDeclarations (names : List (List UInt8)) : Result (List (List UInt8)) := do
  checkDeclarations names
  let ordered := Ordered.sort names
  if hasEqualNeighbours ordered then invalidTrailer "duplicate_declaration" else .ok ordered

def consumeName (facts : NameFacts) (index : Nat) (byte : UInt8) : MachineState :=
  if byte == 0x3a then .value ⟨facts,index,index + 1,none,index + 1,false⟩
  else .name { facts with
    length := facts.length + 1
    containsOws := facts.containsOws || isBlank byte
    containsNonToken := facts.containsNonToken || !isTchar byte }

def consumeValue (facts : ValueFacts) (index : Nat) (byte : UInt8) : ValueFacts :=
  let isContent := !isBlank byte
  { facts with
    firstContent := facts.firstContent.or (if isContent then some index else none)
    contentEnd := if isContent then index + 1 else facts.contentEnd
    containsInvalidOctet := facts.containsInvalidOctet || !isValueByte byte }

def transition (state : MachineState) (index : Nat) (byte : UInt8) : Result MachineEvent :=
  match state with
  | .lineStart =>
    if byte == 0x0d then .ok (.advance (.needLineFeed .terminator))
    else if byte == 0x0a then invalidTrailer "bare_line_ending"
    else .ok (.advance (consumeName ⟨index,0,isBlank byte,false,false⟩ index byte))
  | .name facts =>
    if byte == 0x0d then .ok (.advance (.needLineFeed (.field (.missingColon facts))))
    else if byte == 0x0a then invalidTrailer "bare_line_ending"
    else .ok (.advance (consumeName facts index byte))
  | .value facts =>
    if byte == 0x0d then .ok (.advance (.needLineFeed (.field (.complete facts))))
    else if byte == 0x0a then invalidTrailer "bare_line_ending"
    else .ok (.advance (.value (consumeValue facts index byte)))
  | .needLineFeed .terminator => if byte == 0x0a then .ok .finish else invalidTrailer "bare_line_ending"
  | .needLineFeed (.field raw) => if byte == 0x0a then .ok (.emit raw) else invalidTrailer "bare_line_ending"

def endOfInput {α : Type} : MachineState → Result α
  | .needLineFeed _ => invalidTrailer "bare_line_ending"
  | _ => .error .incomplete

/-- The loop of `run_wire_automaton`; the list is `input[cursor..]`. -/
def runFrom (state : MachineState) (cursor : Nat) (lines : List RawLine) : List UInt8 → Result (List RawLine × Nat)
  | [] => endOfInput state
  | byte :: bytes =>
    if cursor = trailerBytes then trailerLimit (trailerBytes + 1)
    else match transition state cursor byte with
      | .error error => .error error
      | .ok (.advance next) => runFrom next (cursor + 1) lines bytes
      | .ok (.emit raw) =>
        if lines.length = trailerFields then invalidTrailer "too_many_fields"
        else runFrom .lineStart (cursor + 1) (lines ++ [raw]) bytes
      | .ok .finish => .ok (lines,cursor + 1)

def runWireAutomaton (input : List UInt8) : Result (List RawLine × Nat) := runFrom .lineStart 0 [] input

def decideOneField : RawLine → Result FieldPlan
  | .missingColon name => if name.beginsWithOws then invalidTrailer "obs_fold" else invalidTrailer "invalid_name"
  | .complete value =>
    if value.name.beginsWithOws then invalidTrailer "obs_fold"
    else if value.name.length = 0 then invalidTrailer "invalid_name"
    else if value.name.length > trailerNameBytes then invalidTrailer "invalid_name"
    else if value.name.containsOws then invalidTrailer "whitespace_before_colon"
    else if value.name.containsNonToken then invalidTrailer "invalid_name"
    else if value.containsInvalidOctet then invalidTrailer "invalid_value_byte"
    else if (value.firstContent.map (value.contentEnd - ·)).getD 0 > trailerValueBytes then invalidTrailer "value_too_long"
    else .ok ⟨value.name.start,value.nameEnd,value.firstContent.getD value.valueStart,value.contentEnd⟩

def containsWireName (ordered : List (List UInt8)) (wire : List UInt8) : Bool :=
  (Ordered.binarySearchBy (fun declared => (cmp (wire.map toAsciiLowercase) declared).swap) ordered).isSome

def planName (input : List UInt8) (plan : FieldPlan) : List UInt8 := slice input plan.nameStart plan.nameEnd

def enforceFrom (input : List UInt8) (declarations : List (List UInt8)) (earlier : List FieldPlan) : List FieldPlan → Result Unit
  | [] => .ok ()
  | plan :: plans =>
    let wireName := planName input plan
    if isForbiddenWire forbiddenTrailers wireName then invalidTrailer "forbidden_field"
    else if !containsWireName declarations wireName then invalidTrailer "undeclared_field"
    else if earlier.any (fun other => eqIgnoreAsciiCase (planName input other) wireName) then invalidTrailer "duplicate_field"
    else enforceFrom input declarations (earlier ++ [plan]) plans

def materializeField (input : List UInt8) (plan : FieldPlan) : HeaderField :=
  ⟨collectChars ((planName input plan).map toAsciiLowercase),slice input plan.valueStart plan.valueEnd⟩

def parseTrailerSection (input : List UInt8) (declaredNames : List (List UInt8)) : Result TrailerBlock := do
  let declarations ← compileDeclarations declaredNames
  let (lines,bytesConsumed) ← runWireAutomaton input
  let plans ← lines.mapM decideOneField
  enforceFrom input declarations [] plans
  .ok ⟨plans.map (materializeField input),bytesConsumed⟩

end TrailerEventAutomaton

/-- The registered implementations, in registry order. -/
def trailerImplementations : List (List UInt8 → List (List UInt8) → Result TrailerBlock) :=
  [TrailerInvariantTrie.parseTrailerSection,TrailerTransitionPhases.parseTrailerSection,
    TrailerDirectTable.parseTrailerSection,TrailerValidatedInvariants.parseTrailerSection,
    TrailerEventAutomaton.parseTrailerSection]

end Polyguard
