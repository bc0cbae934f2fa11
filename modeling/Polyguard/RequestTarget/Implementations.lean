import Polyguard.Model
import Polyguard.Bytes.Address
import Polyguard.Bytes.Decimal
import Polyguard.Bytes.Utf8

/-! The five registered implementations of `normalize_request_target`.
A cursor over the bytes of a text is the suffix it has not read. A pass that runs
only on text an earlier pass has accepted returns some value where the source
would panic; the earlier pass rules that case out. -/
namespace Polyguard
open Ascii Slices Decimal Address

def targetLimit : Nat := 8192

def targetTooLong {α : Type} (actual : Nat) : Result α :=
  .error (.limitExceeded "target_bytes" targetLimit actual)

@[simp,grind =] theorem targetTooLong_bind {α β : Type} (actual : Nat) (next : α → Result β) :
    (targetTooLong actual >>= next) = targetTooLong actual := rfl

def startsWith (byte : UInt8) (text : List UInt8) : Bool := text.head? == some byte

def endsWith (byte : UInt8) (text : List UInt8) : Bool := text.getLast? == some byte

/-- The folded comparison of `text[..n]` with a word of `n` bytes. -/
def startsAsciiCaseInsensitive (text word : List UInt8) : Bool :=
  word.length ≤ text.length && eqIgnoreAsciiCase (text.take word.length) word

def httpPrefix : List UInt8 := ascii "http://"

def httpsPrefix : List UInt8 := ascii "https://"

namespace TargetBytes

def hexValue (byte : UInt8) : Option UInt8 :=
  if 0x30 ≤ byte && byte ≤ 0x39 then some (byte - 0x30)
  else if 0x61 ≤ byte && byte ≤ 0x66 then some (byte - 0x61 + 10)
  else if 0x41 ≤ byte && byte ≤ 0x46 then some (byte - 0x41 + 10)
  else none

def isUnreserved (byte : UInt8) : Bool :=
  isAsciiAlphanumeric byte || byte == 0x2d || byte == 0x2e || byte == 0x5f || byte == 0x7e

/-- The byte of two hexadecimal digits. -/
def joinNibbles (high low : UInt8) : UInt8 := (high <<< 4) ||| low

/-- An entry of the table of upper-case digits. -/
def hexDigit (nibble : UInt8) : UInt8 := (ascii "0123456789ABCDEF").getD nibble.toNat 0

/-- What the renderers push for an encoded byte. -/
def pushEncoded (byte : UInt8) : List UInt8 :=
  if isUnreserved byte then charFrom byte
  else 0x25 :: (charFrom (hexDigit (byte >>> 4)) ++ charFrom (hexDigit (byte &&& 0x0f)))

/-- The byte loop of the target envelope. -/
def envelopeBytes : List UInt8 → Result Unit
  | [] => .ok ()
  | byte :: bytes =>
    if byte == 0x23 then invalidTarget "fragment_not_allowed"
    else if byte == 0x5c then invalidTarget "backslash_not_allowed"
    else if 0x21 ≤ byte && byte ≤ 0x7e then envelopeBytes bytes
    else invalidTarget "invalid_target_byte"

def envelope (target : List UInt8) : Result Unit :=
  if target.length > targetLimit then targetTooLong target.length
  else if target.isEmpty then invalidTarget "empty_target"
  else envelopeBytes target

/-- The bytes that no authority holds. -/
def isForeign (byte : UInt8) : Bool :=
  byte == 0x40 || byte == 0x2f || byte == 0x3f || byte == 0x23 || byte == 0x25 || byte == 0x5c

def isLabelByte (byte : UInt8) : Bool := isAsciiAlphanumeric byte || byte == 0x2d

def validDnsLabel (label : List UInt8) : Bool :=
  !label.isEmpty && label.length ≤ 63 && !startsWith 0x2d label && !endsWith 0x2d label && label.all isLabelByte

/-- A port of digits alone between 1 and the greatest `u16`. -/
def portNumber (text : List UInt8) : Result Nat :=
  if text.isEmpty || !text.all isAsciiDigit then invalidAuthority
  else match parseUnsigned u16Max text with
    | none => invalidAuthority
    | some port => if port = 0 then invalidAuthority else .ok port

/-- The host and the text behind the last colon. -/
def splitPort (text : List UInt8) : List UInt8 × Option (List UInt8) :=
  match rsplitOnce 0x3a text with
  | some (host,port) => (host,some port)
  | none => (text,none)

/-- The path and the text behind the first question mark. -/
def splitQuery (text : List UInt8) : List UInt8 × Option (List UInt8) :=
  match splitOnce 0x3f text with
  | some (path,query) => (path,some query)
  | none => (text,none)

def withPort (host : List UInt8) : Option Nat → List UInt8
  | none => host
  | some port => host ++ 0x3a :: decimal port

/-- A target whose authority, path and routing path are one spelling. -/
def fixedTarget (form : TargetForm) (authority : Option (List UInt8)) (spelling : List UInt8) : NormalizedTarget :=
  ⟨form,none,authority,spelling,spelling⟩

end TargetBytes
open TargetBytes

namespace RequestTargetRules

inductive MethodKind where
  | connect
  | options
  | other

inductive Scheme where
  | http
  | https

def Scheme.name : Scheme → List UInt8
  | .http => ascii "http"
  | .https => ascii "https"

inductive TargetSyntax where
  | asterisk
  | origin (value : List UInt8)
  | absolute (scheme : Scheme) (remainder : List UInt8)
  | unclassified (value : List UInt8)

inductive PortRule where
  | optional
  | required

inductive PercentContext where
  | path
  | query
deriving DecidableEq

structure CanonicalPath where
  pathAndQuery : List UInt8
  routingPath : List UInt8

def checkedBoundary (target : List UInt8) : Result (List UInt8) := do
  envelope target
  .ok target

def methodKind (method : List UInt8) : MethodKind :=
  if method == ascii "connect" then .connect
  else if method == ascii "options" then .options
  else .other

def classifySyntax (target : List UInt8) : TargetSyntax :=
  if target == ascii "*" then .asterisk
  else if startsWith 0x2f target then .origin target
  else if startsAsciiCaseInsensitive target httpPrefix then .absolute .http (target.drop 7)
  else if startsAsciiCaseInsensitive target httpsPrefix then .absolute .https (target.drop 8)
  else .unclassified target

/-- The loop of `normalize_percent_encoding` behind the cursor. -/
def normalizeFrom (context : PercentContext) (output : List UInt8) : List UInt8 → Result (List UInt8)
  | [] => .ok output
  | byte :: bytes =>
    if byte == 0x25 then
      match bytes with
      | high :: low :: bytes =>
        match TargetBytes.hexValue high,TargetBytes.hexValue low with
        | some high,some low =>
          let decoded := joinNibbles high low
          if (decoded == 0x2f || decoded == 0x5c) && context = .path then invalidTarget "encoded_separator"
          else if decoded ≤ 31 || decoded == 127 then invalidTarget "encoded_control"
          else normalizeFrom context (output ++ pushEncoded decoded) bytes
        | _,_ => invalidTarget "invalid_percent_encoding"
      | _ => invalidTarget "invalid_percent_encoding"
    else normalizeFrom context (output ++ charFrom byte) bytes

def normalizePercentEncoding (value : List UInt8) (context : PercentContext) : Result (List UInt8) :=
  normalizeFrom context [] value

def keepSegment (count : Nat) (kept : List (List UInt8)) (indexed : List UInt8 × Nat) :
    Result (List (List UInt8)) :=
  let finalSegment := indexed.2 + 1 == count
  if indexed.1 == ascii "." then .ok (if finalSegment then kept ++ [[]] else kept)
  else if indexed.1 == ascii ".." then
    if kept.isEmpty then invalidTarget "path_traversal"
    else .ok (if finalSegment then kept.dropLast ++ [[]] else kept.dropLast)
  else .ok (kept ++ [indexed.1])

def removeDotSegments (path : List UInt8) : Result (List UInt8) := do
  let segments := (path.drop 1).splitOn 0x2f
  let kept ← segments.zipIdx.foldlM (keepSegment segments.length) []
  .ok (0x2f :: List.intercalate [0x2f] kept)

def canonicalPath (input : List UInt8) : Result CanonicalPath := do
  let (rawPath,rawQuery) := splitQuery input
  if rawPath.isEmpty || !startsWith 0x2f rawPath then invalidTarget "invalid_path"
  else
    let decodedPath ← normalizePercentEncoding rawPath .path
    let routingPath ← removeDotSegments decodedPath
    let pathAndQuery ← match rawQuery with
      | some query => do
        let query ← normalizePercentEncoding query .query
        .ok (routingPath ++ 0x3f :: query)
      | none => .ok routingPath
    if pathAndQuery.length > targetLimit then targetTooLong pathAndQuery.length
    else .ok ⟨pathAndQuery,routingPath⟩

def parsePort (value : List UInt8) : Result Nat := portNumber value

def portFromSuffix (suffix : List UInt8) (rule : PortRule) : Result (Option Nat) :=
  match suffix,rule with
  | [],.optional => .ok none
  | [],.required => invalidAuthority
  | byte :: port,_ => if byte == 0x3a then (parsePort port).map some else invalidAuthority

def bracketedAuthority (valueAfterBracket : List UInt8) (portRule : PortRule) :
    Result (List UInt8 × Option Nat) :=
  match position (· == 0x5d) valueAfterBracket with
  | none => invalidAuthority
  | some close =>
    let address := valueAfterBracket.take close
    if !isIpv6 address || address.contains 0x25 then invalidAuthority
    else do
      let port ← portFromSuffix (valueAfterBracket.drop (close + 1)) portRule
      .ok (0x5b :: (address.map toAsciiLowercase ++ [0x5d]),port)

def dnsAuthority (value : List UInt8) (portRule : PortRule) : Result (List UInt8 × Option Nat) := do
  let (rawHost,suffix) := splitPort value
  if rawHost.contains 0x3a then invalidAuthority
  else
    let host := (stripSuffix 0x2e rawHost).getD rawHost
    if host.isEmpty || host.length > 253 || !host.all isAscii then invalidAuthority
    else if !(host.splitOn 0x2e).all validDnsLabel then invalidAuthority
    else
      let port ← match suffix,portRule with
        | some rawPort,_ => (parsePort rawPort).map some
        | none,.optional => .ok none
        | none,.required => invalidAuthority
      .ok (host.map toAsciiLowercase,port)

def canonicalAuthority (value : List UInt8) (portRule : PortRule) : Result (List UInt8) := do
  if value.isEmpty || value.any isForeign then invalidAuthority
  else
    let (host,port) ← if startsWith 0x5b value then bracketedAuthority (value.drop 1) portRule
      else dnsAuthority value portRule
    .ok (withPort host port)

/-- The path of an absolute target, from what follows its authority. -/
def absolutePath (suffix : List UInt8) : List UInt8 :=
  if suffix.isEmpty then ascii "/" else if startsWith 0x3f suffix then 0x2f :: suffix else suffix

def normalizeAbsolute (scheme : Scheme) (remainder : List UInt8) : Result NormalizedTarget := do
  let authorityEnd := (position (fun byte => byte == 0x2f || byte == 0x3f) remainder).getD remainder.length
  let authority ← canonicalAuthority (remainder.take authorityEnd) .optional
  let path ← canonicalPath (absolutePath (remainder.drop authorityEnd))
  .ok ⟨.absolute,some scheme.name,some authority,path.pathAndQuery,path.routingPath⟩

def normalizeRequestTarget (request : RequestLine) : Result NormalizedTarget := do
  let target ← checkedBoundary request.target
  match methodKind request.method,classifySyntax target with
  | .options,.asterisk => .ok (fixedTarget .asterisk none (ascii "*"))
  | _,.asterisk => invalidTarget "asterisk_method"
  | .connect,.unclassified authority => do
    let authority ← canonicalAuthority authority .required
    .ok (fixedTarget .authority (some authority) authority)
  | .connect,_ => invalidTarget "connect_requires_authority"
  | _,.origin value => do
    let path ← canonicalPath value
    .ok ⟨.origin,none,none,path.pathAndQuery,path.routingPath⟩
  | _,.absolute scheme remainder => normalizeAbsolute scheme remainder
  | _,.unclassified _ => invalidTarget "authority_method"

end RequestTargetRules

namespace RequestTargetValidatedPipeline

inductive ValidatedAuthority where
  | dns (host : List UInt8) (port : Option Nat)
  | ipv6 (address : List UInt8) (port : Option Nat)

structure ValidatedPath where
  path : Option (List UInt8)
  query : Option (List UInt8)

inductive ValidatedTarget where
  | asterisk
  | authority (authority : ValidatedAuthority)
  | origin (path : ValidatedPath)
  | absolute (scheme : List UInt8) (authority : ValidatedAuthority) (path : ValidatedPath)

inductive PercentToken where
  | literal (byte : UInt8)
  | encoded (byte : UInt8)

def hexValue (byte : UInt8) : UInt8 := (TargetBytes.hexValue byte).getD 0

/-- The items of the `PercentTokens` iterator over validated text. -/
def percentTokens : List UInt8 → List PercentToken
  | [] => []
  | first :: tail =>
    if first == 0x25 then
      match tail with
      | high :: low :: remaining => .encoded (joinNibbles (hexValue high) (hexValue low)) :: percentTokens remaining
      | _ => []
    else .literal first :: percentTokens tail

def validateTargetBoundary (target : List UInt8) : Result Unit := envelope target

def absoluteSchemes : List (List UInt8 × List UInt8) :=
  [(httpPrefix,ascii "http"),(httpsPrefix,ascii "https")]

def absoluteScheme (target : List UInt8) : Option (List UInt8 × List UInt8) :=
  absoluteSchemes.find? fun scheme => startsAsciiCaseInsensitive target scheme.1

def validatePercentEncoding (rejectSeparators : Bool) : List UInt8 → Result Unit
  | [] => .ok ()
  | byte :: tail =>
    if byte != 0x25 then validatePercentEncoding rejectSeparators tail
    else match tail with
      | high :: low :: afterLow =>
        if !isAsciiHexdigit high || !isAsciiHexdigit low then invalidTarget "invalid_percent_encoding"
        else
          let decoded := joinNibbles (hexValue high) (hexValue low)
          if rejectSeparators && (decoded == 0x2f || decoded == 0x5c) then invalidTarget "encoded_separator"
          else if isAsciiControl decoded then invalidTarget "encoded_control"
          else validatePercentEncoding rejectSeparators afterLow
      | _ => invalidTarget "invalid_percent_encoding"

def decodedUnreserved : PercentToken → UInt8
  | .literal byte => byte
  | .encoded byte => if isUnreserved byte then byte else 0x25

def decodedDotKind (segment : List UInt8) : Option Nat :=
  let tokens := (percentTokens segment).map decodedUnreserved
  if tokens == ascii "." then some 1
  else if tokens == ascii ".." then some 2
  else none

def descend (depth : Nat) (segment : List UInt8) : Result Nat :=
  match decodedDotKind segment with
  | some 1 => .ok depth
  | some 2 => if depth = 0 then invalidTarget "path_traversal" else .ok (depth - 1)
  | _ => .ok (depth + 1)

def validateNoRootEscape (path : List UInt8) : Result Unit := do
  let _ ← ((path.drop 1).splitOn 0x2f).foldlM descend 0
  .ok ()

def validatePathParts (path query : Option (List UInt8)) : Result ValidatedPath := do
  if path.any fun value => value.isEmpty || !startsWith 0x2f value then invalidTarget "invalid_path"
  else
    match path with
    | some value => do
      validatePercentEncoding true value
      validateNoRootEscape value
    | none => .ok ()
    match query with
    | some value => validatePercentEncoding false value
    | none => .ok ()
    .ok ⟨path,query⟩

def validatePath (value : List UInt8) : Result ValidatedPath :=
  let (path,query) := splitQuery value
  validatePathParts (some path) query

def validatePort (value : List UInt8) : Result Nat := portNumber value

def validatePortSuffix (suffix : List UInt8) (required : Bool) : Result (Option Nat) :=
  if suffix.isEmpty && !required then .ok none
  else if startsWith 0x3a suffix then (validatePort (suffix.drop 1)).map some
  else invalidAuthority

def validateIpv6Authority (afterOpen : List UInt8) (portRequired : Bool) : Result ValidatedAuthority :=
  match position (· == 0x5d) afterOpen with
  | none => invalidAuthority
  | some close =>
    let address := afterOpen.take close
    if address.contains 0x25 || !isIpv6 address then invalidAuthority
    else do
      let port ← validatePortSuffix (afterOpen.drop (close + 1)) portRequired
      .ok (.ipv6 address port)

def validateDnsAuthority (value : List UInt8) (portRequired : Bool) : Result ValidatedAuthority := do
  let (rawHost,rawPort) := splitPort value
  if rawHost.contains 0x3a then invalidAuthority
  else
    let host := (stripSuffix 0x2e rawHost).getD rawHost
    let labelsValid := !host.isEmpty && host.length ≤ 253 && host.all isAscii &&
      (host.splitOn 0x2e).all validDnsLabel
    if !labelsValid then invalidAuthority
    else
      let port ← match rawPort with
        | some value => (validatePort value).map some
        | none => if portRequired then invalidAuthority else .ok none
      .ok (.dns host port)

def validateAuthority (value : List UInt8) (portRequired : Bool) : Result ValidatedAuthority :=
  if value.isEmpty || value.any isForeign then invalidAuthority
  else if startsWith 0x5b value then validateIpv6Authority (value.drop 1) portRequired
  else validateDnsAuthority value portRequired

/-- The path of an absolute target, from what follows its authority. -/
def validateSuffix (suffix : List UInt8) : Result ValidatedPath :=
  if startsWith 0x3f suffix then validatePathParts none (some (suffix.drop 1))
  else if suffix.isEmpty then validatePathParts none none
  else validatePath suffix

def validateAbsolute (remainder scheme : List UInt8) : Result ValidatedTarget := do
  let authorityLength := (position (fun byte => byte == 0x2f || byte == 0x3f) remainder).getD remainder.length
  let authority ← validateAuthority (remainder.take authorityLength) false
  let path ← validateSuffix (remainder.drop authorityLength)
  .ok (.absolute scheme authority path)

def validatedPlan (request : RequestLine) : Result ValidatedTarget := do
  validateTargetBoundary request.target
  if request.target == ascii "*" then
    if request.method == ascii "options" then .ok .asterisk else invalidTarget "asterisk_method"
  else if request.method == ascii "connect" then
    if startsWith 0x2f request.target || (absoluteScheme request.target).isSome then
      invalidTarget "connect_requires_authority"
    else (validateAuthority request.target true).map .authority
  else if startsWith 0x2f request.target then (validatePath request.target).map .origin
  else match absoluteScheme request.target with
    | none => invalidTarget "authority_method"
    | some (schemePrefix,schemeName) => validateAbsolute (request.target.drop schemePrefix.length) schemeName

def pushToken (output : List UInt8) : PercentToken → List UInt8
  | .literal byte => output ++ charFrom byte
  | .encoded byte => output ++ pushEncoded byte

def canonicalComponent (value : List UInt8) : List UInt8 := (percentTokens value).foldl pushToken []

def keepSegment (lastIndex : Nat) (kept : List (List UInt8)) (indexed : List UInt8 × Nat) : List (List UInt8) :=
  if indexed.1 == ascii "." then if indexed.2 == lastIndex then kept ++ [[]] else kept
  else if indexed.1 == ascii ".." then
    if indexed.2 == lastIndex then kept.dropLast ++ [[]] else kept.dropLast
  else kept ++ [indexed.1]

def canonicalPath (path : ValidatedPath) : List UInt8 × List UInt8 :=
  let rawPath := path.path.getD (ascii "/")
  let lastIndex := ((rawPath.drop 1).splitOn 0x2f).length - 1
  let segments := (((rawPath.drop 1).splitOn 0x2f).map canonicalComponent).zipIdx.foldl (keepSegment lastIndex) []
  let routingPath := 0x2f :: List.intercalate [0x2f] segments
  match path.query with
  | none => (routingPath,routingPath)
  | some query => (routingPath ++ 0x3f :: canonicalComponent query,routingPath)

def canonicalAuthority : ValidatedAuthority → List UInt8
  | .dns host port => withPort (host.map toAsciiLowercase) port
  | .ipv6 address port => withPort (0x5b :: (address.map toAsciiLowercase ++ [0x5d])) port

def materialize : ValidatedTarget → NormalizedTarget
  | .asterisk => fixedTarget .asterisk none (ascii "*")
  | .authority authority => fixedTarget .authority (some (canonicalAuthority authority)) (canonicalAuthority authority)
  | .origin path => ⟨.origin,none,none,(canonicalPath path).1,(canonicalPath path).2⟩
  | .absolute scheme authority path =>
    ⟨.absolute,some scheme,some (canonicalAuthority authority),(canonicalPath path).1,(canonicalPath path).2⟩

def normalizeRequestTarget (request : RequestLine) : Result NormalizedTarget :=
  (validatedPlan request).map materialize

end RequestTargetValidatedPipeline

namespace RequestTargetInvariantOffsets

def validateTargetEnvelope (target : List UInt8) : Result Unit := envelope target

def schemePrefix (target : List UInt8) : Option (Nat × List UInt8) :=
  if startsAsciiCaseInsensitive target httpPrefix then some (httpPrefix.length,ascii "http")
  else if startsAsciiCaseInsensitive target httpsPrefix then some (httpsPrefix.length,ascii "https")
  else none

def validatePercentTriplets (path : Bool) : List UInt8 → Result Unit
  | [] => .ok ()
  | byte :: bytes =>
    if byte != 0x25 then validatePercentTriplets path bytes
    else match bytes with
      | high :: low :: bytes =>
        match TargetBytes.hexValue high with
        | none => invalidTarget "invalid_percent_encoding"
        | some high =>
          match TargetBytes.hexValue low with
          | none => invalidTarget "invalid_percent_encoding"
          | some low =>
            let decoded := joinNibbles high low
            if path && (decoded == 0x2f || decoded == 0x5c) then invalidTarget "encoded_separator"
            else if decoded ≤ 31 || decoded == 127 then invalidTarget "encoded_control"
            else validatePercentTriplets path bytes
      | _ => invalidTarget "invalid_percent_encoding"

/-- The byte of two digits of validated text. -/
def decodedByte (high low : UInt8) : UInt8 :=
  joinNibbles ((TargetBytes.hexValue high).getD 0) ((TargetBytes.hexValue low).getD 0)

/-- The loop of `decoded_dot_count` behind the cursor. -/
def dotCountFrom (count : Nat) : List UInt8 → Nat
  | [] => count
  | byte :: bytes =>
    if byte == 0x25 then
      match bytes with
      | high :: low :: bytes =>
        if decodedByte high low != 0x2e || count == 2 then 0 else dotCountFrom (count + 1) bytes
      | _ => 0
    else if byte != 0x2e || count == 2 then 0
    else dotCountFrom (count + 1) bytes

def decodedDotCount (segment : List UInt8) : Nat := dotCountFrom 0 segment

/-- The loop of `validate_root_balance` at the start of a segment. -/
def rootBalanceFrom (depth : Nat) : Nat → List UInt8 → Result Unit
  | 0,_ => .ok ()
  | fuel + 1,bytes =>
    let stop := (position (· == 0x2f) bytes).getD bytes.length
    let dots := decodedDotCount (bytes.take stop)
    if dots == 2 && depth == 0 then invalidTarget "path_traversal"
    else
      let depth := if dots == 2 then depth - 1 else if dots != 1 then depth + 1 else depth
      if stop == bytes.length then .ok () else rootBalanceFrom depth fuel (bytes.drop (stop + 1))

def validateRootBalance (path : List UInt8) : Result Unit := rootBalanceFrom 0 path.length (path.drop 1)

def validatePathAndQuery (value : List UInt8) : Result Unit := do
  let question := position (· == 0x3f) value
  let pathEnd := question.getD value.length
  if pathEnd == 0 || !startsWith 0x2f value then invalidTarget "invalid_path"
  else
    validatePercentTriplets true (value.take pathEnd)
    match question with
    | some index => validatePercentTriplets false (value.drop (index + 1))
    | none => .ok ()
    validateRootBalance (value.take pathEnd)

def appendCanonical (output : List UInt8) : List UInt8 → List UInt8
  | [] => output
  | byte :: bytes =>
    if byte != 0x25 then appendCanonical (output ++ charFrom byte) bytes
    else match bytes with
      | high :: low :: bytes => appendCanonical (output ++ pushEncoded (decodedByte high low)) bytes
      | _ => output

/-- What one round of the loop of `transform_path_and_query` leaves in `output` and `segment_offsets`. -/
def transformSegment (output : List UInt8) (segmentOffsets : List Nat) (raw : List UInt8) (finalSegment : Bool) :
    List UInt8 × List Nat :=
  let outputOffset := output.length
  let extended := appendCanonical (output ++ [0x2f]) raw
  let segment := extended.drop (outputOffset + 1)
  if segment == ascii "." then
    let output := extended.take outputOffset
    (if finalSegment then output ++ [0x2f] else output,segmentOffsets)
  else if segment == ascii ".." then
    let output := (extended.take outputOffset).take (segmentOffsets.getLast?.getD 0)
    (if finalSegment then output ++ [0x2f] else output,segmentOffsets.dropLast)
  else (extended,segmentOffsets ++ [outputOffset])

def transformFrom (output : List UInt8) (segmentOffsets : List Nat) : Nat → List UInt8 → List UInt8
  | 0,_ => output
  | fuel + 1,rawPath =>
    let stop := (position (· == 0x2f) rawPath).getD rawPath.length
    let finalSegment := stop == rawPath.length
    let (output,segmentOffsets) := transformSegment output segmentOffsets (rawPath.take stop) finalSegment
    if finalSegment then output else transformFrom output segmentOffsets fuel (rawPath.drop (stop + 1))

def transformPathAndQuery (value : List UInt8) : List UInt8 × List UInt8 :=
  let question := position (· == 0x3f) value
  let rawPath := value.take (question.getD value.length)
  let routingPath := transformFrom [] [] rawPath.length (rawPath.drop 1)
  match question with
  | some index => (appendCanonical (routingPath ++ [0x3f]) (value.drop (index + 1)),routingPath)
  | none => (routingPath,routingPath)

def parsePort (value : List UInt8) : Result Nat := portNumber value

def normalizePortSuffix (suffix : List UInt8) (required : Bool) : Result (Option Nat) :=
  if suffix.isEmpty then if required then invalidAuthority else .ok none
  else if startsWith 0x3a suffix then (parsePort (suffix.drop 1)).map some
  else invalidAuthority

def normalizeIpv6Authority (value : List UInt8) (portRequired : Bool) : Result (List UInt8) :=
  match position (· == 0x5d) value with
  | none => invalidAuthority
  | some close =>
    let address := slice value 1 close
    if address.isEmpty || address.contains 0x25 || !isIpv6 address then invalidAuthority
    else do
      let port ← normalizePortSuffix (value.drop (close + 1)) portRequired
      .ok (withPort (0x5b :: (address.map toAsciiLowercase ++ [0x5d])) port)

def normalizeDnsAuthority (value : List UInt8) (portRequired : Bool) : Result (List UInt8) := do
  let (rawHost,rawPort) := splitPort value
  if rawHost.contains 0x3a then invalidAuthority
  else
    let host := (stripSuffix 0x2e rawHost).getD rawHost
    if host.isEmpty || host.length > 253 || !host.all isAscii then invalidAuthority
    else if (host.splitOn 0x2e).any fun label => !validDnsLabel label then invalidAuthority
    else
      let port ← match rawPort with
        | some port => (parsePort port).map some
        | none => if portRequired then invalidAuthority else .ok none
      .ok (withPort (host.map toAsciiLowercase) port)

def normalizeAuthority (value : List UInt8) (portRequired : Bool) : Result (List UInt8) :=
  if value.isEmpty || value.any isForeign then invalidAuthority
  else if startsWith 0x5b value then normalizeIpv6Authority value portRequired
  else normalizeDnsAuthority value portRequired

def finishPathTarget (form : TargetForm) (scheme authority : Option (List UInt8))
    (pathAndQuery routingPath : List UInt8) : Result NormalizedTarget :=
  if pathAndQuery.length > targetLimit then targetTooLong pathAndQuery.length
  else .ok ⟨form,scheme,authority,pathAndQuery,routingPath⟩

/-- Validation, transformation and the limit, in the order of every path target. -/
def pathTarget (form : TargetForm) (scheme authority : Option (List UInt8)) (path : List UInt8) :
    Result NormalizedTarget := do
  validatePathAndQuery path
  let (pathAndQuery,routingPath) := transformPathAndQuery path
  finishPathTarget form scheme authority pathAndQuery routingPath

def normalizeAbsolute (remainder scheme : List UInt8) : Result NormalizedTarget := do
  let boundary := (position (fun byte => byte == 0x2f || byte == 0x3f) remainder).getD remainder.length
  let authority ← normalizeAuthority (remainder.take boundary) false
  let suffix := remainder.drop boundary
  if startsWith 0x2f suffix then pathTarget .absolute (some scheme) (some authority) suffix
  else pathTarget .absolute (some scheme) (some authority) (if suffix.isEmpty then ascii "/" else 0x2f :: suffix)

def normalizeRequestTarget (request : RequestLine) : Result NormalizedTarget := do
  validateTargetEnvelope request.target
  if request.target == ascii "*" then
    if request.method != ascii "options" then invalidTarget "asterisk_method"
    else .ok (fixedTarget .asterisk none (ascii "*"))
  else if request.method == ascii "connect" then
    if startsWith 0x2f request.target || (schemePrefix request.target).isSome then
      invalidTarget "connect_requires_authority"
    else do
      let authority ← normalizeAuthority request.target true
      .ok (fixedTarget .authority (some authority) authority)
  else if startsWith 0x2f request.target then pathTarget .origin none none request.target
  else match schemePrefix request.target with
    | none => invalidTarget "authority_method"
    | some (prefixLength,scheme) => normalizeAbsolute (request.target.drop prefixLength) scheme

end RequestTargetInvariantOffsets

namespace RequestTargetTypedMatrix

inductive MethodKind where
  | connect
  | options
  | other

inductive Scheme where
  | http
  | https

def Scheme.text : Scheme → List UInt8
  | .http => ascii "http"
  | .https => ascii "https"

inductive TargetKind where
  | asterisk
  | origin (value : List UInt8)
  | absolute (scheme : Scheme) (remainder : List UInt8)
  | unclassified (value : List UInt8)

structure Boundary where
  method : MethodKind
  target : TargetKind

structure CanonicalPath where
  pathAndQuery : List UInt8
  routingPath : List UInt8

inductive AuthorityPort where
  | required
  | optional

inductive EscapeContext where
  | path
  | query
deriving DecidableEq

def asciiPrefix (value word : List UInt8) : Bool := startsAsciiCaseInsensitive value word

def Boundary.check (request : RequestLine) : Result Boundary :=
  if request.target.length > targetLimit then targetTooLong request.target.length
  else
    let method : MethodKind :=
      if eqIgnoreAsciiCase request.method (ascii "CONNECT") then .connect
      else if eqIgnoreAsciiCase request.method (ascii "OPTIONS") then .options
      else .other
    let target : TargetKind :=
      if request.target == ascii "*" then .asterisk
      else if startsWith 0x2f request.target then .origin request.target
      else if asciiPrefix request.target httpPrefix then .absolute .http (request.target.drop 7)
      else if asciiPrefix request.target httpsPrefix then .absolute .https (request.target.drop 8)
      else .unclassified request.target
    .ok ⟨method,target⟩

def upperHex (value : UInt8) : UInt8 := if value ≤ 9 then 0x30 + value else 0x41 + value - 10

/-- The bytes that `canonical_escapes` refuses outside an escape. -/
def isForbidden (byte : UInt8) : Bool := byte == 0x5c || byte == 0x20 || byte ≤ 31 || byte == 127

/-- The loop of `canonical_escapes` behind the cursor. -/
def escapesFrom (context : EscapeContext) (output : List UInt8) : List UInt8 → Result (List UInt8)
  | [] => .ok output
  | byte :: source =>
    if isForbidden byte then invalidTarget "forbidden_character"
    else if byte == 0x25 then
      match source with
      | high :: low :: source =>
        match TargetBytes.hexValue high,TargetBytes.hexValue low with
        | some high,some low =>
          let decoded := joinNibbles high low
          if context = .path && (decoded == 0x2f || decoded == 0x5c) then invalidTarget "encoded_separator"
          else if decoded ≤ 31 || decoded == 127 then invalidTarget "encoded_control"
          else if isUnreserved decoded then escapesFrom context (output ++ [decoded]) source
          else escapesFrom context (output ++ [0x25,upperHex (decoded >>> 4),upperHex (decoded &&& 0x0f)]) source
        | _,_ => invalidTarget "invalid_percent_encoding"
      | _ => invalidTarget "invalid_percent_encoding"
    else escapesFrom context (output ++ [byte]) source

def canonicalEscapes (raw : List UInt8) (context : EscapeContext) : Result (List UInt8) := do
  let output ← escapesFrom context [] raw
  match Utf8.fromUtf8 output with
  | some text => .ok text
  | none => invalidTarget "invalid_encoding"

def keepSegment (count : Nat) (kept : List (List UInt8)) (indexed : List UInt8 × Nat) :
    Result (List (List UInt8)) :=
  let last := indexed.2 + 1 == count
  if indexed.1 == ascii "." then .ok (if last then kept ++ [[]] else kept)
  else if indexed.1 == ascii ".." then
    if kept.length == 1 then invalidTarget "path_traversal"
    else
      let kept := kept.dropLast
      .ok (if last && kept.getLast? != some [] then kept ++ [[]] else kept)
  else .ok (kept ++ [indexed.1])

def reduceDotSegments (path : List UInt8) : Result (List UInt8) := do
  let segments := (path.splitOn 0x2f).drop 1
  let kept ← segments.zipIdx.foldlM (keepSegment segments.length) [[]]
  let result := List.intercalate [0x2f] kept
  .ok (if result.isEmpty then result ++ [0x2f] else result)

def canonicalPathQuery (raw : List UInt8) : Result CanonicalPath := do
  if !startsWith 0x2f raw then invalidTarget "invalid_form"
  else if raw.contains 0x23 then invalidTarget "fragment"
  else
    let (path,query) := splitQuery raw
    let decodedPath ← canonicalEscapes path .path
    let routingPath ← reduceDotSegments decodedPath
    let pathAndQuery ← match query with
      | some value => do
        let query ← canonicalEscapes value .query
        .ok (routingPath ++ 0x3f :: query)
      | none => .ok routingPath
    if pathAndQuery.length > targetLimit then targetTooLong pathAndQuery.length
    else .ok ⟨pathAndQuery,routingPath⟩

def validDnsLabel (label : List UInt8) : Bool :=
  (1 ≤ label.length && label.length ≤ 63) && label.all isLabelByte &&
    label.head?.any isAsciiAlphanumeric && label.getLast?.any isAsciiAlphanumeric

def validatePort (raw : List UInt8) : Result Unit :=
  if raw.isEmpty || !raw.all isAsciiDigit then invalidAuthority
  else match parseUnsigned u32Max raw with
    | some port => if 1 ≤ port && port ≤ 65535 then .ok () else invalidAuthority
    | none => invalidAuthority

def bracketedHost (raw : List UInt8) : Result (List UInt8 × Option (List UInt8)) :=
  match position (· == 0x5d) raw with
  | none => invalidAuthority
  | some closing =>
    let literal := slice raw 1 closing
    if literal.isEmpty || literal.contains 0x25 || !isIpv6 literal then invalidAuthority
    else
      let suffix := raw.drop (closing + 1)
      if suffix.isEmpty then .ok (raw.take (closing + 1),none)
      else if startsWith 0x3a suffix then .ok (raw.take (closing + 1),some (suffix.drop 1))
      else invalidAuthority

def namedHost (raw : List UInt8) : Result (List UInt8 × Option (List UInt8)) := do
  let (hostWithDot,port) ← match splitOnce 0x3a raw with
    | some (host,port) => if port.contains 0x3a then invalidAuthority else .ok (host,some port)
    | none => .ok (raw,none)
  let host := (stripSuffix 0x2e hostWithDot).getD hostWithDot
  if host.isEmpty || host.length > 253 || !(host.splitOn 0x2e).all validDnsLabel ||
      (ascii "..").isSuffixOf hostWithDot then invalidAuthority
  else .ok (host,port)

/-- The host of `CanonicalAuthority::parse`, by its first byte. -/
def parseHost (raw : List UInt8) : Result (List UInt8 × Option (List UInt8)) :=
  if startsWith 0x5b raw then bracketedHost raw else namedHost raw

def checkPort : AuthorityPort → Option (List UInt8) → Result Unit
  | .required,none => invalidAuthority
  | .optional,none => .ok ()
  | _,some value => validatePort value

def renderAuthority (host : List UInt8) : Option (List UInt8) → List UInt8
  | none => host.map toAsciiLowercase
  | some value => host.map toAsciiLowercase ++ 0x3a :: value

def canonicalAuthority (raw : List UInt8) (portRule : AuthorityPort) : Result (List UInt8) :=
  if raw.isEmpty || !raw.all isAscii then invalidAuthority
  else do
    let (host,port) ← parseHost raw
    checkPort portRule port
    .ok (renderAuthority host port)

def originResult (raw : List UInt8) : Result NormalizedTarget := do
  let canonical ← canonicalPathQuery raw
  .ok ⟨.origin,none,none,canonical.pathAndQuery,canonical.routingPath⟩

/-- The path of an absolute target, from what follows its authority. -/
def tailPath (tail : List UInt8) : Result (List UInt8) :=
  if tail.isEmpty then .ok (ascii "/")
  else if startsWith 0x3f tail then .ok (0x2f :: tail)
  else if startsWith 0x2f tail then .ok tail
  else invalidTarget "invalid_form"

def absoluteResult (scheme : Scheme) (remainder : List UInt8) : Result NormalizedTarget := do
  if remainder.contains 0x23 then invalidTarget "fragment"
  else
    let authorityEnd := (position (fun byte => byte == 0x2f || byte == 0x3f) remainder).getD remainder.length
    let tail := remainder.drop authorityEnd
    let authority ← canonicalAuthority (remainder.take authorityEnd) .optional
    let canonical ← canonicalPathQuery (← tailPath tail)
    .ok ⟨.absolute,some scheme.text,some authority,canonical.pathAndQuery,canonical.routingPath⟩

def authorityResult (raw : List UInt8) : Result NormalizedTarget := do
  let authority ← canonicalAuthority raw .required
  .ok (fixedTarget .authority (some authority) authority)

def normalizeRequestTarget (request : RequestLine) : Result NormalizedTarget := do
  let boundary ← Boundary.check request
  match boundary.method,boundary.target with
  | .options,.asterisk => .ok (fixedTarget .asterisk none (ascii "*"))
  | _,.asterisk => invalidTarget "asterisk_method"
  | .connect,.unclassified raw => authorityResult raw
  | .connect,_ => invalidTarget "connect_form"
  | _,.origin raw => originResult raw
  | _,.absolute scheme remainder => absoluteResult scheme remainder
  | _,.unclassified _ => invalidTarget "invalid_form"

end RequestTargetTypedMatrix

namespace RequestTargetComposableValidators

inductive Authority where
  | dns (host : List UInt8) (port : Option Nat)
  | ipv6 (literal : List UInt8) (port : Option Nat)

structure ValidatedParts where
  form : TargetForm
  scheme : Option (List UInt8)
  authority : Option Authority
  path : Option (List UInt8)
  query : Option (List UInt8)
  fixed : Option (List UInt8)

inductive ComponentKind where
  | path
  | query
deriving DecidableEq

inductive ComponentToken where
  | literal (byte : UInt8)
  | encoded (byte : UInt8)

/-- The items of the `ComponentTokens` iterator; a malformed escape is the last one. -/
def componentTokens : List UInt8 → List (Result ComponentToken)
  | [] => []
  | byte :: bytes =>
    if byte != 0x25 then .ok (.literal byte) :: componentTokens bytes
    else match bytes with
      | high :: low :: bytes =>
        match TargetBytes.hexValue high,TargetBytes.hexValue low with
        | some high,some low => .ok (.encoded (joinNibbles high low)) :: componentTokens bytes
        | _,_ => [invalidTarget "invalid_percent_encoding"]
      | _ => [invalidTarget "invalid_percent_encoding"]

def requireNonempty (target : List UInt8) : Result Unit :=
  if target.isEmpty then invalidTarget "empty_target" else .ok ()

def requireVisibleAscii (target : List UInt8) : Result Unit :=
  if target.all fun byte => 0x21 ≤ byte && byte ≤ 0x7e then .ok () else invalidTarget "invalid_target_byte"

def rejectFragment (target : List UInt8) : Result Unit :=
  if target.contains 0x23 then invalidTarget "fragment_not_allowed" else .ok ()

def rejectBackslash (target : List UInt8) : Result Unit :=
  if target.contains 0x5c then invalidTarget "backslash_not_allowed" else .ok ()

def validateEnvelope (target : List UInt8) : Result Unit := do
  if target.length > targetLimit then targetTooLong target.length
  else
    requireNonempty target
    requireVisibleAscii target
    rejectFragment target
    rejectBackslash target

def schemeTable : List (List UInt8 × List UInt8) := [(httpPrefix,ascii "http"),(httpsPrefix,ascii "https")]

def recognizedScheme (target : List UInt8) : Option (Nat × List UInt8) :=
  schemeTable.findSome? fun (word,name) =>
    if startsAsciiCaseInsensitive target word then some (word.length,name) else none

def checkToken (kind : ComponentKind) : ComponentToken → Result Unit
  | .literal _ => .ok ()
  | .encoded byte =>
    if (byte == 0x2f || byte == 0x5c) && kind = .path then invalidTarget "encoded_separator"
    else if byte ≤ 31 || byte == 127 then invalidTarget "encoded_control"
    else .ok ()

/-- The short-circuiting pass over the tokens. -/
def checkTokens (kind : ComponentKind) : List (Result ComponentToken) → Result Unit
  | [] => .ok ()
  | token :: tokens => do
    checkToken kind (← token)
    checkTokens kind tokens

def validateComponent (value : List UInt8) (kind : ComponentKind) : Result Unit :=
  checkTokens kind (componentTokens value)

def canonicalByte : ComponentToken → Option UInt8
  | .literal byte => some byte
  | .encoded byte => if isUnreserved byte then some byte else none

def transpose {α : Type} : Option (Result α) → Result (Option α)
  | none => .ok none
  | some item => item.map some

def dotSegment (segment : List UInt8) : Result Nat := do
  let canonical := (componentTokens segment).map fun token => token.map canonicalByte
  let first ← transpose canonical[0]?
  let second ← transpose canonical[1]?
  let third := canonical[2]?
  if first == some (some 0x2e) && second == none && third.isNone then .ok 1
  else if first == some (some 0x2e) && second == some (some 0x2e) && third.isNone then .ok 2
  else .ok 0

def descend (depth : Nat) (segment : List UInt8) : Result Nat := do
  match ← dotSegment segment with
  | 1 => .ok depth
  | 2 => if depth = 0 then invalidTarget "path_traversal" else .ok (depth - 1)
  | _ => .ok (depth + 1)

def validateRootBoundary (path : List UInt8) : Result Unit := do
  let _ ← ((path.drop 1).splitOn 0x2f).foldlM descend 0
  .ok ()

def validatePath (path : List UInt8) : Result Unit := do
  if path.isEmpty || !startsWith 0x2f path then invalidTarget "invalid_path"
  else
    validateComponent path .path
    validateRootBoundary path

def validateQuery : Option (List UInt8) → Result Unit
  | none => .ok ()
  | some value => validateComponent value .query

def validDnsLabel (label : List UInt8) : Bool :=
  (1 ≤ label.length && label.length ≤ 63) && label.all isLabelByte && !startsWith 0x2d label && !endsWith 0x2d label

def validatePort (value : List UInt8) : Result Nat := portNumber value

def validatePortSuffix (suffix : List UInt8) (required : Bool) : Result (Option Nat) :=
  if suffix.isEmpty && !required then .ok none
  else if startsWith 0x3a suffix then (validatePort (suffix.drop 1)).map some
  else invalidAuthority

def validateIpv6 (afterOpen : List UInt8) (portRequired : Bool) : Result Authority :=
  match position (· == 0x5d) afterOpen with
  | none => invalidAuthority
  | some closing =>
    let literal := afterOpen.take closing
    if literal.isEmpty || literal.contains 0x25 || !isIpv6 literal then invalidAuthority
    else do
      let port ← validatePortSuffix (afterOpen.drop (closing + 1)) portRequired
      .ok (.ipv6 literal port)

def validateDns (raw : List UInt8) (portRequired : Bool) : Result Authority := do
  let (hostWithDot,portText) := splitPort raw
  if hostWithDot.contains 0x3a then invalidAuthority
  else
    let host := (stripSuffix 0x2e hostWithDot).getD hostWithDot
    if host.isEmpty || host.length > 253 || !host.all isAscii || !(host.splitOn 0x2e).all validDnsLabel then
      invalidAuthority
    else
      let port ← match portText with
        | some value => (validatePort value).map some
        | none => if portRequired then invalidAuthority else .ok none
      .ok (.dns host port)

def validateAuthority (raw : List UInt8) (portRequired : Bool) : Result Authority :=
  if raw.isEmpty || raw.any isForeign then invalidAuthority
  else if startsWith 0x5b raw then validateIpv6 (raw.drop 1) portRequired
  else validateDns raw portRequired

/-- The path and query of an absolute target, from what follows its authority. -/
def splitTail (tail : List UInt8) : Option (List UInt8) × Option (List UInt8) :=
  if startsWith 0x3f tail then (none,some (tail.drop 1))
  else if tail.isEmpty then (none,none)
  else (some (splitQuery tail).1,(splitQuery tail).2)

def validateOptionalPath : Option (List UInt8) → Result Unit
  | none => .ok ()
  | some path => validatePath path

def validateAbsolute (remainder scheme : List UInt8) : Result ValidatedParts := do
  let authorityEnd := (position (fun byte => byte == 0x2f || byte == 0x3f) remainder).getD remainder.length
  let authority ← validateAuthority (remainder.take authorityEnd) false
  let (path,query) := splitTail (remainder.drop authorityEnd)
  validateOptionalPath path
  validateQuery query
  .ok ⟨.absolute,some scheme,some authority,path,query,none⟩

def validateAndDecompose (request : RequestLine) : Result ValidatedParts := do
  let raw := request.target
  if raw == ascii "*" then
    if request.method == ascii "options" then .ok ⟨.asterisk,none,none,none,none,some raw⟩
    else invalidTarget "asterisk_method"
  else if request.method == ascii "connect" then
    if startsWith 0x2f raw || (recognizedScheme raw).isSome then invalidTarget "connect_requires_authority"
    else
      let authority ← validateAuthority raw true
      .ok ⟨.authority,none,some authority,none,none,none⟩
  else if startsWith 0x2f raw then
    let (path,query) := splitQuery raw
    validatePath path
    validateQuery query
    .ok ⟨.origin,none,none,some path,query,none⟩
  else match recognizedScheme raw with
    | none => invalidTarget "authority_method"
    | some (prefixLength,scheme) => validateAbsolute (raw.drop prefixLength) scheme

def renderToken (output : List UInt8) : Result ComponentToken → List UInt8
  | .ok (.literal byte) => output ++ charFrom byte
  | .ok (.encoded byte) => output ++ pushEncoded byte
  | .error _ => output

def renderComponentInto (output value : List UInt8) : List UInt8 := (componentTokens value).foldl renderToken output

def renderComponent (value : List UInt8) : List UInt8 := renderComponentInto [] value

def keepSegment (last : Nat) (output : List (List UInt8)) (indexed : List UInt8 × Nat) : List (List UInt8) :=
  if indexed.1 == ascii "." then if indexed.2 == last then output ++ [[]] else output
  else if indexed.1 == ascii ".." then if indexed.2 == last then output.dropLast ++ [[]] else output.dropLast
  else output ++ [indexed.1]

def renderPath (path : List UInt8) : List UInt8 :=
  let last := ((path.drop 1).splitOn 0x2f).length - 1
  let segments := (((path.drop 1).splitOn 0x2f).map renderComponent).zipIdx.foldl (keepSegment last) []
  0x2f :: List.intercalate [0x2f] segments

def renderAuthority : Authority → List UInt8
  | .dns host port => withPort (host.map toAsciiLowercase) port
  | .ipv6 literal port => withPort (0x5b :: (literal.map toAsciiLowercase ++ [0x5d])) port

def renderQuery (routingPath : List UInt8) : Option (List UInt8) → List UInt8
  | none => routingPath
  | some query => renderComponentInto (routingPath ++ [0x3f]) query

def render (parts : ValidatedParts) : Result NormalizedTarget :=
  match parts.fixed with
  | some fixed => .ok (fixedTarget parts.form none fixed)
  | none =>
    if parts.form = .authority then
      let authority := (parts.authority.map renderAuthority).getD []
      .ok (fixedTarget parts.form (some authority) authority)
    else
      let routingPath := renderPath (parts.path.getD (ascii "/"))
      let pathAndQuery := renderQuery routingPath parts.query
      if pathAndQuery.length > targetLimit then targetTooLong pathAndQuery.length
      else .ok ⟨parts.form,parts.scheme,parts.authority.map renderAuthority,pathAndQuery,routingPath⟩

def normalizeRequestTarget (request : RequestLine) : Result NormalizedTarget := do
  validateEnvelope request.target
  render (← validateAndDecompose request)

end RequestTargetComposableValidators

/-- The registered implementations, in registry order. -/
def requestTargetImplementations : List (RequestLine → Result NormalizedTarget) :=
  [RequestTargetRules.normalizeRequestTarget,RequestTargetValidatedPipeline.normalizeRequestTarget,
    RequestTargetInvariantOffsets.normalizeRequestTarget,RequestTargetTypedMatrix.normalizeRequestTarget,
    RequestTargetComposableValidators.normalizeRequestTarget]

end Polyguard
