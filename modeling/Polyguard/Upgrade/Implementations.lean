import Polyguard.Model

/-! The five registered implementations of `decide_upgrade`.
A `HashSet` of members is the list of those inserted. A key is decoded into the
list of its bytes; the decoders walk over the same groups in loops of their own. -/
namespace Polyguard
open Ascii Slices

inductive UpgradeDecision where
  | reject
  | webSocket
  | none
deriving DecidableEq, Repr

def unsupportedUpgrade {α : Type} : Result α := .error .unsupportedUpgrade

def ambiguousFraming {α : Type} : Result α := .error .ambiguousFraming

/-- Whether `bytes.get(..n)` folds to the word of that length. -/
def opensWith (bytes word : List UInt8) : Bool :=
  decide (word.length ≤ bytes.length) && eqIgnoreAsciiCase (bytes.take word.length) word

/-- A path or one of the two schemes in any case. -/
def isOriginOrAbsolute (target : List UInt8) : Bool :=
  target.head? == some 0x2f || opensWith target (ascii "http://") || opensWith target (ascii "https://")

/-- Two loops: off the front while it is a blank, then off the back. -/
def trimUpgradeOws (value : List UInt8) : List UInt8 := (value.dropWhile isOws).rdropWhile isOws

/-- A base64 digit by ranges. -/
def base64Digit (byte : UInt8) : Option UInt8 :=
  if 0x41 ≤ byte && byte ≤ 0x5a then some (byte - 0x41)
  else if 0x61 ≤ byte && byte ≤ 0x7a then some (byte - 0x61 + 26)
  else if 0x30 ≤ byte && byte ≤ 0x39 then some (byte - 0x30 + 52)
  else if byte == 0x2b then some 62
  else if byte == 0x2f then some 63
  else none

/-- The three bytes of four digits. -/
def joinQuartet (a b c d : UInt8) : List UInt8 := [(a <<< 2) ||| (b >>> 4),(b <<< 4) ||| (c >>> 2),(c <<< 6) ||| d]

/-- Whole groups of four digits. -/
def decodeGroups (value : UInt8 → Option UInt8) : List UInt8 → Option (List UInt8)
  | a :: b :: c :: d :: rest => do
    let a ← value a
    let b ← value b
    let c ← value c
    let d ← value d
    let decoded ← decodeGroups value rest
    some (joinQuartet a b c d ++ decoded)
  | _ => some []

/-- The decoder of a key of 16 bytes over a table of digits. -/
def decodeKeyWith (value : UInt8 → Option UInt8) (encoded : List UInt8) : Option (List UInt8) :=
  if encoded.length ≠ 24 || encoded.drop 22 ≠ ascii "==" then none
  else do
    let decoded ← decodeGroups value (encoded.take 20)
    let high ← encoded[20]?.bind value
    let low ← encoded[21]?.bind value
    if low &&& 0x0f ≠ 0 then none else some (decoded ++ [(high <<< 2) ||| (low >>> 4)])

/-- The members of a list of protocols against those already seen, each of them new. -/
def uniqueFrom (seen : List (List UInt8)) : List (List UInt8) → Bool
  | [] => true
  | member :: members =>
    let token := trimUpgradeOws member
    if token.isEmpty || !token.all isTchar || seen.contains token then false
    else uniqueFrom (token :: seen) members

namespace UpgradeComposableTable

inductive Occurrence where
  | missing
  | one (valid : Bool)
  | repeated
deriving DecidableEq

def Occurrence.record (occurrence : Occurrence) (valid : Bool) : Occurrence :=
  match occurrence with
  | .missing => .one valid
  | .one _ => .repeated
  | .repeated => .repeated

def Occurrence.exists (occurrence : Occurrence) : Bool := occurrence ≠ .missing

inductive UpgradeIntent where
  | absent
  | oneSided
  | paired

inductive FramingSafety where
  | clear
  | bodyMetadata
  | ambiguous

inductive HandshakeShape where
  | complete
  | incomplete

structure UpgradeFields where
  connection : Occurrence
  connectionHasUpgrade : Bool
  upgrade : Occurrence
  version : Occurrence
  key : Occurrence
  protocol : Occurrence
  hasExtensions : Bool
  hasContentLength : Bool
  hasTransferEncoding : Bool

def UpgradeFields.empty : UpgradeFields := ⟨.missing,false,.missing,.missing,.missing,.missing,false,false,false⟩

/-- The members of a connection value: `None` at the first that is no token. -/
def inspectFrom (containsUpgrade : Bool) : List (List UInt8) → Option Bool
  | [] => some containsUpgrade
  | member :: members =>
    let token := trimUpgradeOws member
    if token.isEmpty || !token.all isTchar then none
    else inspectFrom (containsUpgrade || eqIgnoreAsciiCase token (ascii "upgrade")) members

def inspectConnection (value : List UInt8) : Option Bool := inspectFrom false (value.splitOn 0x2c)

def validProtocolList (value : List UInt8) : Bool := uniqueFrom [] (value.splitOn 0x2c)

def isCanonicalWebsocketKey (value : List UInt8) : Bool :=
  value.length == 24 && value.drop 22 == ascii "==" && (value.take 22).all (fun byte => (base64Digit byte).isSome) &&
    (value[21]?.bind base64Digit).any (fun digit => digit &&& 0x0f == 0)

def readField (result : UpgradeFields) (field : HeaderField) : UpgradeFields :=
  if field.name = ascii "connection" then
    let checked := inspectConnection field.value
    { result with
      connectionHasUpgrade := if checked = some true then true else result.connectionHasUpgrade,
      connection := result.connection.record checked.isSome }
  else if field.name = ascii "upgrade" then
    { result with
      upgrade := result.upgrade.record (eqIgnoreAsciiCase (trimUpgradeOws field.value) (ascii "websocket")) }
  else if field.name = ascii "sec-websocket-version" then
    { result with version := result.version.record (trimUpgradeOws field.value == ascii "13") }
  else if field.name = ascii "sec-websocket-key" then
    { result with key := result.key.record (isCanonicalWebsocketKey (trimUpgradeOws field.value)) }
  else if field.name = ascii "sec-websocket-protocol" then
    { result with protocol := result.protocol.record (validProtocolList field.value) }
  else if field.name = ascii "sec-websocket-extensions" then { result with hasExtensions := true }
  else if field.name = ascii "content-length" then { result with hasContentLength := true }
  else if field.name = ascii "transfer-encoding" then { result with hasTransferEncoding := true }
  else result

def read (headers : HeaderBlock) : UpgradeFields := headers.fields.foldl readField .empty

def intent (fields : UpgradeFields) : UpgradeIntent :=
  match fields.upgrade.exists,fields.connectionHasUpgrade with
  | false,false => .absent
  | true,true => .paired
  | true,false => .oneSided
  | false,true => .oneSided

def framingSafety (fields : UpgradeFields) (framing : BodyFraming) : FramingSafety :=
  if fields.hasContentLength && fields.hasTransferEncoding then .ambiguous
  else if fields.hasContentLength || fields.hasTransferEncoding || framing ≠ .none then .bodyMetadata
  else .clear

def handshakeShape (fields : UpgradeFields) (request : RequestLine) : HandshakeShape :=
  if (fields.connection = .one true && fields.upgrade = .one true && fields.version = .one true &&
      fields.key = .one true && (fields.protocol = .missing || fields.protocol = .one true)) &&
      !fields.hasExtensions && request.method == ascii "get" && isOriginOrAbsolute request.target then .complete
  else .incomplete

def decideUpgrade (request : RequestLine) (headers : HeaderBlock) (framing : BodyFraming) : Result UpgradeDecision :=
  let fields := read headers
  match intent fields,framingSafety fields framing,handshakeShape fields request with
  | .absent,_,_ => .ok .none
  | _,.ambiguous,_ => ambiguousFraming
  | .paired,.clear,.complete => .ok .webSocket
  | _,_,_ => unsupportedUpgrade

end UpgradeComposableTable

namespace UpgradeInvariantSignature

/-- The eight kinds of fields, each a bit of the masks. -/
inductive Kind where
  | connection
  | upgrade
  | version
  | key
  | protocol
  | extensions
  | contentLength
  | transferEncoding
deriving DecidableEq

def bit : Kind → UInt16
  | .connection => 1
  | .upgrade => 2
  | .version => 4
  | .key => 8
  | .protocol => 16
  | .extensions => 32
  | .contentLength => 64
  | .transferEncoding => 128

def requiredOnce : UInt16 := bit .connection ||| bit .upgrade ||| bit .version ||| bit .key

def uniqueFields : UInt16 := requiredOnce ||| bit .protocol

def forbiddenFields : UInt16 := bit .extensions ||| bit .contentLength ||| bit .transferEncoding

def headerLookup : List (List UInt8 × Kind) :=
  [(ascii "connection",.connection),(ascii "upgrade",.upgrade),(ascii "sec-websocket-version",.version),
    (ascii "sec-websocket-key",.key),(ascii "sec-websocket-protocol",.protocol),
    (ascii "sec-websocket-extensions",.extensions),(ascii "content-length",.contentLength),
    (ascii "transfer-encoding",.transferEncoding)]

def base64Alphabet : List UInt8 := ascii "ABCDEFGHIJKLMNOPQRSTUVWXYZabcdefghijklmnopqrstuvwxyz0123456789+/"

def base64Value (byte : UInt8) : Option UInt8 :=
  (position (fun candidate => candidate == byte) base64Alphabet).map UInt8.ofNat

def decodeCanonicalKey (encoded : List UInt8) : Option (List UInt8) := decodeKeyWith base64Value encoded

structure HeaderSignature where
  seen : UInt16
  duplicates : UInt16
  invalid : UInt16
  connectionUpgrade : Bool

/-- The members of a connection value: neither valid nor an intent at the first that is no token. -/
def validateFrom (hasUpgrade : Bool) : List (List UInt8) → Bool × Bool
  | [] => (true,hasUpgrade)
  | member :: members =>
    let token := trimUpgradeOws member
    if token.isEmpty || !token.all isTchar then (false,false)
    else validateFrom (hasUpgrade || eqIgnoreAsciiCase token (ascii "upgrade")) members

def validateConnection (value : List UInt8) : Bool × Bool := validateFrom false (value.splitOn 0x2c)

structure TrieNode where
  firstEdge : Option Nat
  terminal : Bool

structure TrieEdge where
  byte : UInt8
  child : Nat
  sibling : Option Nat

structure TokenTrie where
  nodes : List TrieNode
  edges : List TrieEdge

def TrieNode.new : TrieNode := ⟨none,false⟩

def TokenTrie.new : TokenTrie := ⟨[TrieNode.new],[]⟩

/-- The walk along the siblings of an edge, each older than the one before it. -/
def findEdge (edges : List TrieEdge) (byte : UInt8) : Nat → Option Nat → Option Nat
  | 0,_ => none
  | _,none => none
  | fuel + 1,some index =>
    match edges[index]? with
    | none => none
    | some edge => if edge.byte == byte then some edge.child else findEdge edges byte fuel edge.sibling

def childOf (trie : TokenTrie) (node : Nat) (byte : UInt8) : Option Nat :=
  trie.nodes[node]?.bind fun found => findEdge trie.edges byte trie.edges.length found.firstEdge

def insertByte (state : TokenTrie × Nat) (byte : UInt8) : TokenTrie × Nat :=
  match childOf state.1 state.2 byte with
  | some child => (state.1,child)
  | none =>
    let child := state.1.nodes.length
    let newEdge := state.1.edges.length
    ({ nodes := (state.1.nodes ++ [TrieNode.new]).modify state.2 fun node => { node with firstEdge := some newEdge },
       edges := state.1.edges ++ [⟨byte,child,state.1.nodes[state.2]?.bind (·.firstEdge)⟩] },
      child)

def terminalAt (trie : TokenTrie) (node : Nat) : Bool := trie.nodes[node]?.any (·.terminal)

/-- The trie after the insertion and whether the token is new. -/
def TokenTrie.insert (trie : TokenTrie) (token : List UInt8) : TokenTrie × Bool :=
  let (trie,node) := token.foldl insertByte (trie,0)
  ({ trie with nodes := trie.nodes.modify node fun found => { found with terminal := true } },!terminalAt trie node)

/-- `Iterator::all` over the members with the trie as its state. -/
def uniqueMembers (trie : TokenTrie) : List (List UInt8) → Bool
  | [] => true
  | member :: members =>
    let token := trimUpgradeOws member
    if token.isEmpty || !token.all isTchar then false
    else
      let (trie,fresh) := TokenTrie.insert trie token
      if fresh then uniqueMembers trie members else false

def validateProtocols (value : List UInt8) : Bool := uniqueMembers TokenTrie.new (value.splitOn 0x2c)

def validateValue (kind : Kind) (value : List UInt8) : Bool × Bool :=
  match kind with
  | .connection => validateConnection value
  | .upgrade => (eqIgnoreAsciiCase (trimUpgradeOws value) (ascii "websocket"),false)
  | .version => (trimUpgradeOws value == ascii "13",false)
  | .key => ((decodeCanonicalKey (trimUpgradeOws value)).isSome,false)
  | .protocol => (validateProtocols value,false)
  | .extensions => (true,false)
  | .contentLength => (true,false)
  | .transferEncoding => (true,false)

def signField (signature : HeaderSignature) (field : HeaderField) : HeaderSignature :=
  match headerLookup.findSome? fun entry => if field.name == entry.1 then some entry.2 else none with
  | none => signature
  | some kind =>
    let marker := bit kind
    let (valid,intent) := validateValue kind field.value
    ⟨if signature.seen &&& marker == 0 then signature.seen ||| marker else signature.seen,
      if signature.seen &&& marker == 0 then signature.duplicates else signature.duplicates ||| marker,
      if !valid then signature.invalid ||| marker else signature.invalid,
      signature.connectionUpgrade || intent⟩

def validate (headers : HeaderBlock) : HeaderSignature := headers.fields.foldl signField ⟨0,0,0,false⟩

def HeaderSignature.has (signature : HeaderSignature) (kind : Kind) : Bool := signature.seen &&& bit kind != 0

def isComplete (signature : HeaderSignature) (request : RequestLine) : Bool :=
  signature.seen &&& requiredOnce == requiredOnce && signature.duplicates &&& uniqueFields == 0 &&
    signature.invalid &&& uniqueFields == 0 && signature.seen &&& forbiddenFields == 0 &&
    signature.connectionUpgrade && request.method == ascii "get" && isOriginOrAbsolute request.target

inductive Intent where
  | absent
  | oneSided
  | paired

inductive FramingState where
  | clear
  | body
  | ambiguous

def intentOf (signature : HeaderSignature) : Intent :=
  match signature.has .upgrade,signature.connectionUpgrade with
  | false,false => .absent
  | true,true => .paired
  | false,true => .oneSided
  | true,false => .oneSided

def framingState (signature : HeaderSignature) (framing : BodyFraming) : FramingState :=
  match signature.has .contentLength,signature.has .transferEncoding,framing with
  | true,true,_ => .ambiguous
  | true,false,_ => .body
  | false,true,_ => .body
  | false,false,.none => .clear
  | false,false,_ => .body

def decideUpgrade (request : RequestLine) (headers : HeaderBlock) (framing : BodyFraming) : Result UpgradeDecision :=
  let signature := validate headers
  match intentOf signature,framingState signature framing,isComplete signature request with
  | .absent,_,_ => .ok .none
  | _,.ambiguous,_ => ambiguousFraming
  | .paired,.clear,true => .ok .webSocket
  | _,_,_ => unsupportedUpgrade

end UpgradeInvariantSignature

namespace UpgradeObservationPolicy

structure ConnectionValue where
  wellFormed : Bool
  requestsUpgrade : Bool

inductive UpgradeValue where
  | webSocket
  | other

inductive HeaderObservation where
  | connection (value : ConnectionValue)
  | upgrade (value : UpgradeValue)
  | version13 (valid : Bool)
  | key16 (valid : Bool)
  | protocolList (valid : Bool)
  | extensions
  | contentLength
  | transferEncoding

inductive Intent where
  | absent
  | oneSided
  | paired
deriving DecidableEq

inductive FramingPolicy where
  | clear
  | body
  | ambiguous
deriving DecidableEq

inductive HandshakePolicy where
  | complete
  | incomplete
deriving DecidableEq

inductive IntentPattern where
  | absent
  | present
  | paired

inductive FramingPattern where
  | any
  | clear
  | ambiguous

inductive HandshakePattern where
  | any
  | complete

inductive PolicyResult where
  | noUpgrade
  | webSocket
  | unsupported
  | ambiguous

inductive OptionalValue (α : Type) where
  | missing
  | one (value : α)
  | repeated

structure DecisionRow where
  intent : IntentPattern
  framing : FramingPattern
  handshake : HandshakePattern
  result : PolicyResult

def decisionTable : List DecisionRow :=
  [⟨.absent,.any,.any,.noUpgrade⟩,⟨.present,.ambiguous,.any,.ambiguous⟩,⟨.paired,.clear,.complete,.webSocket⟩,
    ⟨.present,.any,.any,.unsupported⟩]

def IntentPattern.fits (pattern : IntentPattern) (intent : Intent) : Bool :=
  match pattern with
  | .absent => intent = .absent
  | .present => intent ≠ .absent
  | .paired => intent = .paired

def FramingPattern.fits (pattern : FramingPattern) (framing : FramingPolicy) : Bool :=
  match pattern with
  | .any => true
  | .clear => framing = .clear
  | .ambiguous => framing = .ambiguous

def HandshakePattern.fits (pattern : HandshakePattern) (handshake : HandshakePolicy) : Bool :=
  match pattern with
  | .any => true
  | .complete => handshake = .complete

def DecisionRow.applies (row : DecisionRow) (intent : Intent) (framing : FramingPolicy) (handshake : HandshakePolicy) :
    Bool := row.intent.fits intent && row.framing.fits framing && row.handshake.fits handshake

def parseFrom (requestsUpgrade : Bool) : List (List UInt8) → ConnectionValue
  | [] => ⟨true,requestsUpgrade⟩
  | member :: members =>
    let token := trimUpgradeOws member
    if token.isEmpty || !token.all isTchar then ⟨false,false⟩
    else parseFrom (requestsUpgrade || eqIgnoreAsciiCase token (ascii "upgrade")) members

def parseConnection (value : List UInt8) : ConnectionValue := parseFrom false (value.splitOn 0x2c)

def validateProtocolList (value : List UInt8) : Bool := uniqueFrom [] (value.splitOn 0x2c)

def decodeCanonicalKey (encoded : List UInt8) : Option (List UInt8) := decodeKeyWith base64Digit encoded

def observeHeader (field : HeaderField) : Option HeaderObservation :=
  if field.name = ascii "connection" then some (.connection (parseConnection field.value))
  else if field.name = ascii "upgrade" then
    some (.upgrade (if eqIgnoreAsciiCase (trimUpgradeOws field.value) (ascii "websocket") then .webSocket else .other))
  else if field.name = ascii "sec-websocket-version" then
    some (.version13 (trimUpgradeOws field.value == ascii "13"))
  else if field.name = ascii "sec-websocket-key" then
    some (.key16 (decodeCanonicalKey (trimUpgradeOws field.value)).isSome)
  else if field.name = ascii "sec-websocket-protocol" then some (.protocolList (validateProtocolList field.value))
  else if field.name = ascii "sec-websocket-extensions" then some .extensions
  else if field.name = ascii "content-length" then some .contentLength
  else if field.name = ascii "transfer-encoding" then some .transferEncoding
  else none

def HeaderObservation.asConnection : HeaderObservation → Option ConnectionValue
  | .connection value => some value
  | _ => none

def HeaderObservation.asUpgrade : HeaderObservation → Option UpgradeValue
  | .upgrade value => some value
  | _ => none

def HeaderObservation.asVersion : HeaderObservation → Option Bool
  | .version13 valid => some valid
  | _ => none

def HeaderObservation.asKey : HeaderObservation → Option Bool
  | .key16 valid => some valid
  | _ => none

def HeaderObservation.asProtocols : HeaderObservation → Option Bool
  | .protocolList valid => some valid
  | _ => none

def HeaderObservation.isExtensions : HeaderObservation → Bool
  | .extensions => true
  | _ => false

def HeaderObservation.isContentLength : HeaderObservation → Bool
  | .contentLength => true
  | _ => false

def HeaderObservation.isTransferEncoding : HeaderObservation → Bool
  | .transferEncoding => true
  | _ => false

def ConnectionValue.upgrades (value : ConnectionValue) : Bool := value.wellFormed && value.requestsUpgrade

def classifyIntent (observations : List HeaderObservation) : Intent :=
  let upgradeField := observations.any fun item => item.asUpgrade.isSome
  let connectionToken := observations.any fun item => item.asConnection.any (·.upgrades)
  match upgradeField,connectionToken with
  | false,false => .absent
  | true,true => .paired
  | true,false => .oneSided
  | false,true => .oneSided

def classifyFraming (observations : List HeaderObservation) (framing : BodyFraming) : FramingPolicy :=
  let contentLength := observations.any (·.isContentLength)
  let transferEncoding := observations.any (·.isTransferEncoding)
  if contentLength && transferEncoding then .ambiguous
  else if contentLength || transferEncoding || framing ≠ .none then .body
  else .clear

def exactlyOne {α : Type} : List α → Option α
  | [value] => some value
  | _ => none

def optionalOne {α : Type} : List α → OptionalValue α
  | [] => .missing
  | [value] => .one value
  | _ => .repeated

def UpgradeValue.isWebSocket : UpgradeValue → Bool
  | .webSocket => true
  | .other => false

def OptionalValue.allowed : OptionalValue Bool → Bool
  | .missing => true
  | .one valid => valid
  | .repeated => false

def classifyHandshake (request : RequestLine) (observations : List HeaderObservation) : HandshakePolicy :=
  let connection := exactlyOne (observations.filterMap (·.asConnection))
  let upgrade := exactlyOne (observations.filterMap (·.asUpgrade))
  let version := exactlyOne (observations.filterMap (·.asVersion))
  let key := exactlyOne (observations.filterMap (·.asKey))
  let protocols := optionalOne (observations.filterMap (·.asProtocols))
  let forbidden := observations.any fun item => item.isExtensions || item.isContentLength || item.isTransferEncoding
  if connection.any (·.upgrades) && upgrade.any (·.isWebSocket) && version == some true && key == some true &&
      protocols.allowed && !forbidden && request.method == ascii "get" && isOriginOrAbsolute request.target then .complete
  else .incomplete

def resolve : PolicyResult → Result UpgradeDecision
  | .noUpgrade => .ok .none
  | .webSocket => .ok .webSocket
  | .unsupported => unsupportedUpgrade
  | .ambiguous => ambiguousFraming

/-- The table covers every state; the source ends the program where no row applies. -/
def decideUpgrade (request : RequestLine) (headers : HeaderBlock) (framing : BodyFraming) : Result UpgradeDecision :=
  let observations := headers.fields.filterMap observeHeader
  let intent := classifyIntent observations
  let framing := classifyFraming observations framing
  let handshake := classifyHandshake request observations
  match decisionTable.find? (·.applies intent framing handshake) with
  | none => .error .incomplete
  | some row => resolve row.result

end UpgradeObservationPolicy

namespace UpgradeObligationAlgebra

inductive Obligation where
  | opened
  | discharged
  | contradicted
deriving DecidableEq

def Obligation.supply (obligation : Obligation) (valid : Bool) : Obligation :=
  match obligation,valid with
  | .opened,true => .discharged
  | _,_ => .contradicted

inductive ConnectionEvidence where
  | upgrade
  | noUpgrade
  | invalid
deriving DecidableEq

inductive TargetEvidence where
  | origin
  | absolute
  | other
deriving DecidableEq

inductive Intent where
  | absent
  | partly
  | complete

inductive FramingEvidence where
  | clear
  | body
  | ambiguous

inductive HandshakeEvidence where
  | complete
  | incomplete

structure BoundaryFacts where
  connection : Obligation
  upgrade : Obligation
  version : Obligation
  key : Obligation
  protocol : Obligation
  upgradeFieldPresent : Bool
  connectionUpgradePresent : Bool
  extensionsPresent : Bool
  contentLengthPresent : Bool
  transferEncodingPresent : Bool

def BoundaryFacts.none : BoundaryFacts :=
  ⟨.opened,.opened,.opened,.opened,.opened,false,false,false,false,false⟩

def trimOws (value : List UInt8) : List UInt8 :=
  let start := (position (fun byte => !isOws byte) value).getD value.length
  let stop := ((rposition (fun byte => !isOws byte) value).map (· + 1)).getD start
  slice value start stop

def validateFrom (upgrade : Bool) : List (List UInt8) → ConnectionEvidence
  | [] => if upgrade then .upgrade else .noUpgrade
  | raw :: raws =>
    let token := trimOws raw
    if !token.isEmpty && token.all isTchar then
      validateFrom (if eqIgnoreAsciiCase token (ascii "upgrade") then true else upgrade) raws
    else .invalid

def validateConnection (value : List UInt8) : ConnectionEvidence := validateFrom false (value.splitOn 0x2c)

def uniqueFrom (seen : List (List UInt8)) : List (List UInt8) → Bool
  | [] => true
  | raw :: raws =>
    let token := trimOws raw
    match !token.isEmpty,token.all isTchar,!seen.contains token with
    | true,true,true => uniqueFrom (token :: seen) raws
    | _,_,_ => false

def uniqueProtocols (value : List UInt8) : Bool := uniqueFrom [] (value.splitOn 0x2c)

def invalidBase64 : UInt8 := 255

/-- The letters of one round of the first loop that fills the table. -/
def setLetters (values : List UInt8) (index : Nat) : List UInt8 :=
  (values.set (0x41 + index) (UInt8.ofNat index)).set (0x61 + index) (UInt8.ofNat (index + 26))

def setDigit (values : List UInt8) (index : Nat) : List UInt8 := values.set (0x30 + index) (UInt8.ofNat (index + 52))

def base64Values : List UInt8 :=
  ((((List.range 10).foldl setDigit ((List.range 26).foldl setLetters (List.replicate 256 invalidBase64))).set 0x2b 62).set
    0x2f 63)

def valueAt (byte : UInt8) : UInt8 := (base64Values[byte.toNat]?).getD invalidBase64

def canonicalKey (encoded : List UInt8) : Bool :=
  if encoded.length ≠ 24 then false
  else if encoded.drop 22 ≠ ascii "==" then false
  else
    let digitsAreBase64 := (encoded.take 22).all fun byte => valueAt byte ≠ invalidBase64
    let unusedLowBitsAreZero := encoded[21]?.any fun byte => valueAt byte &&& 0x0f == 0
    digitsAreBase64 && unusedLowBitsAreZero

def targetForm (target : List UInt8) : TargetEvidence :=
  if target.head? == some 0x2f then .origin
  else if opensWith target (ascii "http://") || opensWith target (ascii "https://") then .absolute
  else .other

def validateField (facts : BoundaryFacts) (field : HeaderField) : BoundaryFacts :=
  if field.name = ascii "connection" then
    let connection := validateConnection field.value
    { facts with
      connection := facts.connection.supply (connection = .upgrade),
      connectionUpgradePresent := facts.connectionUpgradePresent || connection = .upgrade }
  else if field.name = ascii "upgrade" then
    { facts with
      upgradeFieldPresent := true,
      upgrade := facts.upgrade.supply (eqIgnoreAsciiCase (trimOws field.value) (ascii "websocket")) }
  else if field.name = ascii "sec-websocket-version" then
    { facts with version := facts.version.supply (trimOws field.value == ascii "13") }
  else if field.name = ascii "sec-websocket-key" then
    { facts with key := facts.key.supply (canonicalKey (trimOws field.value)) }
  else if field.name = ascii "sec-websocket-protocol" then
    { facts with protocol := facts.protocol.supply (uniqueProtocols field.value) }
  else if field.name = ascii "sec-websocket-extensions" then { facts with extensionsPresent := true }
  else if field.name = ascii "content-length" then { facts with contentLengthPresent := true }
  else if field.name = ascii "transfer-encoding" then { facts with transferEncodingPresent := true }
  else facts

def validate (headers : HeaderBlock) : BoundaryFacts := headers.fields.foldl validateField .none

def intent (facts : BoundaryFacts) : Intent :=
  match facts.upgradeFieldPresent,facts.connectionUpgradePresent with
  | false,false => .absent
  | true,true => .complete
  | false,true => .partly
  | true,false => .partly

def framingEvidence (facts : BoundaryFacts) (framing : BodyFraming) : FramingEvidence :=
  match facts.contentLengthPresent,facts.transferEncodingPresent,framing with
  | true,true,_ => .ambiguous
  | true,false,_ => .body
  | false,true,_ => .body
  | false,false,.none => .clear
  | false,false,_ => .body

def handshake (facts : BoundaryFacts) (request : RequestLine) : HandshakeEvidence :=
  if facts.connection = .discharged && facts.upgrade = .discharged && facts.version = .discharged &&
      facts.key = .discharged && (facts.protocol = .opened || facts.protocol = .discharged) &&
      !facts.extensionsPresent && !facts.contentLengthPresent && !facts.transferEncodingPresent &&
      request.method == ascii "get" && targetForm request.target ≠ .other then .complete
  else .incomplete

def decideUpgrade (request : RequestLine) (headers : HeaderBlock) (framing : BodyFraming) : Result UpgradeDecision :=
  let facts := validate headers
  match intent facts,framingEvidence facts framing,handshake facts request with
  | .absent,_,_ => .ok .none
  | _,.ambiguous,_ => ambiguousFraming
  | .complete,.clear,.complete => .ok .webSocket
  | _,_,_ => unsupportedUpgrade

end UpgradeObligationAlgebra

namespace UpgradeTransformationMatrix

inductive Cardinality (α : Type) where
  | missing
  | one (value : α)
  | duplicate

inductive UpgradeProtocol where
  | webSocket
  | other
deriving DecidableEq

structure ConnectionTokens where
  syntaxValid : Bool
  hasUpgrade : Bool

inductive Intent where
  | absent
  | oneSided
  | paired

inductive FramingRisk where
  | clear
  | body
  | ambiguous

inductive Outcome where
  | none
  | webSocket
  | unsupported
  | ambiguous

/-- The matrix by intent, framing risk and completeness of the handshake. -/
def decisions : List (List (List Outcome)) :=
  [[[.none,.none],[.none,.none],[.none,.none]],
    [[.unsupported,.unsupported],[.unsupported,.unsupported],[.ambiguous,.ambiguous]],
    [[.unsupported,.webSocket],[.unsupported,.unsupported],[.ambiguous,.ambiguous]]]

def Intent.index : Intent → Nat
  | .absent => 0
  | .oneSided => 1
  | .paired => 2

def FramingRisk.index : FramingRisk → Nat
  | .clear => 0
  | .body => 1
  | .ambiguous => 2

structure HandshakeParts where
  connection : Cardinality ConnectionTokens
  connectionIntent : Bool
  upgrade : Cardinality UpgradeProtocol
  version : Cardinality Bool
  key : Cardinality (Option (List UInt8))
  protocols : Cardinality Bool
  extensionsPresent : Bool
  contentLengthPresent : Bool
  transferEncodingPresent : Bool

def parseToken (tokens : ConnectionTokens) (raw : List UInt8) : ConnectionTokens :=
  let token := trimUpgradeOws raw
  let valid := !token.isEmpty && token.all isTchar
  ⟨tokens.syntaxValid && valid,tokens.hasUpgrade || (valid && eqIgnoreAsciiCase token (ascii "upgrade"))⟩

def parseConnection (value : List UInt8) : ConnectionTokens := (value.splitOn 0x2c).foldl parseToken ⟨true,false⟩

def validProtocols (value : List UInt8) : Bool := uniqueFrom [] (value.splitOn 0x2c)

def decodeKey (encoded : List UInt8) : Option (List UInt8) := decodeKeyWith base64Digit encoded

def transformOne {α : Type} (headers : HeaderBlock) (name : List UInt8) (transform : List UInt8 → α) : Cardinality α :=
  match headers.fields.filter (·.name == name) with
  | [] => .missing
  | [field] => .one (transform field.value)
  | _ => .duplicate

def hasHeader (headers : HeaderBlock) (name : List UInt8) : Bool := headers.fields.any (·.name == name)

def transform (headers : HeaderBlock) : HandshakeParts where
  connection := transformOne headers (ascii "connection") parseConnection
  connectionIntent :=
    (headers.fields.filter (·.name == ascii "connection")).any fun field => (parseConnection field.value).hasUpgrade
  upgrade := transformOne headers (ascii "upgrade") fun value =>
    if eqIgnoreAsciiCase (trimUpgradeOws value) (ascii "websocket") then .webSocket else .other
  version := transformOne headers (ascii "sec-websocket-version") fun value => trimUpgradeOws value == ascii "13"
  key := transformOne headers (ascii "sec-websocket-key") fun value => decodeKey (trimUpgradeOws value)
  protocols := transformOne headers (ascii "sec-websocket-protocol") validProtocols
  extensionsPresent := hasHeader headers (ascii "sec-websocket-extensions")
  contentLengthPresent := hasHeader headers (ascii "content-length")
  transferEncodingPresent := hasHeader headers (ascii "transfer-encoding")

def Cardinality.present {α : Type} : Cardinality α → Bool
  | .missing => false
  | _ => true

def Cardinality.oneWith {α : Type} (holds : α → Bool) : Cardinality α → Bool
  | .one value => holds value
  | _ => false

def intent (parts : HandshakeParts) : Intent :=
  match parts.upgrade.present,parts.connectionIntent with
  | false,false => .absent
  | true,true => .paired
  | true,false => .oneSided
  | false,true => .oneSided

def framingRisk (parts : HandshakeParts) (framing : BodyFraming) : FramingRisk :=
  match parts.contentLengthPresent,parts.transferEncodingPresent,framing with
  | true,true,_ => .ambiguous
  | true,false,_ => .body
  | false,true,_ => .body
  | false,false,.none => .clear
  | false,false,_ => .body

def handshakeComplete (parts : HandshakeParts) (request : RequestLine) : Bool :=
  parts.connection.oneWith (fun tokens => tokens.syntaxValid && tokens.hasUpgrade) &&
    parts.upgrade.oneWith (· = .webSocket) && parts.version.oneWith id &&
    parts.key.oneWith (fun key => key.any (·.length == 16)) &&
    (!parts.protocols.present || parts.protocols.oneWith id) && !parts.extensionsPresent &&
    !parts.contentLengthPresent && !parts.transferEncodingPresent && request.method == ascii "get" &&
    isOriginOrAbsolute request.target

def outcomeAt (intent : Intent) (risk : FramingRisk) (complete : Bool) : Option Outcome :=
  decisions[intent.index]?.bind fun rows => rows[risk.index]?.bind fun row => row[if complete then 1 else 0]?

def resolve : Outcome → Result UpgradeDecision
  | .none => .ok .none
  | .webSocket => .ok .webSocket
  | .unsupported => unsupportedUpgrade
  | .ambiguous => ambiguousFraming

/-- The indices are inside the matrix. -/
def decideUpgrade (request : RequestLine) (headers : HeaderBlock) (framing : BodyFraming) : Result UpgradeDecision :=
  let parts := transform headers
  match outcomeAt (intent parts) (framingRisk parts framing) (handshakeComplete parts request) with
  | none => .error .incomplete
  | some outcome => resolve outcome

end UpgradeTransformationMatrix

/-- The registered implementations, in registry order. -/
def upgradeImplementations : List (RequestLine → HeaderBlock → BodyFraming → Result UpgradeDecision) :=
  [UpgradeComposableTable.decideUpgrade,UpgradeInvariantSignature.decideUpgrade,UpgradeObservationPolicy.decideUpgrade,
    UpgradeObligationAlgebra.decideUpgrade,UpgradeTransformationMatrix.decideUpgrade]

end Polyguard
