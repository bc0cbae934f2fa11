import Polyguard.Bytes.Utf8
import Polyguard.Model
import Polyguard.Collections.Ordered

/-! The five registered implementations of `remove_hop_by_hop_headers`.
A `BTreeSet` is a strictly increasing list and a `HashSet` a list in the order of
insertion; the only use of the latter's own order is to be sorted at once. The
loops over a value run on its unread suffix with a bound on its length as fuel. -/
namespace Polyguard
open Ascii Slices

def connectionName : List UInt8 := ascii "connection"

def invalidConnectionToken (index : Nat) : PolyguardError := .invalidHeader index "invalid_connection_token"

namespace HopByHopComposable

/-- Kept sorted for the binary search. -/
def fixedHopByHopNames : List (List UInt8) :=
  [ascii "connection",ascii "keep-alive",ascii "proxy-authenticate",ascii "proxy-authorization",
    ascii "proxy-connection",ascii "te",ascii "trailer",ascii "transfer-encoding",ascii "upgrade"]

def tokenPunctuation : List UInt8 := ascii "!#$%&'*+-.^_`|~"

def isFixedHopByHop (name : List UInt8) : Bool :=
  (Ordered.binarySearch fixedHopByHopNames name).isSome

/-- Two loops: off the front while it is a blank, then off the back. -/
def stripOptionalWhitespace (member : List UInt8) : List UInt8 := (member.dropWhile isOws).rdropWhile isOws

def validatedCanonicalToken (member : List UInt8) : Option (List UInt8) :=
  if member.isEmpty then none
  else if member.any (fun byte => !isAsciiAlphanumeric byte && !tokenPunctuation.contains byte) then none
  else some (collectChars (member.map toAsciiLowercase))

def addConnectionValue (fieldIndex : Nat) : Nat → List UInt8 → List (List UInt8) → Result (List (List UInt8))
  | 0,_,removals => .ok removals
  | fuel + 1,value,removals =>
    let comma := position (· == 0x2c) value
    let member := stripOptionalWhitespace (value.take (comma.getD value.length))
    match validatedCanonicalToken member with
    | none => .error (invalidConnectionToken fieldIndex)
    | some name =>
      match comma with
      | none => .ok (removals.insert name)
      | some index => addConnectionValue fieldIndex fuel (value.drop (index + 1)) (removals.insert name)

def discoverField (removals : List (List UInt8)) (indexed : HeaderField × Nat) : Result (List (List UInt8)) :=
  let removals := if isFixedHopByHop indexed.1.name then removals.insert indexed.1.name else removals
  if indexed.1.name != connectionName then .ok removals
  else addConnectionValue indexed.2 (indexed.1.value.length + 1) indexed.1.value removals

def discoverRemovals (headers : HeaderBlock) : Result (List (List UInt8)) :=
  headers.fields.zipIdx.foldlM discoverField []

def copySurvivors (fields : List HeaderField) (removals : List (List UInt8)) : List HeaderField :=
  fields.filter fun field => !removals.contains field.name

def removeHopByHopHeaders (headers : HeaderBlock) : Result SanitizedHeaders := do
  let removals ← discoverRemovals headers
  .ok ⟨copySurvivors headers.fields removals,Ordered.sort removals⟩

end HopByHopComposable

namespace HopByHopRuleTable

inductive FieldPolicy where
  | connectionList
  | alwaysRemove
deriving DecidableEq

def hopByHopRules : List (List UInt8 × FieldPolicy) :=
  [(ascii "connection",.connectionList),(ascii "proxy-connection",.alwaysRemove),(ascii "keep-alive",.alwaysRemove),
    (ascii "transfer-encoding",.alwaysRemove),(ascii "te",.alwaysRemove),(ascii "trailer",.alwaysRemove),
    (ascii "upgrade",.alwaysRemove),(ascii "proxy-authenticate",.alwaysRemove),
    (ascii "proxy-authorization",.alwaysRemove)]

def fieldPolicy (name : List UInt8) : Option FieldPolicy :=
  hopByHopRules.findSome? fun rule => if rule.1 == name then some rule.2 else none

def trimOws (bytes : List UInt8) : List UInt8 :=
  let first := (position (fun byte => !isOws byte) bytes).getD bytes.length
  let afterLast := ((rposition (fun byte => !isOws byte) bytes).map (· + 1)).getD first
  slice bytes first afterLast

def nominate (fieldIndex : Nat) (names : List (List UInt8)) (member : List UInt8) : Result (List (List UInt8)) :=
  if member.isEmpty || !member.all isTchar then .error (invalidConnectionToken fieldIndex)
  else .ok (Ordered.insert names (collectChars (member.map toAsciiLowercase)))

def addConnectionNominations (names : List (List UInt8)) (value : List UInt8) (fieldIndex : Nat) :
    Result (List (List UInt8)) :=
  ((value.splitOn 0x2c).map trimOws).foldlM (nominate fieldIndex) names

def planField (names : List (List UInt8)) (ruled : Nat × HeaderField × FieldPolicy) : Result (List (List UInt8)) :=
  match ruled.2.2 with
  | .connectionList =>
    addConnectionNominations (Ordered.insert names ruled.2.1.name) ruled.2.1.value ruled.1
  | .alwaysRemove => .ok (Ordered.insert names ruled.2.1.name)

def planFromHeaders (headers : HeaderBlock) : Result (List (List UInt8)) :=
  (headers.fields.zipIdx.filterMap fun (field,index) =>
    (fieldPolicy field.name).map fun policy => (index,field,policy)).foldlM planField []

def removeHopByHopHeaders (headers : HeaderBlock) : Result SanitizedHeaders := do
  let names ← planFromHeaders headers
  .ok ⟨headers.fields.filter fun field => !names.contains field.name,names⟩

end HopByHopRuleTable

namespace HopByHopSortedPlan

inductive HeaderAction where
  | remove
  | removeAndNominate
deriving DecidableEq

structure HeaderRule where
  name : List UInt8
  action : HeaderAction

def headerRules : List HeaderRule :=
  [⟨ascii "connection",.removeAndNominate⟩,⟨ascii "proxy-connection",.remove⟩,⟨ascii "keep-alive",.remove⟩,
    ⟨ascii "transfer-encoding",.remove⟩,⟨ascii "te",.remove⟩,⟨ascii "trailer",.remove⟩,⟨ascii "upgrade",.remove⟩,
    ⟨ascii "proxy-authenticate",.remove⟩,⟨ascii "proxy-authorization",.remove⟩]

def ruleFor (name : List UInt8) : Option HeaderRule := headerRules.find? (·.name == name)

inductive ConnectionMember where
  | token (bytes : List UInt8)
  | empty
  | invalid

def trimmedMember (raw : List UInt8) : Option (List UInt8) :=
  (position (fun byte => !isOws byte) raw).bind fun start =>
    (rposition (fun byte => !isOws byte) raw).map fun stop => slice raw start (stop + 1)

def ConnectionMember.classify (raw : List UInt8) : ConnectionMember :=
  match trimmedMember raw with
  | none => .empty
  | some member => if member.all isTchar then .token member else .invalid

def lowercaseAscii (token : List UInt8) : List UInt8 := collectChars (token.map toAsciiLowercase)

def admitMember (indexed : Nat × ConnectionMember) : Result (List UInt8) :=
  match indexed.2 with
  | .token bytes => .ok (lowercaseAscii bytes)
  | .empty => .error (invalidConnectionToken indexed.1)
  | .invalid => .error (invalidConnectionToken indexed.1)

def nominates (field : HeaderField) : Bool := (ruleFor field.name).any (·.action == .removeAndNominate)

def compile (headers : HeaderBlock) : Result (List (List UInt8)) := do
  let fixedNames := headers.fields.filterMap fun field => (ruleFor field.name).map (·.name)
  let members := (headers.fields.zipIdx.filter fun (field,_) => nominates field).flatMap fun (field,index) =>
    (field.value.splitOn 0x2c).map fun raw => (index,ConnectionMember.classify raw)
  let nominatedNames ← members.mapM admitMember
  .ok (Ordered.dedup (Ordered.sort (fixedNames ++ nominatedNames)))

def removes (sortedNames : List (List UInt8)) (name : List UInt8) : Bool :=
  (Ordered.binarySearch sortedNames name).isSome

def removeHopByHopHeaders (headers : HeaderBlock) : Result SanitizedHeaders := do
  let sortedNames ← compile headers
  .ok ⟨headers.fields.filter fun field => !removes sortedNames field.name,sortedNames⟩

end HopByHopSortedPlan

namespace HopByHopTokenTrie

def fixedHopByHop : List (List UInt8) :=
  [connectionName,ascii "proxy-connection",ascii "keep-alive",ascii "transfer-encoding",ascii "te",
    ascii "trailer",ascii "upgrade",ascii "proxy-authenticate",ascii "proxy-authorization"]

structure TrieNode where
  terminal : Bool
  children : List (UInt8 × Nat)
deriving DecidableEq

abbrev TokenTrie := List TrieNode

def TrieNode.default : TrieNode := ⟨false,[]⟩

def TokenTrie.new : TokenTrie := [TrieNode.default]

def childOf (nodes : TokenTrie) (nodeIndex : Nat) (byte : UInt8) : Option Nat :=
  nodes[nodeIndex]?.bind fun node => node.children.findSome? fun edge => if edge.1 == byte then some edge.2 else none

def insertByte (state : TokenTrie × Nat) (byte : UInt8) : TokenTrie × Nat :=
  match childOf state.1 state.2 byte with
  | some index => (state.1,index)
  | none =>
    let index := state.1.length
    ((state.1 ++ [TrieNode.default]).modify state.2 fun node => { node with children := node.children ++ [(byte,index)] },
      index)

def terminalAt (nodes : TokenTrie) (nodeIndex : Nat) : Bool := nodes[nodeIndex]?.any (·.terminal)

/-- The trie after the insertion and whether the token is new. -/
def TokenTrie.insert (nodes : TokenTrie) (token : List UInt8) : TokenTrie × Bool :=
  let (nodes,nodeIndex) := token.foldl insertByte (nodes,0)
  if terminalAt nodes nodeIndex then (nodes,false)
  else (nodes.modify nodeIndex fun node => { node with terminal := true },true)

def containsFrom (nodes : TokenTrie) (nodeIndex : Nat) : List UInt8 → Bool
  | [] => terminalAt nodes nodeIndex
  | byte :: token =>
    match childOf nodes nodeIndex byte with
    | none => false
    | some index => containsFrom nodes index token

def TokenTrie.contains (nodes : TokenTrie) (token : List UInt8) : Bool := containsFrom nodes 0 token

/-- Two loops: off the front while it is a blank, then off the back. -/
def trimOws (bytes : List UInt8) : List UInt8 := (bytes.dropWhile isOws).rdropWhile isOws

def collectMember (index : Nat) (state : TokenTrie × List (List UInt8)) (raw : List UInt8) :
    Result (TokenTrie × List (List UInt8)) :=
  let member := trimOws raw
  if member.isEmpty || !member.all isTchar then .error (invalidConnectionToken index)
  else match Utf8.fromUtf8 (member.map toAsciiLowercase) with
    | none => .error (invalidConnectionToken index)
    | some name =>
      let (names,fresh) := TokenTrie.insert state.1 name
      .ok (names,if fresh then state.2 ++ [name] else state.2)

def collectField (state : TokenTrie × List (List UInt8)) (indexed : HeaderField × Nat) :
    Result (TokenTrie × List (List UInt8)) :=
  if indexed.1.name != connectionName then .ok state
  else (indexed.1.value.splitOn 0x2c).foldlM (collectMember indexed.2) state

def collectNominations (headers : HeaderBlock) : Result (TokenTrie × List (List UInt8)) :=
  headers.fields.zipIdx.foldlM collectField (TokenTrie.new,[])

def isFixed (name : List UInt8) : Bool := fixedHopByHop.contains name

def sortField (nominations : TokenTrie) (state : List HeaderField × List (List UInt8)) (field : HeaderField) :
    List HeaderField × List (List UInt8) :=
  let fixed := isFixed field.name
  let nominated := TokenTrie.contains nominations field.name
  if !fixed && !nominated then (state.1 ++ [field],state.2)
  else if fixed then (state.1,state.2 ++ [field.name]) else state

def removeHopByHopHeaders (headers : HeaderBlock) : Result SanitizedHeaders := do
  let (nominations,removedNames) ← collectNominations headers
  let (fields,removedNames) := headers.fields.foldl (sortField nominations) ([],removedNames)
  .ok ⟨fields,Ordered.dedup (Ordered.sort removedNames)⟩

end HopByHopTokenTrie

namespace HopByHopTypedPipeline

inductive RuleEffect where
  | drop
  | readConnectionTokens

structure HeaderRule where
  name : List UInt8
  effect : RuleEffect

def headerRules : List HeaderRule :=
  [⟨ascii "connection",.readConnectionTokens⟩,⟨ascii "proxy-connection",.drop⟩,⟨ascii "keep-alive",.drop⟩,
    ⟨ascii "transfer-encoding",.drop⟩,⟨ascii "te",.drop⟩,⟨ascii "trailer",.drop⟩,⟨ascii "upgrade",.drop⟩,
    ⟨ascii "proxy-authenticate",.drop⟩,⟨ascii "proxy-authorization",.drop⟩]

inductive HeaderEvent where
  | endToEnd
  | fixedHopByHop (name : List UInt8)
  | connection (index : Nat) (value : List UInt8)

def HeaderEvent.classify (index : Nat) (field : HeaderField) : HeaderEvent :=
  match headerRules.find? (·.name == field.name) with
  | none => .endToEnd
  | some ⟨name,.drop⟩ => .fixedHopByHop name
  | some ⟨_,.readConnectionTokens⟩ => .connection index field.value

/-- The unread suffix at the next member, or the end of the iteration. -/
inductive ScanPosition where
  | memberStart (suffix : List UInt8)
  | complete
  | rejected

/-- `ConnectionMembers::next`: the item and the next position. -/
def nextMember (suffix : List UInt8) : Option (List UInt8) × ScanPosition :=
  let fromToken := suffix.dropWhile isOws
  let token := fromToken.takeWhile isTchar
  let behind := (fromToken.dropWhile isTchar).dropWhile isOws
  if token.isEmpty then (none,.rejected)
  else match behind with
    | [] => (some token,.complete)
    | byte :: rest => if byte == 0x2c then (some token,.memberStart rest) else (none,.rejected)

def lowercaseToken (token : List UInt8) : List UInt8 := collectChars (token.map toAsciiLowercase)

/-- `try_fold` over the iterator: it stops at the first rejected member. -/
def foldMembers (index : Nat) : Nat → ScanPosition → List (List UInt8) → Result (List (List UInt8))
  | 0,_,names => .ok names
  | fuel + 1,position,names =>
    match position with
    | .complete => .ok names
    | .rejected => .ok names
    | .memberStart suffix =>
      match nextMember suffix with
      | (none,_) => .error (invalidConnectionToken index)
      | (some member,next) => foldMembers index fuel next (Ordered.insert names (lowercaseToken member))

def applyEvent (names : List (List UInt8)) (event : HeaderEvent) : Result (List (List UInt8)) :=
  match event with
  | .endToEnd => .ok names
  | .fixedHopByHop name => .ok (Ordered.insert names name)
  | .connection index value =>
    foldMembers index (value.length + 2) (.memberStart value) (Ordered.insert names (ascii "connection"))

def removeHopByHopHeaders (headers : HeaderBlock) : Result SanitizedHeaders := do
  let names ← (headers.fields.zipIdx.map fun (field,index) => HeaderEvent.classify index field).foldlM applyEvent []
  .ok ⟨headers.fields.filter fun field => !names.contains field.name,names⟩

end HopByHopTypedPipeline

/-- The registered implementations, in registry order. -/
def hopByHopImplementations : List (HeaderBlock → Result SanitizedHeaders) :=
  [HopByHopRuleTable.removeHopByHopHeaders,HopByHopComposable.removeHopByHopHeaders,
    HopByHopTypedPipeline.removeHopByHopHeaders,HopByHopSortedPlan.removeHopByHopHeaders,
    HopByHopTokenTrie.removeHopByHopHeaders]

end Polyguard
