import Polyguard.RequestTarget.Implementations

/-! The five registered implementations of `match_route`.
A text is the list of its bytes, a declaration order a 64-bit `usize`, and a hash
set of orders the list of its members. A cursor over the bytes of a prefix is the
suffix it has not read. -/
namespace Polyguard
open Ascii Slices Address TargetBytes

structure RouteRule where
  host : List UInt8
  pathPrefix : List UInt8
  upstream : List UInt8
  declarationOrder : UInt64
deriving DecidableEq, Repr

structure RouteMatch where
  upstream : List UInt8
  declarationOrder : UInt64
deriving DecidableEq, Repr

def invalidRoute {α : Type} (reason : String) : Result α := .error (.invalidRoute reason)

@[simp,grind =] theorem invalidRoute_bind {α β : Type} (reason : String) (next : α → Result β) :
    (invalidRoute reason >>= next) = invalidRoute reason := rfl

def tooManyRoutes {α : Type} (max actual : Nat) : Result α := .error (.limitExceeded "route_count" max actual)

/-- `HashSet::insert`: whether the order is new, and the set with it. -/
def insertOrder (seen : List UInt64) (order : UInt64) : Bool × List UInt64 :=
  if seen.contains order then (false,seen) else (true,order :: seen)

/-- `slice::strip_prefix`: what follows a leading word. -/
def stripPrefix (word text : List UInt8) : Option (List UInt8) :=
  if word.isPrefixOf text then some (text.drop word.length) else none

/-- The byte loop over a path prefix: an escape takes the two bytes behind its percent sign. -/
def scanPath (escape : UInt8 → UInt8 → Bool) (plain : UInt8 → Bool) : List UInt8 → Bool
  | [] => true
  | byte :: bytes =>
    if byte == 0x25 then
      match bytes with
      | high :: low :: bytes => escape high low && scanPath escape plain bytes
      | _ => false
    else plain byte && scanPath escape plain bytes

/-- `Iterator::max_by_key`: the last element whose key no other key exceeds. -/
def maxByKey {α κ : Type} (greater : κ → κ → Bool) (key : α → κ) : List α → Option α
  | [] => none
  | first :: rest =>
    some (rest.foldl (fun best next => if greater (key best) (key next) then best else next) first)

/-- The order of `(usize, Reverse<usize>)`. -/
def rankGreater (left right : Nat × UInt64) : Bool :=
  left.1 > right.1 || (left.1 == right.1 && left.2 < right.2)

namespace RouteDirect

def routeLimit : Nat := 256
def pathLimit : Nat := 8192
def upstreamLimit : Nat := 64

structure ValidRule where
  host : List UInt8
  pathPrefix : List UInt8
  upstream : List UInt8
  declarationOrder : UInt64

def canonicalDns (value : List UInt8) : Bool :=
  if 1 ≤ value.length && value.length ≤ 253 && (value.all isAscii && !endsWith 0x2e value) then
    (value.splitOn 0x2e).all fun label =>
      if label.isEmpty then false
      else if label.length > 63 then false
      else if startsWith 0x2d label || endsWith 0x2d label then false
      else label.all fun byte => isAsciiLowercase byte || isAsciiDigit byte || byte == 0x2d
  else false

def canonicalHost (value : List UInt8) : Result (List UInt8) :=
  if startsWith 0x5b value then
    match stripSuffix 0x5d (value.drop 1) with
    | some address =>
      if !address.isEmpty && !address.contains 0x25 && !address.any isAsciiUppercase && isIpv6 address then .ok value
      else invalidRoute "invalid_host"
    | none => invalidRoute "invalid_host"
  else if canonicalDns value then .ok value
  else invalidRoute "invalid_host"

def isUpperHex (byte : UInt8) : Bool := isAsciiDigit byte || (0x41 ≤ byte && byte ≤ 0x46)

def hexValue (byte : UInt8) : UInt8 :=
  if 0x30 ≤ byte && byte ≤ 0x39 then byte - 0x30
  else if 0x41 ≤ byte && byte ≤ 0x46 then byte - 0x41 + 10
  else 0

def canonicalEscape (high low : UInt8) : Bool :=
  if isUpperHex high && isUpperHex low then
    let decoded := joinNibbles (hexValue high) (hexValue low)
    if decoded ≤ 31 || decoded == 127 || decoded == 0x5c then false
    else if isAsciiAlphanumeric decoded || decoded == 0x2d || decoded == 0x2e || decoded == 0x5f || decoded == 0x7e then
      false
    else true
  else false

def plainByte (byte : UInt8) : Bool :=
  !(byte == 0x3f || byte == 0x23 || byte == 0x5c || byte ≤ 32 || 127 ≤ byte)

def canonicalPrefix (value : List UInt8) : Result (List UInt8) :=
  if (value.isEmpty || endsWith 0x2f value) && value != ascii "/" then invalidRoute "invalid_path_prefix"
  else if value.length > pathLimit then invalidRoute "invalid_path_prefix"
  else if !startsWith 0x2f value then invalidRoute "invalid_path_prefix"
  else if !scanPath canonicalEscape plainByte value then invalidRoute "invalid_path_prefix"
  else if ((value.drop 1).splitOn 0x2f).any fun segment => segment == ascii "." || segment == ascii ".." then
    invalidRoute "invalid_path_prefix"
  else .ok value

def prefixMatches (value path : List UInt8) : Bool :=
  if value == ascii "/" then true
  else match stripPrefix value path with
    | some [] => true
    | some (next :: _) => next == 0x2f
    | none => false

def upstreamName (value : List UInt8) : Result (List UInt8) :=
  if 1 ≤ value.length && value.length ≤ upstreamLimit &&
      value.all (fun byte => isAsciiAlphanumeric byte || byte == 0x5f || byte == 0x2e || byte == 0x2d) then .ok value
  else invalidRoute "invalid_upstream"

def validRule (raw : RouteRule) : Result ValidRule := do
  let host ← canonicalHost raw.host
  let pathPrefix ← canonicalPrefix raw.pathPrefix
  let upstream ← upstreamName raw.upstream
  .ok ⟨host,pathPrefix,upstream,raw.declarationOrder⟩

def precedes (rule other : ValidRule) : Bool :=
  match compare rule.pathPrefix.length other.pathPrefix.length with
  | .gt => true
  | .eq => rule.declarationOrder < other.declarationOrder
  | .lt => false

def considerRule (authority : EffectiveAuthority) (routingPath : List UInt8)
    (state : List UInt64 × Option ValidRule) (raw : RouteRule) : Result (List UInt64 × Option ValidRule) := do
  let (declarationOrders,winner) := state
  let rule ← validRule raw
  let (inserted,declarationOrders) := insertOrder declarationOrders rule.declarationOrder
  if !inserted then invalidRoute "duplicate_declaration_order"
  else
    let hostMatches := eqIgnoreAsciiCase rule.host authority.host
    let pathMatches := prefixMatches rule.pathPrefix routingPath
    match hostMatches,pathMatches,winner with
    | true,true,none => .ok (declarationOrders,some rule)
    | true,true,some current => .ok (declarationOrders,if precedes rule current then some rule else winner)
    | _,_,_ => .ok (declarationOrders,winner)

def routingPathOf (target : NormalizedTarget) : Result (List UInt8) :=
  match target.form,target.routingPath.head? with
  | .origin,some first | .absolute,some first =>
    if first == 0x2f then .ok target.routingPath else invalidRoute "invalid_target"
  | _,_ => invalidRoute "invalid_target"

def matchRoute (authority : EffectiveAuthority) (target : NormalizedTarget) (routes : List RouteRule) :
    Result RouteMatch :=
  if routes.length > routeLimit then tooManyRoutes routeLimit routes.length
  else do
    let routingPath ← routingPathOf target
    let (_,winner) ← routes.foldlM (considerRule authority routingPath) ([],none)
    match winner with
    | some rule => .ok ⟨rule.upstream,rule.declarationOrder⟩
    | none => .error .noRoute

end RouteDirect

namespace RouteRulePipeline

def routeLimit : Nat := 256
def pathLimit : Nat := 8192
def upstreamLimit : Nat := 64

structure CheckedRule where
  host : List UInt8
  pathPrefix : List UInt8
  upstream : List UInt8
  declarationOrder : UInt64

structure CheckedInput where
  authorityHost : List UInt8
  routingPath : List UInt8
  rules : List CheckedRule

def canonicalDnsLabel (label : List UInt8) : Bool :=
  (1 ≤ label.length && label.length ≤ 63) && !startsWith 0x2d label && !endsWith 0x2d label &&
    label.all fun byte => isAsciiLowercase byte || isAsciiDigit byte || byte == 0x2d

def validateRuleHost (rule : RouteRule) : Result Unit :=
  match (if startsWith 0x5b rule.host then stripSuffix 0x5d (rule.host.drop 1) else none) with
  | some address =>
    if !address.isEmpty && !address.contains 0x25 && !address.any isAsciiUppercase && isIpv6 address then .ok ()
    else invalidRoute "invalid_host"
  | none =>
    if (1 ≤ rule.host.length && rule.host.length ≤ 253) && rule.host.all isAscii && !endsWith 0x2e rule.host &&
        (rule.host.splitOn 0x2e).all canonicalDnsLabel then .ok ()
    else invalidRoute "invalid_host"

def isCanonicalHex (byte : UInt8) : Bool := isAsciiDigit byte || (0x41 ≤ byte && byte ≤ 0x46)

/-- The value of a digit that has been validated. -/
def hexNibble (byte : UInt8) : UInt8 := if 0x30 ≤ byte && byte ≤ 0x39 then byte - 0x30 else byte - 0x41 + 10

def validateEscape (high low : UInt8) : Bool :=
  if !isCanonicalHex high || !isCanonicalHex low then false
  else
    let decoded := hexNibble high * 16 + hexNibble low
    if (decoded ≤ 31 || decoded == 127 || decoded == 0x5c) || isUnreserved decoded then false else true

def plainByte (byte : UInt8) : Bool :=
  0x21 ≤ byte && byte ≤ 0x7e && !(byte == 0x3f || byte == 0x23 || byte == 0x5c)

def validateRulePrefix (rule : RouteRule) : Result Unit :=
  let value := rule.pathPrefix
  if !((1 ≤ value.length && value.length ≤ pathLimit) && value.head? == some 0x2f &&
      (value == ascii "/" || value.getLast? != some 0x2f)) then invalidRoute "invalid_path_prefix"
  else if !scanPath validateEscape plainByte value then invalidRoute "invalid_path_prefix"
  else if ((value.drop 1).splitOn 0x2f).any fun segment => segment == ascii "." || segment == ascii ".." then
    invalidRoute "invalid_path_prefix"
  else .ok ()

def validateRuleUpstream (rule : RouteRule) : Result Unit :=
  if (1 ≤ rule.upstream.length && rule.upstream.length ≤ upstreamLimit) &&
      rule.upstream.all (fun byte => isAsciiAlphanumeric byte || byte == 0x5f || byte == 0x2e || byte == 0x2d) then
    .ok ()
  else invalidRoute "invalid_upstream"

def ruleValidators : List (RouteRule → Result Unit) := [validateRuleHost,validateRulePrefix,validateRuleUpstream]

def checkRule (rule : RouteRule) : Result CheckedRule := do
  ruleValidators.forM fun validator => validator rule
  .ok ⟨rule.host,rule.pathPrefix,rule.upstream,rule.declarationOrder⟩

def noteOrder (seen : List UInt64) (rule : CheckedRule) : Result (List UInt64) :=
  let (inserted,seen) := insertOrder seen rule.declarationOrder
  if inserted then .ok seen else invalidRoute "duplicate_declaration_order"

def routingPathOf (target : NormalizedTarget) : Result (List UInt8) :=
  if (target.form = .origin ∨ target.form = .absolute) ∧ target.routingPath.head? = some 0x2f then .ok target.routingPath
  else invalidRoute "invalid_target"

def validateBoundary (authority : EffectiveAuthority) (target : NormalizedTarget) (routes : List RouteRule) :
    Result CheckedInput :=
  if routes.length > routeLimit then tooManyRoutes routeLimit routes.length
  else do
    let routingPath ← routingPathOf target
    let checkedRules ← routes.mapM checkRule
    let _ ← checkedRules.foldlM noteOrder []
    .ok ⟨authority.host,routingPath,checkedRules⟩

def prefixApplies (value path : List UInt8) : Bool :=
  value == ascii "/" ||
    (stripPrefix value path).any fun remainder => remainder.isEmpty || remainder.head? == some 0x2f

def matchRoute (authority : EffectiveAuthority) (target : NormalizedTarget) (routes : List RouteRule) :
    Result RouteMatch := do
  let checked ← validateBoundary authority target routes
  let selected := maxByKey rankGreater (fun rule => (rule.pathPrefix.length,rule.declarationOrder))
    ((checked.rules.filter fun rule => eqIgnoreAsciiCase rule.host checked.authorityHost).filter fun rule =>
      prefixApplies rule.pathPrefix checked.routingPath)
  match selected with
  | some rule => .ok ⟨rule.upstream,rule.declarationOrder⟩
  | none => .error .noRoute

end RouteRulePipeline

namespace RouteBoundedMatch

def maxRoutes : Nat := 256
def maxPrefixBytes : Nat := 8192
def maxUpstreamBytes : Nat := 64

inductive HostName where
  | dns (text : List UInt8)
  | ipv6 (text : List UInt8)

structure Rank where
  prefixBytes : Nat
  declarationOrder : UInt64

structure Winner where
  rank : Rank
  upstream : List UInt8

inductive Eligibility where
  | eligible
  | hostMismatch
  | pathMismatch
  | bothMismatch

/-- The values of an open-addressing table and the bitmap of its occupied slots. -/
structure DeclarationOrders where
  values : List UInt64
  occupied : List UInt64

def DeclarationOrders.empty : DeclarationOrders := ⟨List.replicate maxRoutes 0,List.replicate (maxRoutes / 64) 0⟩

def homeSlot (value : UInt64) : Nat := (value * 0x9e3779b9 &&& 255).toNat

def slotMask (slot : Nat) : UInt64 := 1 <<< UInt64.ofNat (slot % 64)

def DeclarationOrders.isOccupied (orders : DeclarationOrders) (slot : Nat) : Bool :=
  orders.occupied.getD (slot / 64) 0 &&& slotMask slot != 0

def DeclarationOrders.occupy (orders : DeclarationOrders) (slot : Nat) (value : UInt64) : DeclarationOrders :=
  ⟨orders.values.set slot value,
    orders.occupied.set (slot / 64) (orders.occupied.getD (slot / 64) 0 ||| slotMask slot)⟩

/-- The probing loop with the rounds it has left. -/
def DeclarationOrders.probe (orders : DeclarationOrders) (value : UInt64) : Nat → Nat → Bool × DeclarationOrders
  | 0,_ => (true,orders)
  | rounds + 1,slot =>
    match orders.isOccupied slot,orders.values.getD slot 0 == value with
    | false,_ => (true,orders.occupy slot value)
    | true,true => (false,orders)
    | true,false => orders.probe value rounds ((slot + 1) &&& (maxRoutes - 1))

def DeclarationOrders.insert (orders : DeclarationOrders) (value : UInt64) : Bool × DeclarationOrders :=
  orders.probe value maxRoutes (homeSlot value)

def routingPathOf (target : NormalizedTarget) : Result (List UInt8) :=
  match target.form,target.routingPath with
  | .origin,first :: rest | .absolute,first :: rest =>
    if first == 0x2f then .ok (first :: rest) else invalidRoute "invalid_target"
  | _,_ => invalidRoute "invalid_target"

/-- One label of `validate_dns`. -/
def validateLabel (label : List UInt8) : Result Unit :=
  if label.isEmpty || startsWith 0x2d label || endsWith 0x2d label then invalidRoute "invalid_host"
  else if label.length > 63 then invalidRoute "invalid_host"
  else label.forM fun byte =>
    if (0x61 ≤ byte && byte ≤ 0x7a) || (0x30 ≤ byte && byte ≤ 0x39) || byte == 0x2d then .ok ()
    else invalidRoute "invalid_host"

def validateDns (text : List UInt8) : Result Unit :=
  if (1 ≤ text.length && text.length ≤ 253) && text.all isAscii && !endsWith 0x2e text then
    (text.splitOn 0x2e).forM validateLabel
  else invalidRoute "invalid_host"

def HostName.parse (text : List UInt8) : Result HostName :=
  match startsWith 0x5b text,endsWith 0x5d text with
  | true,true =>
    let afterOpen := text.drop 1
    let literal := afterOpen.take (afterOpen.length - 1)
    match literal.isEmpty,literal.contains 0x25,literal.any isAsciiUppercase,isIpv6 literal with
    | false,false,false,true => .ok (.ipv6 text)
    | _,_,_,_ => invalidRoute "invalid_host"
  | true,false | false,true => invalidRoute "invalid_host"
  | false,false => (validateDns text).map fun _ => .dns text

def HostName.matches : HostName → List UInt8 → Bool
  | .dns text,authority | .ipv6 text,authority => eqIgnoreAsciiCase text authority

/-- The value of a digit that has been validated. -/
def hex (byte : UInt8) : UInt8 := if 0x30 ≤ byte && byte ≤ 0x39 then byte - 0x30 else byte - 0x41 + 10

def isHexByte (byte : UInt8) : Bool := (0x30 ≤ byte && byte ≤ 0x39) || (0x41 ≤ byte && byte ≤ 0x46)

def canonicalEscapeEnd (high low : UInt8) : Bool :=
  if isHexByte high && isHexByte low then
    let decoded := joinNibbles (hex high) (hex low)
    if decoded ≤ 31 || decoded == 127 || decoded == 0x5c then false
    else if isAsciiAlphanumeric decoded || decoded == 0x2d || decoded == 0x2e || decoded == 0x5f || decoded == 0x7e then
      false
    else true
  else false

def plainByte (byte : UInt8) : Bool :=
  0x21 ≤ byte && byte ≤ 0x7e && !(byte == 0x3f || byte == 0x23 || byte == 0x5c)

def prefixShape (bytes : List UInt8) : Result Unit :=
  match bytes with
  | [] => invalidRoute "invalid_path_prefix"
  | first :: rest =>
    if first == 0x2f && bytes.length > maxPrefixBytes then invalidRoute "invalid_path_prefix"
    else if first == 0x2f && rest.isEmpty then .ok ()
    else if first == 0x2f && endsWith 0x2f rest then invalidRoute "invalid_path_prefix"
    else if first == 0x2f then .ok ()
    else invalidRoute "invalid_path_prefix"

def pathPrefix (text : List UInt8) : Result (List UInt8) := do
  prefixShape text
  if !scanPath canonicalEscapeEnd plainByte text then invalidRoute "invalid_path_prefix"
  else if ((text.drop 1).splitOn 0x2f).any fun segment => segment == ascii "." || segment == ascii ".." then
    invalidRoute "invalid_path_prefix"
  else .ok text

def prefixMatches (value path : List UInt8) : Bool :=
  if value == ascii "/" then true
  else if value.length ≤ path.length && path.take value.length == value then
    match path[value.length]? with
    | none => true
    | some next => next == 0x2f
  else false

def parseUpstream (text : List UInt8) : Result (List UInt8) :=
  if !(1 ≤ text.length && text.length ≤ maxUpstreamBytes) then invalidRoute "invalid_upstream"
  else do
    text.forM fun byte =>
      if (0x41 ≤ byte && byte ≤ 0x5a) || (0x61 ≤ byte && byte ≤ 0x7a) || (0x30 ≤ byte && byte ≤ 0x39) ||
        byte == 0x5f || byte == 0x2e || byte == 0x2d then .ok ()
      else invalidRoute "invalid_upstream"
    .ok text

def choose (current : Option Winner) (challenger : Winner) : Option Winner :=
  match current with
  | none => some challenger
  | some selected =>
    match compare challenger.rank.prefixBytes selected.rank.prefixBytes with
    | .gt => some challenger
    | .lt => some selected
    | .eq =>
      match compare challenger.rank.declarationOrder selected.rank.declarationOrder with
      | .lt => some challenger
      | .eq | .gt => some selected

def considerRule (authority : EffectiveAuthority) (routingPath : List UInt8)
    (state : DeclarationOrders × Option Winner) (rule : RouteRule) : Result (DeclarationOrders × Option Winner) := do
  let (orders,winner) := state
  let host ← HostName.parse rule.host
  let pathPrefix ← pathPrefix rule.pathPrefix
  let upstream ← parseUpstream rule.upstream
  let (inserted,orders) := orders.insert rule.declarationOrder
  if !inserted then invalidRoute "duplicate_declaration_order"
  else
    let eligibility := match host.matches authority.host,prefixMatches pathPrefix routingPath with
      | true,true => Eligibility.eligible
      | false,true => .hostMismatch
      | true,false => .pathMismatch
      | false,false => .bothMismatch
    match eligibility with
    | .eligible => .ok (orders,choose winner ⟨⟨pathPrefix.length,rule.declarationOrder⟩,upstream⟩)
    | .hostMismatch | .pathMismatch | .bothMismatch => .ok (orders,winner)

def matchRoute (authority : EffectiveAuthority) (target : NormalizedTarget) (routes : List RouteRule) :
    Result RouteMatch :=
  if routes.length > maxRoutes then tooManyRoutes maxRoutes routes.length
  else do
    let routingPath ← routingPathOf target
    let (_,winner) ← routes.foldlM (considerRule authority routingPath) (DeclarationOrders.empty,none)
    match winner with
    | some selected => .ok ⟨selected.upstream,selected.rank.declarationOrder⟩
    | none => .error .noRoute

end RouteBoundedMatch

namespace RouteTypedArithmetic

def routeLimit : Nat := 256

structure Candidate where
  pathPrefix : List UInt8
  upstream : List UInt8
  declarationOrder : UInt64

def routingPathOf (target : NormalizedTarget) : Result (List UInt8) :=
  match target.form,target.routingPath.head? with
  | .origin,some first | .absolute,some first =>
    if first == 0x2f then .ok target.routingPath else invalidRoute "invalid_target"
  | _,_ => invalidRoute "invalid_target"

def canonicalHost (host : List UInt8) : Result (List UInt8) :=
  let valid :=
    if startsWith 0x5b host && endsWith 0x5d host then
      let address := slice host 1 (host.length - 1)
      !address.isEmpty &&
        address.all (fun byte => isAsciiDigit byte || (0x61 ≤ byte && byte ≤ 0x66) || byte == 0x3a || byte == 0x2e) &&
        isIpv6 address
    else if host.isEmpty then false
    else if host.length ≤ 253 then
      (host.splitOn 0x2e).all fun label =>
        !label.isEmpty && label.length ≤ 63 && !startsWith 0x2d label && !endsWith 0x2d label &&
          label.all fun byte => isAsciiLowercase byte || isAsciiDigit byte || byte == 0x2d
    else false
  if valid then .ok host else invalidRoute "invalid_host"

def hexValue (byte : UInt8) : UInt8 :=
  if 0x30 ≤ byte && byte ≤ 0x39 then byte - 0x30
  else if 0x41 ≤ byte && byte ≤ 0x46 then byte - 0x41 + 10
  else if 0x61 ≤ byte && byte ≤ 0x66 then byte - 0x61 + 10
  else 0

def escapeAllowed (high low : UInt8) : Bool :=
  if isAsciiHexdigit high && isAsciiHexdigit low then
    if isAsciiLowercase high || isAsciiLowercase low then false
    else
      let decoded := joinNibbles (hexValue high) (hexValue low)
      if isAsciiAlphanumeric decoded ||
        (decoded == 0x2d || decoded == 0x2e || decoded == 0x5f || decoded == 0x7e || decoded == 0x5c) ||
        decoded == 0 || isAsciiControl decoded then false
      else true
  else false

def plainByte (byte : UInt8) : Bool := isAsciiGraphic byte && !(byte == 0x5c || byte == 0x3f || byte == 0x23)

def canonicalPrefix (value : List UInt8) : Result (List UInt8) :=
  let shapeIsValid := match value.head?,value.getLast? with
    | some first,some last => if first == 0x2f then last != 0x2f || value.length == 1 else false
    | _,_ => false
  if !shapeIsValid then invalidRoute "invalid_path_prefix"
  else if !scanPath escapeAllowed plainByte value then invalidRoute "invalid_path_prefix"
  else if (value.splitOn 0x2f).any fun segment => segment == ascii "." || segment == ascii ".." then
    invalidRoute "invalid_path_prefix"
  else .ok value

def prefixMatches (value path : List UInt8) : Bool :=
  if value == ascii "/" then true
  else match stripPrefix value path with
    | some remainder => remainder.isEmpty || remainder.head? == some 0x2f
    | none => false

def upstreamName (upstream : List UInt8) : Result (List UInt8) :=
  if 1 ≤ upstream.length && upstream.length ≤ 64 &&
      upstream.all (fun byte => isAsciiAlphanumeric byte || byte == 0x5f || byte == 0x2e || byte == 0x2d) then
    .ok upstream
  else invalidRoute "invalid_upstream"

def better (best : Option Candidate) (challenger : Candidate) : Option Candidate :=
  match best with
  | none => some challenger
  | some incumbent =>
    match compare challenger.pathPrefix.length incumbent.pathPrefix.length with
    | .gt => some challenger
    | .lt => some incumbent
    | .eq =>
      match compare challenger.declarationOrder incumbent.declarationOrder with
      | .lt => some challenger
      | .eq | .gt => some incumbent

def considerRule (authority : EffectiveAuthority) (path : List UInt8) (state : List UInt64 × Option Candidate)
    (rule : RouteRule) : Result (List UInt64 × Option Candidate) := do
  let (orders,best) := state
  let host ← canonicalHost rule.host
  let pathPrefix ← canonicalPrefix rule.pathPrefix
  let upstream ← upstreamName rule.upstream
  let (inserted,orders) := insertOrder orders rule.declarationOrder
  if !inserted then invalidRoute "duplicate_declaration_order"
  else match eqIgnoreAsciiCase host authority.host,prefixMatches pathPrefix path with
    | true,true => .ok (orders,better best ⟨pathPrefix,upstream,rule.declarationOrder⟩)
    | _,_ => .ok (orders,best)

def matchRoute (authority : EffectiveAuthority) (target : NormalizedTarget) (routes : List RouteRule) :
    Result RouteMatch :=
  if routes.length > routeLimit then tooManyRoutes routeLimit routes.length
  else do
    let path ← routingPathOf target
    let (_,best) ← routes.foldlM (considerRule authority path) ([],none)
    match best with
    | some candidate => .ok ⟨candidate.upstream,candidate.declarationOrder⟩
    | none => .error .noRoute

end RouteTypedArithmetic

namespace RouteImmutableTable

def routeLimit : Nat := 256

structure ValidRule where
  host : List UInt8
  pathPrefix : List UInt8
  upstream : List UInt8
  order : UInt64

structure RuleRequirement where
  reason : String
  accepts : RouteRule → Bool

def canonicalHost (host : List UInt8) : Bool :=
  match (if startsWith 0x5b host then stripSuffix 0x5d (host.drop 1) else none) with
  | some interior => !interior.isEmpty && interior.all (fun byte => !isAsciiUppercase byte) && isIpv6 interior
  | none =>
    !host.isEmpty && host.length ≤ 253 && host.all (fun byte => !isAsciiUppercase byte) &&
      (host.splitOn 0x2e).all fun label =>
        !label.isEmpty && label.length ≤ 63 && !startsWith 0x2d label && !endsWith 0x2d label &&
          label.all fun byte => isAsciiLowercase byte || isAsciiDigit byte || byte == 0x2d

def upperDigit (byte : UInt8) : Option UInt8 :=
  if 0x30 ≤ byte && byte ≤ 0x39 then some (byte - 0x30)
  else if 0x41 ≤ byte && byte ≤ 0x46 then some (byte - 0x41 + 10)
  else none

def decodeUpperHex (high low : UInt8) : Option UInt8 := do
  let high ← upperDigit high
  let low ← upperDigit low
  some (high * 16 + low)

def escapeAllowed (high low : UInt8) : Bool :=
  match decodeUpperHex high low with
  | none => false
  | some encoded => !(isUnreserved encoded || encoded == 0x5c || encoded ≤ 0x1f || encoded == 0x7f)

def plainByte (byte : UInt8) : Bool :=
  !(!isAscii byte || byte ≤ 0x20 || byte == 0x7f || (byte == 0x5c || byte == 0x3f || byte == 0x23))

def canonicalPrefix (value : List UInt8) : Bool :=
  if !startsWith 0x2f value || (value.length > 1 && endsWith 0x2f value) then false
  else if !scanPath escapeAllowed plainByte value then false
  else !(value.splitOn 0x2f).any fun segment => segment == ascii "." || segment == ascii ".."

def canonicalUpstream (upstream : List UInt8) : Bool :=
  (1 ≤ upstream.length && upstream.length ≤ 64) &&
    upstream.all fun byte => isAsciiAlphanumeric byte || byte == 0x5f || byte == 0x2e || byte == 0x2d

def ruleRequirements : List RuleRequirement :=
  [⟨"invalid_host",fun rule => canonicalHost rule.host⟩,
    ⟨"invalid_path_prefix",fun rule => canonicalPrefix rule.pathPrefix⟩,
    ⟨"invalid_upstream",fun rule => canonicalUpstream rule.upstream⟩]

def validateRule (rule : RouteRule) (seenOrders : List UInt64) : Result (List UInt64 × ValidRule) :=
  match ruleRequirements.find? fun requirement => !requirement.accepts rule with
  | some failed => invalidRoute failed.reason
  | none =>
    let (inserted,seenOrders) := insertOrder seenOrders rule.declarationOrder
    if !inserted then invalidRoute "duplicate_declaration_order"
    else .ok (seenOrders,⟨rule.host,rule.pathPrefix,rule.upstream,rule.declarationOrder⟩)

/-- One round of the collecting `map`, whose closure keeps the orders. -/
def collectRule (state : List UInt64 × List ValidRule) (rule : RouteRule) : Result (List UInt64 × List ValidRule) := do
  let (seenOrders,valid) ← validateRule rule state.1
  .ok (seenOrders,state.2 ++ [valid])

def prefixCovers (value path : List UInt8) : Bool :=
  value == ascii "/" ||
    (stripPrefix value path).any fun remainder => remainder.isEmpty || startsWith 0x2f remainder

def routingPathOf (target : NormalizedTarget) : Result (List UInt8) :=
  if (target.form = .origin ∨ target.form = .absolute) ∧ startsWith 0x2f target.routingPath then .ok target.routingPath
  else invalidRoute "invalid_target"

def matchRoute (authority : EffectiveAuthority) (target : NormalizedTarget) (routes : List RouteRule) :
    Result RouteMatch :=
  if routes.length > routeLimit then tooManyRoutes routeLimit routes.length
  else do
    let routingPath ← routingPathOf target
    let (_,validRules) ← routes.foldlM collectRule ([],[])
    let selected := maxByKey rankGreater (fun rule : ValidRule => (rule.pathPrefix.length,rule.order))
      ((validRules.filter fun rule => eqIgnoreAsciiCase rule.host authority.host).filter fun rule =>
        prefixCovers rule.pathPrefix routingPath)
    match selected with
    | some rule => .ok ⟨rule.upstream,rule.order⟩
    | none => .error .noRoute

end RouteImmutableTable

/-- The registered implementations, in registry order. -/
def routeImplementations : List (EffectiveAuthority → NormalizedTarget → List RouteRule → Result RouteMatch) :=
  [RouteDirect.matchRoute,RouteRulePipeline.matchRoute,RouteBoundedMatch.matchRoute,
    RouteTypedArithmetic.matchRoute,RouteImmutableTable.matchRoute]

end Polyguard
