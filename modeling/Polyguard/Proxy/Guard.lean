import Polyguard.Proxy.Chunked
import Polyguard.Proxy.LegacyRoutes
import Polyguard.RequestTarget.Routed
import Polyguard.Authority.Rendered
import Polyguard.Route.Exactness
import Polyguard.Proxy.Selection

/-! The guard behind the selection of a route.
The matchers are asked once more with a table of one rule, for the host of the request and
the name of the selected route. Every host that reconciling can return passes their checks,
so that no selected route is lost there. -/
namespace Polyguard.Proxy
open Ascii Slices Decimal

section Hosts
open Address TargetBytes RequestTarget Route AuthorityAgreement

theorem lowerLabel_isLabel {label : List UInt8} (lower : LowerLabel label) : isLabel label := by
  have bytes : label.all isNameByte := by
    rw [List.all_eq_true]
    intro b member
    exact forall_byte (p := fun b => isAsciiLowercase b ∨ isAsciiDigit b ∨ b = 0x2d → isNameByte b) (by decide) b
      (lower.bytes b member)
  have some : label.isEmpty = false := List.isEmpty_eq_false_iff.mpr (List.length_pos_iff.mp lower.length.1)
  have first := lower.first
  have last := lower.last
  simp [isLabel,startsWith,endsWith,some,lower.length.2,bytes,first,last]

theorem canonical_isHost {host : List UInt8} (canonical : CanonicalHost host) : isHost host := by
  unfold isHost
  rcases canonical with lower | ⟨address,rfl,accepted,small⟩
  · have open' : startsWith 0x5b host = false := by
      have unbracketed := lower.unbracketed []
      rwa [List.append_nil] at unbracketed
    rw [open',Bool.false_and,if_neg Bool.false_ne_true,isHostName,Bool.and_eq_true,decide_eq_true_eq,List.all_eq_true]
    exact ⟨lower.length,fun label member => lowerLabel_isLabel (lower.labels label member)⟩
  · have ends : endsWith 0x5d (0x5b :: (address ++ [0x5d])) = true := by
      rw [endsWith,← List.cons_append,List.getLast?_concat]
      rfl
    have cut : ((0x5b :: (address ++ [0x5d])).drop 1).dropLast = address := by simp
    rw [ends,Bool.and_true,if_pos (by rfl),cut,isHostLiteral,Bool.and_eq_true,Bool.not_eq_true',List.any_eq_false]
    refine ⟨fun b member upper => ?_,accepted⟩
    have kept : toAsciiLowercase b = b := List.map_inj_left.mp (small.trans (List.map_id address).symm) b member
    exact forall_byte (p := fun b => isAsciiUppercase b → toAsciiLowercase b ≠ b) (by decide) b upper kept

end Hosts

section Guard
open Route AuthorityAgreement RouteAgreement

theorem actionId_upstream {order : Nat} (range : order < 2 ^ 64) : isUpstream (actionId order) := by
  have short : (decimal order).length ≤ 20 := by
    rw [decimal,List.length_map]
    exact (Nat.length_toDigits_le_iff (by decide) (by decide)).mpr (by omega)
  have start : (ascii "action-").length = 7 := by decide
  unfold isUpstream actionId
  rw [Bool.and_eq_true,Bool.and_eq_true,decide_eq_true_eq,decide_eq_true_eq,List.all_append,Bool.and_eq_true,List.length_append,start]
  refine ⟨⟨by omega,by omega⟩,by decide,List.all_eq_true.mpr fun b member => ?_⟩
  rw [Bool.or_eq_true,Bool.or_eq_true,Bool.or_eq_true]
  refine .inl (.inl (.inl ?_))
  exact forall_byte (p := fun b => isAsciiDigit b → isAsciiAlphanumeric b) (by decide) b (decimal_digits order b member)

variable {authority : EffectiveAuthority} {target : NormalizedTarget}

theorem guardRules_valid (canonical : CanonicalHost authority.host) {selected : RuntimeRoute} {order : Nat} (range : order < 2 ^ 64)
    (named : selected.id = actionId order) : ∀ rule ∈ guardRules authority selected, ValidRule rule := by
  intro rule member
  obtain rfl := List.mem_singleton.mp member
  exact ⟨canonical_isHost canonical,show isPrefix (ascii "/") by decide,show (ascii "/").length ≤ prefixLimit by decide,
    named ▸ actionId_upstream range⟩

theorem guardRules_served (canonical : CanonicalHost authority.host) (routed : routable target) {selected : RuntimeRoute} {order : Nat}
    (range : order < 2 ^ 64) (named : selected.id = actionId order) {f : MatchRoute} (registered : f ∈ routeImplementations) :
    f authority target (guardRules authority selected) = .ok ⟨selected.id,0⟩ := by
  rw [valid_served (by simp [guardRules]) routed (guardRules_valid canonical range named) (by simp [guardRules]) registered]
  have able : eligible authority target.routingPath ⟨authority.host,ascii "/",selected.id,0⟩ := by
    unfold eligible
    rw [Bool.and_eq_true]
    exact ⟨(eqIgnoreAsciiCase_iff _ _).mpr rfl,rfl⟩
  change serve (pick authority target.routingPath none _) = _
  unfold pick
  rw [if_pos able]
  rfl

theorem call_served {agreement : Agreement} {registry : List Registered} (unique : (registry.map (·.id)).Nodup)
    (implemented : ∀ entry ∈ registry, ∀ f ∈ entry.matchRoute, f ∈ routeImplementations) (positive : 1 ≤ agreement.width)
    (enough : agreement.width ≤ (registry.filter fun entry =>
      !agreement.quarantined.contains entry.id && entry.matchRoute.isSome).length) {rules : List RouteRule} {given : Result RouteMatch}
    (same : ∀ f ∈ routeImplementations, f authority target rules = given) :
    (agreement.calls registry).matchRoute authority target rules = agreed given := by
  refine run_agreed agreement ?_ positive "match_route" _ ?_ fun entry member => ?_
  · rw [List.map_map]
    exact unique
  · rw [Agreement.quorum,List.length_take,Agreement.eligible_length,List.filter_map,List.length_map]
    exact Nat.min_eq_left enough
  · obtain ⟨registered,-,able⟩ := Agreement.mem_quorum member
    obtain ⟨listed,inside,rfl⟩ := List.mem_map.mp registered
    obtain ⟨f,held⟩ := Option.isSome_iff_exists.mp able
    change listed.matchRoute = some f at held
    unfold Agreement.answer
    change listed.matchRoute.map _ = _
    rw [held,Option.map_some,same f (implemented listed inside f held)]

/-- What the five matchers say to the host of a rule. -/
structure HostAccepted (host : List UInt8) : Prop where
  direct : RouteDirect.canonicalHost host = .ok host
  pipeline : ∀ rule : RouteRule, rule.host = host → RouteRulePipeline.validateRuleHost rule = .ok ()
  bounded : RouteBoundedMatch.HostName.parse host = .ok (boundedHost host)
  typed : RouteTypedArithmetic.canonicalHost host = .ok host
  table : RouteImmutableTable.canonicalHost host = true

theorem canonical_accepted {host : List UInt8} (canonical : CanonicalHost host) : HostAccepted host := by
  have accepted := canonical_isHost canonical
  refine ⟨?_,fun rule same => ?_,?_,?_,?_⟩
  · rw [direct_host,if_pos accepted]
  · rw [pipeline_host,same,if_pos accepted]
  · rw [bounded_host,if_pos accepted]
  · rw [typed_host,if_pos accepted]
  · rw [table_host,accepted]

/-- What the selection with its guard returns: the route of the fold, or nothing where it finds none. -/
def Guarded (gateway : Gateway) (client : Client) (authority : EffectiveAuthority) (target : NormalizedTarget) (method : List UInt8)
    (connection : Connection) : Prop :=
  match selectRouteFold gateway.routes authority target method client.scheme with
  | some index => ∃ route, gateway.routes[index]? = some route ∧
      selectRuntimeRoute gateway client authority target method connection =
        .ok route { connection with events := connection.events ++ [.called "match_route" true] }
  | none => selectRuntimeRoute gateway client authority target method connection = .error (.protocol .noRoute) connection

/-- The guard lets every selected route pass, for every host that reconciling can return. -/
theorem guard_passes (canonicalize : List UInt8 → Option (List UInt8)) (config : Config) (gateway : Gateway)
    (compiled : compileRuntimeRoutes canonicalize config = some gateway.routes) (addressable : gateway.routes.length ≤ 2 ^ 64)
    (agreement : Agreement) (registry : List Registered) (unique : (registry.map (·.id)).Nodup)
    (implemented : ∀ entry ∈ registry, ∀ f ∈ entry.matchRoute, f ∈ routeImplementations)
    (answered : gateway.calls = agreement.calls registry) (positive : 1 ≤ agreement.width)
    (enough : agreement.width ≤ (registry.filter fun entry =>
      !agreement.quarantined.contains entry.id && entry.matchRoute.isSome).length)
    (parse : List UInt8 → Result RequestLine) (parser : parse ∈ requestLineImplementations) (line : List UInt8) (request : RequestLine)
    (parsed : parse line = .ok request) (normalize : RequestLine → Result NormalizedTarget)
    (normalizer : normalize ∈ requestTargetImplementations) (target : NormalizedTarget) (normalized : normalize request = .ok target)
    (form : target.form = .origin ∨ target.form = .absolute) (authority : EffectiveAuthority) (reconciled : Reconciled authority)
    (client : Client) (method : List UInt8) (connection : Connection) :
    Guarded gateway client authority target method connection ∧ HostAccepted authority.host := by
  have rooted := RequestTargetAgreement.normalized_routed normalizer (RequestTargetAgreement.produced_of_parse parser parsed) normalized
  have routed : routable target := by
    unfold routable
    rw [Bool.and_eq_true]
    exact ⟨by rcases form with form | form <;> simp [form],rooted form⟩
  refine ⟨?_,canonical_accepted reconciled.canonical.1⟩
  have same := @selections_agree gateway.routes authority target method client.scheme (compileRuntimeRoutes_distinct compiled)
  unfold Guarded selectRuntimeRoute selectedRoute
  dsimp only
  rw [if_neg (not_not.mpr same)]
  cases selected : selectRouteFold gateway.routes authority target method client.scheme with
  | none => rfl
  | some index =>
    obtain ⟨route,found,-,-⟩ := selectRouteFold_best selected
    refine ⟨route,found,?_⟩
    rw [Option.bind_some,found]
    have range : index < 2 ^ 64 := Nat.lt_of_lt_of_le (List.getElem?_eq_some_iff.mp found).1 addressable
    have served := @call_served authority target agreement registry unique implemented positive enough (guardRules authority route) _
      fun f registered => guardRules_served reconciled.canonical.1 routed range (compileRuntimeRoutes_named compiled found) registered
    rw [← answered] at served
    change (consult "match_route" (gateway.calls.matchRoute authority target (guardRules authority route)) >>= _) connection = _
    rw [served]
    change (if route.id ≠ route.id then throw Fault.internal else pure route : Serving RuntimeRoute) _ = _
    rw [if_neg (not_not.mpr rfl)]
    rfl

/-- An entry that implements the matching of routes alone. -/
def matcherEntry (id : String) (f : MatchRoute) : Registered := ⟨id,none,none,none,none,none,none,none,none,none,some f,none,none⟩

def matcherEntries : List Registered :=
  [matcherEntry "direct" RouteDirect.matchRoute,matcherEntry "table" RouteImmutableTable.matchRoute,
    matcherEntry "bounded" RouteBoundedMatch.matchRoute]

def guardedGateway (routes : List RuntimeRoute) : Gateway where
  trustForwardingHeaders := false
  maxResponseBodyBytes := 65536
  routes := routes
  upstreams := []
  calls := (⟨2,["table"],fun _ => none⟩ : Agreement).calls matcherEntries
  runtime := ⟨⟨false,1024,[]⟩,⟨65536,65536⟩,⟨fun _ => .error .incomplete,fun _ => .error .incomplete,fun _ => .error .incomplete,
    fun _ _ => .error .incomplete⟩,fun _ => none⟩

/-- Two of three matchers, one of them in quarantine. -/
theorem guard_passes_two : ∃ routes, compileRuntimeRoutes some sampleConfig = some routes ∧
    Guarded (guardedGateway routes) ⟨.v4 [127,0,0,1] rfl (by decide),false,none⟩ namedHost sampleTarget (ascii "get") ⟨.new [] [],[]⟩ ∧
      HostAccepted namedHost.host := by
  have sized : (compileRuntimeRoutes some sampleConfig).map List.length = some 2 := by decide +kernel
  obtain ⟨routes,compiled,two⟩ := Option.map_eq_some_iff.mp sized
  refine ⟨routes,compiled,guard_passes some sampleConfig (guardedGateway routes) compiled
    (by change routes.length ≤ 2 ^ 64; rw [two]; decide) ⟨2,["table"],fun _ => none⟩ matcherEntries (by decide) ?_ rfl (by decide)
    (by decide) RequestLineDirect.parseRequestLine (by simp [requestLineImplementations]) (ascii "GET /api/x HTTP/1.1\r\n")
    ⟨ascii "get",ascii "/api/x",.http11,21⟩ (by decide +kernel) RequestTargetRules.normalizeRequestTarget
    (by simp [requestTargetImplementations]) sampleTarget (by decide +kernel) (.inl rfl) namedHost namedHost_reconciled _ _ _⟩
  intro entry member f held
  simp only [matcherEntries,List.mem_cons,List.not_mem_nil,or_false] at member
  rcases member with rfl | rfl | rfl <;> cases held <;> simp [routeImplementations]

end Guard
end Polyguard.Proxy
