import Polyguard.Proxy.Routes
import Polyguard.Proxy.Validated
import Polyguard.Route.Agreement
import Polyguard.RequestTarget.Routed

/-! Legacy routes are served as their table was validated.
The table is judged by the registered matchers and served by the selection over the
compiled routes. On a table of legacy routes the wildcards and the match kinds of
the selection never show, so both choose the same route. -/
namespace Polyguard.Proxy
open Ascii Slices Route RouteAgreement

section Tables

theorem clean_served {authority : EffectiveAuthority} {target : NormalizedTarget} {rules : List RouteRule}
    (clean : Clean true rules) (room : rules.length ≤ 256) (found : routable target) {f : MatchRoute}
    (registered : f ∈ routeImplementations) :
    f authority target rules = serve (selected authority target.routingPath rules) := by
  have bounded : tableFault true [] rules = none := (clean_iff true rules).mpr clean
  have unbounded : tableFault false [] rules = none := (clean_iff false rules).mpr clean.lax
  have pipeline : pipelineFault rules = none := by
    have sound : rules.findSome? (ruleFault true) = none := List.findSome?_eq_none_iff.mpr clean.sound
    rw [pipelineFault,sound,Option.none_or,bounded]
  simp only [routeImplementations,List.mem_cons,List.not_mem_nil,or_false] at registered
  rcases registered with rfl | rfl | rfl | rfl | rfl
  · rw [direct_judged,bounded,framed,if_neg (Nat.not_lt.mpr room),if_pos found]
    rfl
  · rw [pipeline_judged,pipeline,framed,if_neg (Nat.not_lt.mpr room),if_pos found]
    rfl
  · rw [bounded_judged,bounded,framed,if_neg (Nat.not_lt.mpr room),if_pos found]
    rfl
  · rw [typed_judged,unbounded,framed,if_neg (Nat.not_lt.mpr room),if_pos found]
    rfl
  · rw [table_judged,unbounded,framed,if_neg (Nat.not_lt.mpr room),if_pos found]
    rfl

/-- What a matcher answers unless it refuses the table. -/
def Served (answer : Result RouteMatch) : Prop := (∃ found, answer = .ok found) ∨ answer = .error .noRoute

theorem judged_served {fault : Option String} {choice : Option RouteRule} (served : Served (judged fault choice)) :
    fault = none := by
  cases fault with
  | none => rfl
  | some reason => rcases served with ⟨found,impossible⟩ | impossible <;> cases impossible

theorem served_clean {authority : EffectiveAuthority} {rules : List RouteRule} (room : rules.length ≤ 256)
    (short : ∀ rule ∈ rules, rule.pathPrefix.length ≤ prefixLimit) {f : MatchRoute}
    (registered : f ∈ routeImplementations) (served : Served (f authority rootTarget rules)) : Clean true rules := by
  have found : routable rootTarget = true := by decide
  have framing (answer : Result RouteMatch) : framed rootTarget rules answer = answer := by
    rw [framed,if_neg (Nat.not_lt.mpr room),if_pos found]
  have strict (lax : Clean false rules) : Clean true rules := by
    refine ⟨fun rule member => ?_,lax.distinct⟩
    have sound := (ruleFault_none false rule).mp (lax.sound rule member)
    exact (ruleFault_none true rule).mpr ⟨sound.1,sound.2.1,fun _ => short rule member,sound.2.2.2⟩
  simp only [routeImplementations,List.mem_cons,List.not_mem_nil,or_false] at registered
  rcases registered with rfl | rfl | rfl | rfl | rfl
  · rw [direct_judged,framing] at served
    exact (clean_iff true rules).mp (judged_served served)
  · rw [pipeline_judged,framing] at served
    have passed := judged_served served
    rw [pipelineFault,Option.or_eq_none_iff] at passed
    exact (clean_iff true rules).mp passed.2
  · rw [bounded_judged,framing] at served
    exact (clean_iff true rules).mp (judged_served served)
  · rw [typed_judged,framing] at served
    exact strict ((clean_iff false rules).mp (judged_served served))
  · rw [table_judged,framing] at served
    exact strict ((clean_iff false rules).mp (judged_served served))

end Tables

section Validation

/-- What an accepted configuration says about its table of legacy routes. -/
structure ValidRoutes (config : Config) : Prop where
  width : 2 ≤ config.listener.agreementImplementations
  room : totalRoutes config ≤ 256
  table : validateRouteTable config = .ok ()

theorem validateConfig_routes {isDirectory : List UInt8 → Bool} {config : Config}
    (valid : validateConfig isDirectory config = .ok ()) : ValidRoutes config := by
  obtain ⟨_,-,valid⟩ := validation_bind valid
  obtain ⟨_,width,valid⟩ := validation_bind valid
  obtain ⟨_,-,valid⟩ := validation_bind valid
  obtain ⟨_,-,valid⟩ := validation_bind valid
  obtain ⟨_,-,valid⟩ := validation_bind valid
  obtain ⟨_,-,valid⟩ := validation_bind valid
  obtain ⟨_,-,valid⟩ := validation_bind valid
  obtain ⟨_,total,valid⟩ := validation_bind valid
  obtain ⟨_,-,valid⟩ := validation_bind valid
  obtain ⟨_,-,valid⟩ := validation_bind valid
  obtain ⟨_,-,valid⟩ := validation_bind valid
  have width := require_holds width
  have total := require_holds total
  simp only [Bool.and_eq_true,decide_eq_true_eq] at width total
  exact ⟨width.1,total.2,valid⟩

theorem matchRouteOf_registered {id : String} {f : MatchRoute} (found : matchRouteOf id = some f) :
    f ∈ routeImplementations := by
  unfold matchRouteOf at found
  simp only [routeImplementations,List.mem_cons,List.not_mem_nil,or_false]
  split at found
  · exact .inl (Option.some.inj found).symm
  · split at found
    · exact .inr (.inl (Option.some.inj found).symm)
    · split at found
      · exact .inr (.inr (.inl (Option.some.inj found).symm))
      · split at found
        · exact .inr (.inr (.inr (.inl (Option.some.inj found).symm)))
        · split at found
          · exact .inr (.inr (.inr (.inr (Option.some.inj found).symm)))
          · cases found

theorem matchRouteRegistry_unique : (matchRouteRegistry.map (·.id)).Nodup := by
  unfold matchRouteRegistry
  rw [List.map_map,show ((fun entry : Implementation MatchRoute => entry.id) ∘ fun id : String =>
    (⟨id,fun function => if function = matchRouteFunction then matchRouteOf id else none⟩ : Implementation MatchRoute)) = id from rfl,
    List.map_id]
  decide +kernel

theorem run_served {agreement : Agreement} (positive : 1 ≤ agreement.width) {apply : MatchRoute → Result RouteMatch}
    (served : (∃ found, (agreement.run matchRouteRegistry matchRouteFunction apply).2 = .ok found) ∨
      (agreement.run matchRouteRegistry matchRouteFunction apply).2 = .error (.protocol .noRoute)) :
    ∃ f ∈ routeImplementations, Served (apply f) := by
  rcases Agreement.run_cases agreement matchRouteRegistry_unique positive matchRouteFunction apply with
    ⟨-,ran⟩ | ⟨given,some,answers,ran⟩ | ⟨-,ran⟩
  · rw [ran] at served
    rcases served with ⟨found,impossible⟩ | impossible <;> cases impossible
  · obtain ⟨entry,member⟩ := List.exists_mem_of_ne_nil _ some
    obtain ⟨registered,-,able⟩ := Agreement.mem_quorum member
    obtain ⟨f,implemented⟩ := Option.isSome_iff_exists.mp able
    have answered := answers entry member
    rw [Agreement.answer,implemented] at answered
    obtain ⟨id,-,rfl⟩ := List.mem_map.mp registered
    have registered : matchRouteOf id = .some f := by simpa [matchRouteFunction] using implemented
    refine ⟨f,matchRouteOf_registered registered,?_⟩
    rw [Option.some.inj answered]
    rw [ran] at served
    rcases served with ⟨found,ok⟩ | failed
    · exact .inl ⟨found,(Agreement.settle_ok ok).2⟩
    · exact .inr (Agreement.settle_protocol failed).2
  · rw [ran] at served
    rcases served with ⟨found,impossible⟩ | impossible <;> cases impossible

theorem routeRules_length (config : Config) : (routeRules config).length = config.routes.length := by
  simp [routeRules]

theorem routeRules_short {config : Config} (short : ∀ route ∈ config.routes, route.pathPrefix.length ≤ prefixLimit) :
    ∀ rule ∈ routeRules config, rule.pathPrefix.length ≤ prefixLimit := by
  intro rule member
  obtain ⟨⟨route,index⟩,listed,rfl⟩ := List.mem_map.mp member
  exact short route (List.fst_mem_of_mem_zipIdx listed)

theorem validRoutes_clean {config : Config} (valid : ValidRoutes config) (room : (routeRules config).length ≤ 256)
    (short : ∀ route ∈ config.routes, route.pathPrefix.length ≤ prefixLimit) : Clean true (routeRules config) := by
  have table := valid.table
  unfold validateRouteTable at table
  split at table
  · rename_i none
    simp only [routeRules,none]
    exact ⟨by simp,by simp⟩
  · rename_i first rest listed
    have positive : 1 ≤ (configuredAgreement config).width := Nat.le_of_lt valid.width
    have checked : ∃ f ∈ routeImplementations, Served (f ⟨first.host,none⟩ rootTarget (routeRules config)) := by
      apply run_served positive
      split at table
      · rename_i found ran
        exact .inl ⟨found,ran⟩
      · rename_i ran
        exact .inr ran
      · cases table
    obtain ⟨f,registered,answered⟩ := checked
    exact served_clean room (routeRules_short short) registered answered

end Validation

section Selection

/-- A legacy route with its index: its host is a plain one and its index fits an order. -/
structure Legal (pair : RouteConfig × Nat) : Prop where
  plain : isHost pair.1.host
  small : pair.2 < 256

def ruleOf (pair : RouteConfig × Nat) : RouteRule :=
  ⟨pair.1.host,pair.1.pathPrefix,pair.1.upstream,UInt64.ofNat pair.2⟩

def entryOf (limits : ConfiguredLimits) (pair : RouteConfig × Nat) : RuntimeRoute × Nat :=
  (legacyRoute limits pair.1 pair.2,pair.2)

theorem host_unstarred {host : List UInt8} (plain : isHost host) : host.head? ≠ some 0x2a := by
  intro starred
  unfold isHost at plain
  split at plain
  · rename_i brackets
    obtain ⟨address,rfl⟩ := bracketed brackets
    cases starred
  · have byte := hostName_bytes plain 0x2a (List.mem_of_head? starred)
    revert byte
    decide

theorem host_unwild {host : List UInt8} (plain : isHost host) : host ≠ ascii "*" ∧ wildcardSuffix host = none := by
  have unstarred := host_unstarred plain
  constructor
  · rintro rfl
    exact unstarred rfl
  · unfold wildcardSuffix stripPrefix
    split
    · rename_i leads
      obtain ⟨rest,rfl⟩ := List.isPrefixOf_iff_prefix.mp leads
      exact absurd rfl unstarred
    · rfl

theorem legacy_eligible {pair : RouteConfig × Nat} (legal : Legal pair) (limits : ConfiguredLimits)
    (authority : EffectiveAuthority) (target : NormalizedTarget) (method scheme : List UInt8) :
    runtimeRouteEligible authority target method scheme (entryOf limits pair).1 =
      eligible authority target.routingPath (ruleOf pair) := by
  obtain ⟨star,wild⟩ := host_unwild legal.plain
  have host : runtimeHostMatches pair.1.host authority.host = eqIgnoreAsciiCase pair.1.host authority.host := by
    rw [runtimeHostMatches,if_neg (by simpa using star),wild]
  have path : runtimePathMatches (legacyRoute limits pair.1 pair.2) target.routingPath =
      covers pair.1.pathPrefix target.routingPath := by
    unfold runtimePathMatches covers
    simp only [legacyRoute,Bool.or_assoc]
    congr 1
    unfold stripPrefix
    by_cases leads : pair.1.pathPrefix.isPrefixOf target.routingPath
    · obtain ⟨rest,whole⟩ := List.isPrefixOf_iff_prefix.mp leads
      rw [if_pos leads]
      simp only [← whole,List.drop_left,Option.any_some]
      congr 1
      cases rest with
      | nil => simp
      | cons first rest => simp
    · rw [if_neg leads]
      simp only [Option.any_none,Bool.or_false,beq_eq_false_iff_ne,ne_eq]
      intro same
      exact leads (by simp [same])
  unfold runtimeRouteEligible eligible
  simp only [entryOf,ruleOf,legacyRoute,List.isEmpty_nil,Bool.true_or,Bool.and_true]
  rw [← legacyRoute,host,path]

theorem legacy_supersedes {pair other : RouteConfig × Nat} (legal : Legal pair) (legal' : Legal other)
    (limits : ConfiguredLimits) {host : List UInt8} (same : eqIgnoreAsciiCase pair.1.host host)
    (same' : eqIgnoreAsciiCase other.1.host host) :
    supersedes (entryOf limits pair).1 (entryOf limits other).1 = outranks (ruleOf pair) (ruleOf other) := by
  obtain ⟨star,wild⟩ := host_unwild legal.plain
  obtain ⟨star',wild'⟩ := host_unwild legal'.plain
  have sized : pair.1.host.length = other.1.host.length := by
    rw [eqIgnoreAsciiCase_iff] at same same'
    have lengths := congrArg List.length (same.trans same'.symm)
    simpa using lengths
  have specificity : runtimeHostSpecificity pair.1.host = runtimeHostSpecificity other.1.host := by
    rw [runtimeHostSpecificity,runtimeHostSpecificity,if_neg (by simpa using star),if_neg (by simpa using star'),wild,wild',
      sized]
  have order : pair.2 < other.2 ↔ UInt64.ofNat pair.2 < UInt64.ofNat other.2 := by
    have small := legal.small
    have small' := legal'.small
    rw [UInt64.lt_iff_toNat_lt,UInt64.toNat_ofNat',UInt64.toNat_ofNat',Nat.mod_eq_of_lt (by omega),
      Nat.mod_eq_of_lt (by omega)]
  unfold supersedes outranks
  simp only [entryOf,ruleOf,legacyRoute,specificity,ne_eq,not_true_eq_false,if_false]
  by_cases lengths : pair.1.pathPrefix.length = other.1.pathPrefix.length
  · simp only [lengths,not_true_eq_false,if_false,Nat.lt_irrefl,decide_false,beq_self_eq_true,Bool.true_and,Bool.false_or,
      gt_iff_lt]
    exact decide_eq_decide.mpr order
  · simp [lengths]

/-- The two loops keep the same route, one as an entry and one as a rule. -/
theorem fold_selected (limits : ConfiguredLimits) (authority : EffectiveAuthority) (target : NormalizedTarget)
    (method scheme : List UInt8) (pairs : List (RouteConfig × Nat)) :
    ∀ best : Option (RouteConfig × Nat), (∀ pair ∈ pairs, Legal pair) →
    (∀ pair ∈ best, Legal pair ∧ eqIgnoreAsciiCase pair.1.host authority.host) →
    ∃ final : Option (RouteConfig × Nat), (∀ pair ∈ final, pair ∈ best ∨ pair ∈ pairs) ∧
      (pairs.map (entryOf limits)).foldl (selectStep authority target method scheme) (best.map (entryOf limits)) =
        final.map (entryOf limits) ∧
      (pairs.map ruleOf).foldl (pick authority target.routingPath) (best.map ruleOf) = final.map ruleOf := by
  induction pairs with
  | nil =>
    intro best _ _
    exact ⟨best,fun pair member => .inl member,rfl,rfl⟩
  | cons pair pairs ih =>
    intro best legal kept
    have here := legal pair (by simp)
    have rest : ∀ pair ∈ pairs, Legal pair := fun pair member => legal pair (by simp [member])
    have chosen := legacy_eligible here limits authority target method scheme
    simp only [List.map_cons,List.foldl_cons]
    -- the next winner is the old one or this pair, in both loops alike
    have round : ∃ next : Option (RouteConfig × Nat), (next = best ∨ (next = some pair ∧
          eqIgnoreAsciiCase pair.1.host authority.host)) ∧
        selectStep authority target method scheme (best.map (entryOf limits)) (entryOf limits pair) =
          next.map (entryOf limits) ∧
        pick authority target.routingPath (best.map ruleOf) (ruleOf pair) = next.map ruleOf := by
      unfold selectStep pick
      rw [chosen]
      cases found : eligible authority target.routingPath (ruleOf pair) with
      | false => exact ⟨best,.inl rfl,rfl,rfl⟩
      | true =>
        have same : eqIgnoreAsciiCase pair.1.host authority.host := by
          rw [eligible,Bool.and_eq_true] at found
          exact found.1
        cases best with
        | none => exact ⟨some pair,.inr ⟨rfl,same⟩,rfl,rfl⟩
        | some current =>
          obtain ⟨currentLegal,currentSame⟩ := kept current rfl
          have compared := legacy_supersedes here currentLegal limits same currentSame
          simp only [Option.map_some,compared]
          cases outranks (ruleOf pair) (ruleOf current) with
          | true => exact ⟨some pair,.inr ⟨rfl,same⟩,rfl,rfl⟩
          | false => exact ⟨some current,.inl rfl,rfl,rfl⟩
    obtain ⟨next,origin,stepped,picked⟩ := round
    rw [stepped,picked]
    obtain ⟨final,from',folded,selected⟩ := ih next rest (by
      intro other member
      rcases origin with rfl | ⟨rfl,same⟩
      · exact kept other member
      · cases Option.mem_some_iff.mp member
        exact ⟨here,same⟩)
    refine ⟨final,?_,folded,selected⟩
    intro other member
    rcases from' other member with inside | inside
    · rcases origin with rfl | ⟨rfl,-⟩
      · exact .inl inside
      · cases Option.mem_some_iff.mp inside
        exact .inr (by simp)
    · exact .inr (by simp [inside])

end Selection

section Refinement

theorem legacy_compiled {config : Config} (legacy : config.sites = []) (canonicalize : List UInt8 → Option (List UInt8)) :
    compileRuntimeRoutes canonicalize config =
      some (config.routes.zipIdx.map fun pair => (entryOf config.limits pair).1) := by
  unfold compileRuntimeRoutes
  rw [legacy]
  simp only [List.mapM_nil,Option.pure_def,Option.bind_eq_bind,Option.bind_some,List.flatten_nil,List.append_nil,
    List.zipIdx_map,List.map_map]
  rfl

theorem zipIdx_entries {α β : Type} (f : α × Nat → β) (items : List α) (start : Nat) :
    ((items.zipIdx start).map f).zipIdx start = (items.zipIdx start).map fun pair => (f pair,pair.2) := by
  induction items generalizing start with
  | nil => rfl
  | cons item items ih => simp only [List.zipIdx_cons,List.map_cons,ih (start + 1)]

/-- The legacy routes of an accepted configuration that the two loops choose between. -/
theorem legacy_chosen {config : Config} (clean : Clean true (routeRules config)) (room : config.routes.length ≤ 256)
    (authority : EffectiveAuthority) (target : NormalizedTarget) (method scheme : List UInt8) :
    ∃ final : Option (RouteConfig × Nat), (∀ pair ∈ final, config.routes[pair.2]? = some pair.1) ∧
      selectRouteFold (config.routes.zipIdx.map fun pair => (entryOf config.limits pair).1) authority target method scheme =
        final.map (·.2) ∧
      selected authority target.routingPath (routeRules config) = final.map ruleOf := by
  have legal : ∀ pair ∈ config.routes.zipIdx, Legal pair := by
    intro pair member
    have sound := clean.sound (ruleOf pair) (List.mem_map.mpr ⟨pair,member,rfl⟩)
    refine ⟨((ruleFault_none true _).mp sound).1,?_⟩
    have inside := List.snd_lt_of_mem_zipIdx member
    omega
  obtain ⟨final,origin,folded,picked⟩ := fold_selected config.limits authority target method scheme config.routes.zipIdx
    none legal (by simp)
  refine ⟨final,?_,?_,picked⟩
  · intro pair member
    rcases origin pair member with impossible | inside
    · cases impossible
    · exact List.mem_zipIdx_iff_getElem?.mp inside
  · unfold selectRouteFold
    rw [zipIdx_entries]
    have folded' : (config.routes.zipIdx.map fun pair => ((entryOf config.limits pair).1,pair.2)).foldl
        (selectStep authority target method scheme) none = final.map (entryOf config.limits) := folded
    rw [folded',Option.map_map]
    rfl

/-- For every accepted configuration of legacy routes, the selection over the compiled routes names a route exactly
when every registered matcher names it, and none exactly when every matcher finds no route. -/
theorem legacy_routing_refines (isDirectory : List UInt8 → Bool) (canonicalize : List UInt8 → Option (List UInt8))
    (config : Config) (legacy : config.sites = []) (short : ∀ route ∈ config.routes, route.pathPrefix.length ≤ 8192)
    (valid : validateConfig isDirectory config = .ok ()) (parse : List UInt8 → Result RequestLine)
    (parser : parse ∈ requestLineImplementations) (input : List UInt8) (request : RequestLine)
    (parsed : parse input = .ok request) (normalize : RequestLine → Result NormalizedTarget)
    (normalizer : normalize ∈ requestTargetImplementations) (target : NormalizedTarget)
    (normalized : normalize request = .ok target) (form : target.form = .origin ∨ target.form = .absolute)
    (authority : EffectiveAuthority) (method scheme : List UInt8) :
    ∃ routes, compileRuntimeRoutes canonicalize config = some routes ∧
      (∀ index, selectRouteFold routes authority target method scheme = some index ↔
        ∃ route, config.routes[index]? = some route ∧ ∀ matcher ∈ routeImplementations,
          matcher authority target (routeRules config) = .ok ⟨route.upstream,UInt64.ofNat index⟩) ∧
      (selectRouteFold routes authority target method scheme = none ↔ ∀ matcher ∈ routeImplementations,
        matcher authority target (routeRules config) = .error .noRoute) := by
  have judged := validateConfig_routes valid
  have room : config.routes.length ≤ 256 := by
    have total := judged.room
    simpa [totalRoutes,legacy] using total
  have ruled : (routeRules config).length ≤ 256 := by rwa [routeRules_length]
  have clean := validRoutes_clean judged ruled short
  have routed := RequestTargetAgreement.normalized_routed normalizer
    (RequestTargetAgreement.produced_of_parse parser parsed) normalized form
  have found : routable target = true := by
    rw [routable,Bool.and_eq_true]
    exact ⟨by simpa using form,routed⟩
  have served (matcher : MatchRoute) (registered : matcher ∈ routeImplementations) :
      matcher authority target (routeRules config) = serve (selected authority target.routingPath (routeRules config)) :=
    clean_served clean ruled found registered
  obtain ⟨final,listed,folded,chosen⟩ := legacy_chosen clean room authority target method scheme
  refine ⟨_,legacy_compiled legacy canonicalize,?_,?_⟩
  · intro index
    rw [folded]
    constructor
    · intro named
      obtain ⟨pair,picked,rfl⟩ := Option.map_eq_some_iff.mp named
      refine ⟨pair.1,listed pair picked,fun matcher registered => ?_⟩
      rw [served matcher registered,chosen,picked]
      rfl
    · rintro ⟨route,at_index,answers⟩
      have direct := answers RouteDirect.matchRoute (by simp [routeImplementations])
      rw [served RouteDirect.matchRoute (by simp [routeImplementations]),chosen] at direct
      cases final with
      | none => cases direct
      | some pair =>
        have named := listed pair rfl
        have order := congrArg RouteMatch.declarationOrder (Except.ok.inj direct)
        have inside := (List.getElem?_eq_some_iff.mp named).1
        have inside' := (List.getElem?_eq_some_iff.mp at_index).1
        have same := congrArg UInt64.toNat order
        rw [ruleOf,UInt64.toNat_ofNat',UInt64.toNat_ofNat',Nat.mod_eq_of_lt (by omega),Nat.mod_eq_of_lt (by omega)] at same
        rw [Option.map_some,same]
  · rw [folded]
    constructor
    · intro none matcher registered
      rw [served matcher registered,chosen,Option.map_eq_none_iff.mp none]
      rfl
    · intro answers
      have direct := answers RouteDirect.matchRoute (by simp [routeImplementations])
      rw [served RouteDirect.matchRoute (by simp [routeImplementations]),chosen] at direct
      cases final with
      | none => rfl
      | some pair => cases direct

def sampleListener : ListenerConfig :=
  ⟨ascii "127.0.0.1:8080",none,none,false,ascii "agreement",2,[],128,5000,30000,3000,30000,10000⟩

/-- One upstream behind a route of its own and a route for everything else of its host. -/
def sampleConfig : Config :=
  ⟨sampleListener,[],⟨⟨32768,67108864⟩,16777216,134217728⟩,⟨false,1024,[ascii "text/plain"]⟩,
    [⟨ascii "app",ascii "127.0.0.1:9000"⟩],
    [⟨ascii "a.test",ascii "/",ascii "app"⟩,⟨ascii "a.test",ascii "/api",ascii "app"⟩],[],none⟩

def sampleTarget : NormalizedTarget := ⟨.origin,none,none,ascii "/api/x",ascii "/api/x"⟩

theorem legacy_routing_refines_sample :
    validateConfig (fun _ => false) sampleConfig = .ok () ∧
      ∃ routes, compileRuntimeRoutes some sampleConfig = some routes ∧
        (selectRouteFold routes ⟨ascii "a.test",none⟩ sampleTarget (ascii "get") (ascii "http") = some 1 ↔
          ∃ route, sampleConfig.routes[1]? = some route ∧ ∀ matcher ∈ routeImplementations,
            matcher ⟨ascii "a.test",none⟩ sampleTarget (routeRules sampleConfig) = .ok ⟨route.upstream,UInt64.ofNat 1⟩) := by
  have valid : validateConfig (fun _ => false) sampleConfig = .ok () := by decide +kernel
  have parsed : RequestLineDirect.parseRequestLine (ascii "GET /api/x HTTP/1.1\r\n") =
      .ok ⟨ascii "get",ascii "/api/x",.http11,21⟩ := by decide +kernel
  have normalized : RequestTargetRules.normalizeRequestTarget ⟨ascii "get",ascii "/api/x",.http11,21⟩ = .ok sampleTarget := by
    decide +kernel
  obtain ⟨routes,compiled,named,-⟩ := legacy_routing_refines (fun _ => false) some sampleConfig rfl (by decide) valid
    RequestLineDirect.parseRequestLine (by simp [requestLineImplementations]) _ _ parsed
    RequestTargetRules.normalizeRequestTarget (by simp [requestTargetImplementations]) _ normalized (.inl rfl)
    ⟨ascii "a.test",none⟩ (ascii "get") (ascii "http")
  exact ⟨valid,routes,compiled,named 1⟩

end Refinement

end Polyguard.Proxy
