import Polyguard.Nginx.Servers
import Polyguard.Proxy.Selection
import Mathlib.Data.List.MinMax

/-! The choice between the servers of a configuration.
The compiled routes of an imported configuration are the routes of its servers under
their names, and the selection takes the most specific name that has an eligible route.
Nginx chooses a server first and looks for a route in that one only. -/
namespace Polyguard.Nginx
open Ascii Slices Decimal Proxy

section Compiled

/-- The server answers to the name on the scheme. -/
def Answers (owners : Owners) (servers : List ServerSpec) (index : Nat) (server : ServerSpec) (key scheme : List UInt8) : Prop :=
  servers[index]? = some server ∧ ∃ schemes, (key,schemes) ∈ keyScopes owners server index ∧ scheme ∈ schemes

theorem Answers.headlines {owners : Owners} {servers : List ServerSpec} {index : Nat} {server : ServerSpec} {key scheme : List UInt8}
    (answers : Answers owners servers index server key scheme) :
    Answers owners (servers.map headline) index (headline server) key scheme := by
  obtain ⟨placed,schemes,scope,offered⟩ := answers
  exact ⟨by rw [List.getElem?_map,placed]; rfl,schemes,scope,offered⟩

theorem Answers.of_headlines {owners : Owners} {servers : List ServerSpec} {index : Nat} {server written : ServerSpec}
    {key scheme : List UInt8} (placed : servers[index]? = some server)
    (answers : Answers owners (servers.map headline) index written key scheme) : Answers owners servers index server key scheme := by
  obtain ⟨there,schemes,scope,offered⟩ := answers
  rw [List.getElem?_map,placed] at there
  cases there
  exact ⟨placed,schemes,scope,offered⟩

/-- The route of a site as it is compiled under the name of the site. -/
def CompiledAs (canonicalize : List UInt8 → Option (List UInt8)) (limits : ConfiguredLimits) (key : List UInt8)
    (source : ActionRouteConfig) (order : Nat) (route : RuntimeRoute) : Prop :=
  ∃ draft, siteRoute canonicalize limits (newSite key) key source = some draft ∧ route = draft order

variable {canonicalize : List UInt8 → Option (List UInt8)} {limits : ConfiguredLimits}

theorem siteNames_shape {site : SiteConfig} {key : List UInt8} (shape : ({ site with routes := [] } : SiteConfig) = newSite key) :
    siteNames site = [key] := by
  have isDefault := congrArg SiteConfig.isDefault shape
  have serverNames := congrArg SiteConfig.serverNames shape
  dsimp only at isDefault serverNames
  unfold siteNames
  rw [isDefault,serverNames,newSite]
  dsimp only
  by_cases all : key = ascii "*"
  · rw [all]
    rfl
  · rw [beq_eq_false_iff_ne.mpr all]
    rfl

theorem siteRoute_shape {site : SiteConfig} {key : List UInt8} (shape : ({ site with routes := [] } : SiteConfig) = newSite key)
    (source : ActionRouteConfig) : siteRoute canonicalize limits site key source =
      siteRoute canonicalize limits (newSite key) key source := by
  rw [← shape]
  rfl

/-- What a compiled route keeps of its source. -/
structure Keeps (key : List UInt8) (source : ActionRouteConfig) (order : Nat) (route : RuntimeRoute) : Prop where
  host : route.host = key
  path : route.path = source.path
  matchKind : route.matchKind = source.matchKind
  methods : route.methods = source.methods.map (·.map toAsciiLowercase)
  schemes : route.schemes = source.schemes.map (·.map toAsciiLowercase)
  order : route.declarationOrder = order
  action : runtimeAction canonicalize source.action = some route.action

theorem CompiledAs.keeps {key : List UInt8} {source : ActionRouteConfig} {order : Nat} {route : RuntimeRoute}
    (compiled : CompiledAs canonicalize limits key source order route) :
    @Keeps canonicalize key source order route := by
  obtain ⟨draft,drafted,rfl⟩ := compiled
  unfold siteRoute at drafted
  cases siteDeny : (newSite key).deny.mapM IpNetwork.parse with
  | none =>
    rw [siteDeny] at drafted
    cases drafted
  | some denied =>
    rw [siteDeny] at drafted
    cases routeDeny : source.deny.mapM IpNetwork.parse with
    | none =>
      rw [routeDeny] at drafted
      cases drafted
    | some networks =>
      rw [routeDeny] at drafted
      cases made : runtimeAction canonicalize source.action with
      | none =>
        rw [made] at drafted
        cases drafted
      | some action =>
        rw [made] at drafted
        cases drafted
        exact ⟨rfl,rfl,rfl,rfl,rfl,rfl,made⟩

variable {files : Files} {tree : List Directive} {config : Config} {http : Directive} {limit : Nat} {translation : Translation}
  {owners : Owners} {assembly : Assembly} {routes : List RuntimeRoute}

theorem compiled_origin (passes : Translated files tree config http limit translation owners assembly)
    (compiled : compileRuntimeRoutes canonicalize config = some routes) {order : Nat} {route : RuntimeRoute}
    (found : routes[order]? = some route) : ∃ index server key scheme source, Answers owners (treeServers tree) index server key scheme ∧
      source ∈ scopedRoutes server key scheme ∧ CompiledAs canonicalize config.limits key source order route := by
  obtain ⟨sized,each⟩ := compileRuntimeRoutes_each passes.legacy compiled
  obtain ⟨inside,-⟩ := List.getElem?_eq_some_iff.mp found
  rw [sized] at inside
  cases entry : (siteEntries config)[order] with
  | mk site rest =>
    obtain ⟨name,source⟩ := rest
    have placed : (siteEntries config)[order]? = some (site,name,source) := by rw [List.getElem?_eq_getElem inside,entry]
    obtain ⟨draft,drafted,made⟩ := each order site name source placed
    cases Option.some.inj (found.symm.trans made)
    obtain ⟨_,there,listed⟩ := List.mem_flatMap.mp (List.mem_of_getElem? placed)
    obtain ⟨_,named,listed⟩ := List.mem_flatMap.mp listed
    obtain ⟨_,member,same⟩ := List.mem_map.mp listed
    cases same
    obtain ⟨key,shape,origins⟩ := passes.originates there
    rw [siteNames_shape shape] at named
    cases List.mem_singleton.mp named
    obtain ⟨server,index,schemes,scheme,held,scope,offered,sourced⟩ := origins source member
    exact ⟨index,server,_,scheme,source,⟨held,schemes,scope,offered⟩,sourced,draft,
      (siteRoute_shape shape source).symm.trans drafted,rfl⟩

theorem compiled_of (passes : Translated files tree config http limit translation owners assembly)
    (compiled : compileRuntimeRoutes canonicalize config = some routes) {index : Nat} {server : ServerSpec}
    {key scheme : List UInt8} (answers : Answers owners (treeServers tree) index server key scheme) {source : ActionRouteConfig}
    (member : source ∈ scopedRoutes server key scheme) : ∃ order route, routes[order]? = some route ∧
      CompiledAs canonicalize config.limits key source order route := by
  obtain ⟨placed,schemes,scope,offered⟩ := answers
  obtain ⟨site,there,shape,installed⟩ := passes.installs placed scope offered member
  have listed : (site,key,source) ∈ siteEntries config := by
    refine List.mem_flatMap.mpr ⟨site,there,List.mem_flatMap.mpr ⟨key,?_,List.mem_map.mpr ⟨source,installed,rfl⟩⟩⟩
    rw [siteNames_shape shape]
    exact List.mem_singleton.mpr rfl
  obtain ⟨order,found⟩ := List.mem_iff_getElem?.mp listed
  obtain ⟨draft,drafted,made⟩ := (compileRuntimeRoutes_each passes.legacy compiled).2 order site key source found
  exact ⟨order,draft order,made,draft,(siteRoute_shape shape source).symm.trans drafted,rfl⟩

end Compiled

section Names

theorem specificity_cases (name : List UInt8) :
    (name = ascii "*" ∧ runtimeHostSpecificity name = (0,0)) ∨
    (name ≠ ascii "*" ∧ ∃ suffix, wildcardSuffix name = some suffix ∧ runtimeHostSpecificity name = (1,suffix.length)) ∨
    (name ≠ ascii "*" ∧ wildcardSuffix name = none ∧ runtimeHostSpecificity name = (2,name.length)) := by
  unfold runtimeHostSpecificity
  by_cases all : name = ascii "*"
  · refine .inl ⟨all,?_⟩
    rw [if_pos (beq_iff_eq.mpr all)]
  · rw [if_neg fun same => all (beq_iff_eq.mp same)]
    cases wildcardSuffix name with
    | none => exact .inr (.inr ⟨all,rfl,rfl⟩)
    | some suffix => exact .inr (.inl ⟨all,suffix,rfl,rfl⟩)

theorem wildcardSuffix_eq {name suffix : List UInt8} (wildcard : wildcardSuffix name = some suffix) :
    name = ascii "*." ++ suffix := by
  unfold wildcardSuffix stripPrefix at wildcard
  split at wildcard
  · rename_i front
    cases wildcard
    obtain ⟨rest,rfl⟩ := List.isPrefixOf_iff_prefix.mp front
    rw [List.drop_left]
  · cases wildcard

/-- The host is under the domain of a wildcard. -/
def underDomain (suffix host : List UInt8) : Bool := (0x2e :: suffix).isSuffixOf host

theorem runtimeHostMatches_wildcard {name suffix host : List UInt8} (wildcard : wildcardSuffix name = some suffix) :
    runtimeHostMatches name host ↔ underDomain suffix host := by
  have named : name ≠ ascii "*" := by
    rintro rfl
    cases wildcard
  unfold runtimeHostMatches underDomain
  rw [if_neg fun same => named (beq_iff_eq.mp same),wildcard]
  dsimp only
  rw [Bool.and_eq_true,Bool.and_eq_true,decide_eq_true_eq,beq_iff_eq,List.isSuffixOf_iff_suffix,List.isSuffixOf_iff_suffix]
  constructor
  · rintro ⟨⟨longer,front,rfl⟩,dot⟩
    rw [List.length_append] at longer
    have last : front.length ≠ 0 := by omega
    rw [List.length_append,show front.length + suffix.length - suffix.length - 1 = front.length - 1 by omega,
      List.getElem?_append_left (by omega),← List.getLast?_eq_getElem?] at dot
    obtain ⟨before,rfl⟩ := List.getLast?_eq_some_iff.mp dot
    exact ⟨before,by rw [List.append_assoc]; rfl⟩
  · rintro ⟨front,rfl⟩
    refine ⟨⟨?_,front ++ [0x2e],by rw [List.append_assoc]; rfl⟩,?_⟩
    · rw [List.length_append,List.length_cons]
      omega
    · rw [List.length_append,List.length_cons,show front.length + (suffix.length + 1) - suffix.length - 1 = front.length by omega,
        List.getElem?_append_right (Nat.le_refl _),Nat.sub_self]
      rfl

theorem runtimeHostMatches_exact {name host : List UInt8} (named : name ≠ ascii "*") (exact : wildcardSuffix name = none) :
    runtimeHostMatches name host ↔ eqIgnoreAsciiCase name host := by
  unfold runtimeHostMatches
  rw [if_neg fun same => named (beq_iff_eq.mp same),exact]

theorem eqIgnoreAsciiCase_length {left right : List UInt8} (same : eqIgnoreAsciiCase left right) : left.length = right.length := by
  have mapped := congrArg List.length ((eqIgnoreAsciiCase_iff left right).mp same)
  rw [List.length_map,List.length_map] at mapped
  exact mapped

theorem matching_unique {left right host : List UInt8} (leftLower : left.map toAsciiLowercase = left)
    (rightLower : right.map toAsciiLowercase = right) (leftMatches : runtimeHostMatches left host)
    (rightMatches : runtimeHostMatches right host) (same : runtimeHostSpecificity left = runtimeHostSpecificity right) :
    left = right := by
  rcases specificity_cases left with ⟨leftAll,leftRank⟩ | ⟨leftNamed,suffix,leftWild,leftRank⟩ | ⟨leftNamed,leftExact,leftRank⟩
  · rcases specificity_cases right with ⟨rightAll,-⟩ | ⟨-,other,-,rightRank⟩ | ⟨-,-,rightRank⟩
    · rw [leftAll,rightAll]
    · rw [leftRank,rightRank] at same
      cases (Prod.mk.inj same).1
    · rw [leftRank,rightRank] at same
      cases (Prod.mk.inj same).1
  · rcases specificity_cases right with ⟨-,rightRank⟩ | ⟨-,other,rightWild,rightRank⟩ | ⟨-,-,rightRank⟩
    · rw [leftRank,rightRank] at same
      cases (Prod.mk.inj same).1
    · rw [leftRank,rightRank] at same
      rw [runtimeHostMatches_wildcard leftWild,underDomain,List.isSuffixOf_iff_suffix] at leftMatches
      rw [runtimeHostMatches_wildcard rightWild,underDomain,List.isSuffixOf_iff_suffix] at rightMatches
      have sized : (0x2e :: suffix).length = (0x2e :: other).length := congrArg (· + 1) (Prod.mk.inj same).2
      have suffixes := (List.suffix_of_suffix_length_le leftMatches rightMatches (Nat.le_of_eq sized)).eq_of_length sized
      rw [wildcardSuffix_eq leftWild,wildcardSuffix_eq rightWild,(List.cons.inj suffixes).2]
    · rw [leftRank,rightRank] at same
      cases (Prod.mk.inj same).1
  · rcases specificity_cases right with ⟨-,rightRank⟩ | ⟨-,other,-,rightRank⟩ | ⟨rightNamed,rightExact,-⟩
    · rw [leftRank,rightRank] at same
      cases (Prod.mk.inj same).1
    · rw [leftRank,rightRank] at same
      cases (Prod.mk.inj same).1
    · rw [runtimeHostMatches_exact leftNamed leftExact,eqIgnoreAsciiCase_iff] at leftMatches
      rw [runtimeHostMatches_exact rightNamed rightExact,eqIgnoreAsciiCase_iff] at rightMatches
      rw [← leftLower,← rightLower,leftMatches,rightMatches]

end Names

section Choice

/-- The names of the servers, with the place of the server of each. -/
def placedNames (servers : List ServerSpec) : List (Nat × List UInt8) :=
  servers.zipIdx.flatMap fun (server,index) => server.names.map (index,·)

def exactMatches (host name : List UInt8) : Bool :=
  name != ascii "*" && (wildcardSuffix name).isNone && eqIgnoreAsciiCase name host

def underWildcard (host name : List UInt8) : Bool := (wildcardSuffix name).any (underDomain · host)

/-- The default server: the one that says so, else the first. -/
def nginxDefault (servers : List ServerSpec) : Nat := (servers.findIdx? fun server => server.listens.any (·.isDefault)).getD 0

/-- The server that Nginx chooses for a host, and the name it chooses it by: the exact name, else the longest wildcard, else
any name for the default server. -/
def nginxChoice (servers : List ServerSpec) (host : List UInt8) : Nat × List UInt8 :=
  (((placedNames servers).find? fun entry => exactMatches host entry.2).or
    (((placedNames servers).filter fun entry => underWildcard host entry.2).argmax fun entry => entry.2.length)).getD
      (nginxDefault servers,ascii "*")

theorem nginxChoice_headlines (servers : List ServerSpec) (host : List UInt8) :
    nginxChoice (servers.map headline) host = nginxChoice servers host := by
  have names : placedNames (servers.map headline) = placedNames servers := by
    rw [placedNames,placedNames,List.zipIdx_map,List.flatMap_map]
    rfl
  have default : nginxDefault (servers.map headline) = nginxDefault servers := by
    rw [nginxDefault,nginxDefault,List.findIdx?_map]
    rfl
  rw [nginxChoice,nginxChoice,names,default]

theorem answers_name {owners : Owners} {servers : List ServerSpec} {index : Nat} {server : ServerSpec} {key scheme : List UInt8}
    (answers : Answers owners servers index server key scheme) : key = ascii "*" ∨ (index,key) ∈ placedNames servers := by
  obtain ⟨placed,schemes,scope,-⟩ := answers
  unfold keyScopes at scope
  rcases List.mem_append.mp scope with named | any
  · obtain ⟨name,member,same⟩ := List.mem_map.mp named
    cases same
    exact .inr (List.mem_flatMap.mpr ⟨(server,index),List.mem_zipIdx_iff_getElem?.mpr placed,List.mem_map.mpr ⟨key,member,rfl⟩⟩)
  · split at any
    · cases any
    · cases List.mem_singleton.mp any
      exact .inl rfl

theorem nginxChoice_best {owners : Owners} {servers : List ServerSpec} {index : Nat} {server : ServerSpec}
    {key scheme host : List UInt8} (answers : Answers owners servers index server key scheme)
    (matching : runtimeHostMatches key host) :
    ¬ moreSpecific (runtimeHostSpecificity key) (runtimeHostSpecificity (nginxChoice servers host).2) := by
  rw [moreSpecific_iff]
  unfold nginxChoice
  cases exact : (placedNames servers).find? fun entry => exactMatches host entry.2 with
  | some entry =>
    have held := List.find?_some exact
    unfold exactMatches at held
    rw [Bool.and_eq_true,Bool.and_eq_true,bne_iff_ne,Option.isNone_iff_eq_none] at held
    have sized := eqIgnoreAsciiCase_length held.2
    have rank : runtimeHostSpecificity entry.2 = (2,entry.2.length) := by
      rcases specificity_cases entry.2 with ⟨all,-⟩ | ⟨-,suffix,wild,-⟩ | ⟨-,-,rank⟩
      · exact absurd all held.1.1
      · rw [held.1.2] at wild
        cases wild
      · exact rank
    rw [Option.some_or,Option.getD_some,rank]
    rcases specificity_cases key with ⟨-,low⟩ | ⟨-,suffix,-,low⟩ | ⟨named,plain,low⟩
    · rw [low]
      dsimp only
      omega
    · rw [low]
      dsimp only
      omega
    · rw [runtimeHostMatches_exact named plain] at matching
      have length := eqIgnoreAsciiCase_length matching
      rw [low]
      dsimp only
      omega
  | none =>
    rw [Option.none_or]
    have noExact (named : key ≠ ascii "*") (plain : wildcardSuffix key = none) : False := by
      rcases answers_name answers with all | placed
      · exact named all
      · have missed := List.find?_eq_none.mp exact (index,key) placed
        rw [runtimeHostMatches_exact named plain] at matching
        unfold exactMatches at missed
        rw [plain,matching,bne_iff_ne.mpr named] at missed
        exact missed rfl
    have wildcard {suffix : List UInt8} (named : key ≠ ascii "*") (wild : wildcardSuffix key = some suffix) :
        (index,key) ∈ (placedNames servers).filter fun entry => underWildcard host entry.2 := by
      rcases answers_name answers with all | placed
      · exact absurd all named
      · rw [runtimeHostMatches_wildcard wild] at matching
        refine List.mem_filter.mpr ⟨placed,?_⟩
        rw [underWildcard,wild]
        exact matching
    cases longest : ((placedNames servers).filter fun entry => underWildcard host entry.2).argmax fun entry => entry.2.length with
    | some entry =>
      have held := (List.mem_filter.mp (List.argmax_mem longest)).2
      unfold underWildcard at held
      rw [Option.getD_some]
      rcases specificity_cases entry.2 with ⟨all,-⟩ | ⟨-,suffix,wild,rank⟩ | ⟨-,plain,-⟩
      · rw [all] at held
        cases held
      · rw [rank]
        rcases specificity_cases key with ⟨-,low⟩ | ⟨named,other,otherWild,low⟩ | ⟨named,plain,-⟩
        · rw [low]
          dsimp only
          omega
        · have bound := List.le_of_mem_argmax (wildcard named otherWild) longest
          rw [wildcardSuffix_eq otherWild,wildcardSuffix_eq wild,List.length_append,List.length_append] at bound
          rw [low]
          dsimp only
          omega
        · exact (noExact named plain).elim
      · rw [plain] at held
        cases held
    | none =>
      have empty := List.argmax_eq_none.mp longest
      rw [Option.getD_none]
      rcases specificity_cases key with ⟨-,low⟩ | ⟨named,suffix,wild,-⟩ | ⟨named,plain,-⟩
      · rw [low]
        dsimp only
        omega
      · have inside := wildcard named wild
        rw [empty] at inside
        cases inside
      · exact (noExact named plain).elim

end Choice

section Requests

/-- What the selection reads of a request. -/
structure Asked where
  authority : EffectiveAuthority
  target : NormalizedTarget
  method : List UInt8
  scheme : List UInt8

/-- The route is for the path and the method of the request. -/
def Fits (source : ActionRouteConfig) (asked : Asked) : Prop :=
  (match source.matchKind with
    | .exact => asked.target.routingPath = source.path
    | .pathPrefix => source.path <+: asked.target.routingPath
    | .boundaryPrefix => source.path = ascii "/" ∨ asked.target.routingPath = source.path ∨
        source.path ++ ascii "/" <+: asked.target.routingPath) ∧
  (source.methods = [] ∨ asked.method ∈ source.methods.map (·.map toAsciiLowercase))

/-- The server has a route for the request under the name. -/
def Serves (owners : Owners) (servers : List ServerSpec) (index : Nat) (key : List UInt8) (asked : Asked) : Prop :=
  ∃ server, Answers owners servers index server key asked.scheme ∧ runtimeHostMatches key asked.authority.host ∧
    ∃ source ∈ effectiveRoutes server key, Fits source asked

theorem runtimePathMatches_iff {canonicalize : List UInt8 → Option (List UInt8)} {key : List UInt8} {source : ActionRouteConfig}
    {order : Nat} {route : RuntimeRoute} (keeps : @Keeps canonicalize key source order route) (path : List UInt8) :
    runtimePathMatches route path ↔
      match source.matchKind with
      | .exact => path = source.path
      | .pathPrefix => source.path <+: path
      | .boundaryPrefix => source.path = ascii "/" ∨ path = source.path ∨ source.path ++ ascii "/" <+: path := by
  unfold runtimePathMatches
  rw [keeps.matchKind,keeps.path]
  cases source.matchKind with
  | exact => exact beq_iff_eq
  | pathPrefix => exact List.isPrefixOf_iff_prefix
  | boundaryPrefix =>
    dsimp only
    rw [Bool.or_eq_true,Bool.or_eq_true,beq_iff_eq,beq_iff_eq,or_assoc]
    refine or_congr Iff.rfl (or_congr Iff.rfl ?_)
    unfold stripPrefix startsWith
    split
    · rename_i front
      obtain ⟨rest,rfl⟩ := List.isPrefixOf_iff_prefix.mp front
      rw [Option.any_some,List.drop_left,beq_iff_eq,List.prefix_append_right_inj]
      cases rest with
      | nil => exact ⟨fun impossible => (by cases impossible),fun ⟨_,impossible⟩ => (by cases impossible)⟩
      | cons byte rest =>
        constructor
        · intro same
          cases Option.some.inj same
          exact ⟨rest,rfl⟩
        · rintro ⟨others,same⟩
          rw [← (List.cons.inj same).1]
          rfl
    · rename_i apart
      refine ⟨fun impossible => (by cases impossible),fun ⟨rest,whole⟩ => ?_⟩
      exact absurd (List.isPrefixOf_iff_prefix.mpr ⟨ascii "/" ++ rest,by rw [← List.append_assoc]; exact whole⟩) apart

theorem scheme_known {listens : List ListenSpec} {scheme : List UInt8} (member : scheme ∈ schemesOf listens) :
    scheme = ascii "http" ∨ scheme = ascii "https" := by
  unfold schemesOf Ordered.ordered at member
  rw [Ordered.foldl_insert] at member
  rcases member with impossible | inside
  · cases impossible
  · obtain ⟨listen,-,rfl⟩ := List.mem_map.mp inside
    unfold ListenSpec.scheme
    split
    · exact .inr rfl
    · exact .inl rfl

theorem Answers.scheme_lower {owners : Owners} {servers : List ServerSpec} {index : Nat} {server : ServerSpec}
    {key scheme : List UInt8} (answers : Answers owners servers index server key scheme) :
    scheme.map toAsciiLowercase = scheme := by
  obtain ⟨-,schemes,scope,offered⟩ := answers
  have known : scheme = ascii "http" ∨ scheme = ascii "https" := by
    unfold keyScopes at scope
    rcases List.mem_append.mp scope with named | any
    · obtain ⟨name,-,same⟩ := List.mem_map.mp named
      cases same
      exact scheme_known offered
    · split at any
      · cases any
      · cases List.mem_singleton.mp any
        exact scheme_known offered
  rcases known with rfl | rfl
  · rfl
  · rfl

theorem eligible_iff {canonicalize : List UInt8 → Option (List UInt8)} {limits : ConfiguredLimits} {owners : Owners}
    {servers : List ServerSpec} {index : Nat} {server : ServerSpec} {key scheme : List UInt8} {source : ActionRouteConfig}
    {order : Nat} {route : RuntimeRoute} (answers : Answers owners servers index server key scheme)
    (member : source ∈ scopedRoutes server key scheme) (compiled : CompiledAs canonicalize limits key source order route)
    (asked : Asked) : runtimeRouteEligible asked.authority asked.target asked.method asked.scheme route ↔
      runtimeHostMatches key asked.authority.host ∧ Fits source asked ∧ asked.scheme = scheme := by
  have keeps := compiled.keeps
  obtain ⟨plain,-,scoped'⟩ := List.mem_map.mp member
  have schemes : source.schemes = [scheme] := by
    rw [← scoped']
    rfl
  unfold runtimeRouteEligible Fits
  rw [Bool.and_eq_true,Bool.and_eq_true,Bool.and_eq_true,runtimePathMatches_iff keeps,keeps.host,keeps.methods,keeps.schemes,schemes,
    List.map_singleton,answers.scheme_lower,Bool.or_eq_true,Bool.or_eq_true,List.isEmpty_iff,List.map_eq_nil_iff,
    List.contains_iff_mem,List.contains_iff_mem,List.mem_singleton]
  constructor
  · rintro ⟨⟨⟨host,path⟩,methods⟩,empty | same⟩
    · cases empty
    · exact ⟨host,⟨path,methods⟩,same⟩
  · rintro ⟨host,⟨path,methods⟩,same⟩
    exact ⟨⟨⟨host,path⟩,methods⟩,.inr same⟩

end Requests

section Preserved

/-- The servers that answer where no name does, by address. -/
def treeOwners (tree : List Directive) : Owners := ((defaultOwners (writtenServers tree)).toOption).getD []

/-- The route is one of the server block at the place, under a name that the block answers to. -/
def GeneratedBy (canonicalize : List UInt8 → Option (List UInt8)) (limits : ConfiguredLimits) (tree : List Directive) (index : Nat)
    (route : RuntimeRoute) : Prop :=
  ∃ written server key scheme source order, Answers (treeOwners tree) (writtenServers tree) index written key scheme ∧
    (treeServers tree)[index]? = some server ∧ source ∈ scopedRoutes server key scheme ∧
      CompiledAs canonicalize limits key source order route

/-- A route that is selected is one of the server that Nginx chooses. -/
def HostKept (canonicalize : List UInt8 → Option (List UInt8)) (config : Config) (routes : List RuntimeRoute) (tree : List Directive)
    (asked : Asked) : Prop :=
  ∀ selected route, selectRouteFold routes asked.authority asked.target asked.method asked.scheme = some selected →
    routes[selected]? = some route →
      GeneratedBy canonicalize config.limits tree (nginxChoice (writtenServers tree) asked.authority.host).1 route

/-- The server that Nginx chooses has a route for the request under the name it is chosen by; or else, wherever a server has
one, it has one too, under a name that ranks no lower. -/
def ChosenServes (tree : List Directive) (asked : Asked) : Prop :=
  let chosen := nginxChoice (writtenServers tree) asked.authority.host
  Serves (treeOwners tree) (treeServers tree) chosen.1 chosen.2 asked ∨
    ∀ index key, Serves (treeOwners tree) (treeServers tree) index key asked →
      ∃ other, Serves (treeOwners tree) (treeServers tree) chosen.1 other asked ∧
        ¬ moreSpecific (runtimeHostSpecificity key) (runtimeHostSpecificity other)

variable {files : Files} {tree : List Directive} {config : Config} {http : Directive} {limit : Nat} {translation : Translation}
  {owners : Owners} {assembly : Assembly} {canonicalize : List UInt8 → Option (List UInt8)} {routes : List RuntimeRoute}

theorem Translated.treeOwners_eq (passes : Translated files tree config http limit translation owners assembly) :
    treeOwners tree = owners := by
  rw [treeOwners,← treeServers_headlines passes,defaultOwners_headlines,passes.owned]
  rfl

theorem Translated.answers_written (passes : Translated files tree config http limit translation owners assembly) {index : Nat}
    {server : ServerSpec} {key scheme : List UInt8} (answers : Answers owners (treeServers tree) index server key scheme) :
    Answers (treeOwners tree) (writtenServers tree) index (headline server) key scheme := by
  rw [passes.treeOwners_eq,← treeServers_headlines passes]
  exact answers.headlines

theorem Translated.answers_read (passes : Translated files tree config http limit translation owners assembly) {index : Nat}
    {server written : ServerSpec} (placed : (treeServers tree)[index]? = some server) {key scheme : List UInt8}
    (answers : Answers (treeOwners tree) (writtenServers tree) index written key scheme) :
    Answers owners (treeServers tree) index server key scheme := by
  rw [passes.treeOwners_eq,← treeServers_headlines passes] at answers
  exact answers.of_headlines placed

theorem Answers.key_lower {index : Nat} {server : ServerSpec} {key scheme : List UInt8}
    (passes : Translated files tree config http limit translation owners assembly)
    (answers : Answers owners (treeServers tree) index server key scheme) : key.map toAsciiLowercase = key := by
  obtain ⟨block,-,held⟩ := treeServers_of passes answers.1
  rcases answers_name answers with rfl | placed
  · rfl
  · obtain ⟨⟨other,at'⟩,there,listed⟩ := List.mem_flatMap.mp placed
    obtain ⟨name,member,same⟩ := List.mem_map.mp listed
    cases same
    cases Option.some.inj (answers.1.symm.trans (List.mem_zipIdx_iff_getElem?.mp there))
    exact held.lower _ member

theorem serves_eligible (passes : Translated files tree config http limit translation owners assembly)
    (compiled : compileRuntimeRoutes canonicalize config = some routes) {index : Nat} {key : List UInt8} {asked : Asked}
    (serves : Serves owners (treeServers tree) index key asked) : ∃ route ∈ routes, route.host = key ∧
      runtimeRouteEligible asked.authority asked.target asked.method asked.scheme route := by
  obtain ⟨server,answers,matching,source,effective,fits⟩ := serves
  have member : withSchemes [asked.scheme] source ∈ scopedRoutes server key asked.scheme := List.mem_map_of_mem effective
  obtain ⟨order,route,found,made⟩ := compiled_of passes compiled answers member
  exact ⟨route,List.mem_of_getElem? found,made.keeps.host,(eligible_iff answers member made asked).mpr ⟨matching,fits,rfl⟩⟩

theorem eligible_serves (passes : Translated files tree config http limit translation owners assembly)
    (compiled : compileRuntimeRoutes canonicalize config = some routes) {order : Nat} {route : RuntimeRoute} {asked : Asked}
    (found : routes[order]? = some route)
    (eligible : runtimeRouteEligible asked.authority asked.target asked.method asked.scheme route) :
    ∃ index server source, Answers owners (treeServers tree) index server route.host asked.scheme ∧
      source ∈ scopedRoutes server route.host asked.scheme ∧ CompiledAs canonicalize config.limits route.host source order route ∧
        Serves owners (treeServers tree) index route.host asked := by
  obtain ⟨index,server,key,scheme,source,answers,member,made⟩ := compiled_origin passes compiled found
  obtain ⟨matching,fits,same⟩ := (eligible_iff answers member made asked).mp eligible
  have host := made.keeps.host
  subst host
  subst same
  obtain ⟨plain,effective,rfl⟩ := List.mem_map.mp member
  exact ⟨index,server,_,answers,member,made,server,answers,matching,plain,effective,fits⟩

theorem not_supersedes_host {route other : RuntimeRoute} (best : ¬ supersedes other route) :
    ¬ moreSpecific (runtimeHostSpecificity other.host) (runtimeHostSpecificity route.host) := by
  rw [moreSpecific_iff]
  rw [supersedes_iff] at best
  omega

theorem same_specificity {left right : Nat × Nat} (leftBest : ¬ moreSpecific left right) (rightBest : ¬ moreSpecific right left) :
    left = right := by
  rw [moreSpecific_iff] at leftBest rightBest
  exact Prod.ext (by omega) (by omega)

theorem selected_generated (passes : Translated files tree config http limit translation owners assembly)
    (compiled : compileRuntimeRoutes canonicalize config = some routes) {selected : Nat} {route : RuntimeRoute} {asked : Asked}
    (chosen : selectRouteFold routes asked.authority asked.target asked.method asked.scheme = some selected)
    (found : routes[selected]? = some route) {index : Nat} {key : List UInt8} (serves : Serves owners (treeServers tree) index key asked)
    (high : ¬ moreSpecific (runtimeHostSpecificity route.host) (runtimeHostSpecificity key)) :
    GeneratedBy canonicalize config.limits tree index route := by
  obtain ⟨best,placed,eligible,highest⟩ := selectRouteFold_best chosen
  cases Option.some.inj (found.symm.trans placed)
  obtain ⟨origin,first,source,answers,member,made,-,-,matching,-⟩ := eligible_serves passes compiled found eligible
  obtain ⟨other,inside,host,able⟩ := serves_eligible passes compiled serves
  obtain ⟨server,answersToo,matchingToo,-⟩ := serves
  have low := not_supersedes_host (highest other inside able)
  rw [host] at low
  have same : key = route.host := matching_unique (answersToo.key_lower passes) (answers.key_lower passes) matchingToo matching
    (same_specificity low high)
  subst same
  refine ⟨headline server,server,route.host,asked.scheme,source,selected,passes.answers_written answersToo,answersToo.1,?_,made⟩
  · obtain ⟨leftPlaced,leftSchemes,leftScope,leftOffered⟩ := answersToo
    obtain ⟨rightPlaced,rightSchemes,rightScope,rightOffered⟩ := answers
    rw [passes.agrees leftPlaced rightPlaced leftScope leftOffered rightScope rightOffered]
    exact member

/-- The selection keeps to the server that Nginx chooses exactly when that server has a route for the request under the name
it is chosen by, or else one that ranks no lower than those of the other servers. -/
theorem virtual_hosts_preserved_iff (files : Files) (tree : List Directive) (config : Config)
    (translated : translate files tree = .ok config) (canonicalize : List UInt8 → Option (List UInt8)) (routes : List RuntimeRoute)
    (compiled : compileRuntimeRoutes canonicalize config = some routes) (asked : Asked) :
    HostKept canonicalize config routes tree asked ↔ ChosenServes tree asked := by
  obtain ⟨http,limit,translation,owners,assembly,passes⟩ := translate_passes translated
  unfold ChosenServes
  dsimp only
  rw [passes.treeOwners_eq]
  have choice : nginxChoice (writtenServers tree) asked.authority.host = nginxChoice (treeServers tree) asked.authority.host := by
    rw [← treeServers_headlines passes,nginxChoice_headlines]
  constructor
  · intro kept
    refine .inr fun index key serves => ?_
    obtain ⟨route,inside,host,able⟩ := serves_eligible passes compiled serves
    cases chosen : selectRouteFold routes asked.authority asked.target asked.method asked.scheme with
    | none => exact absurd able (selectRouteFold_none chosen route inside)
    | some selected =>
      obtain ⟨best,found,eligible,highest⟩ := selectRouteFold_best chosen
      obtain ⟨written,server,other,scheme,source,order,named,placed,member,made⟩ := kept selected best chosen found
      have answers := passes.answers_read placed named
      obtain ⟨matching,fits,same⟩ := (eligible_iff answers member made asked).mp eligible
      obtain ⟨plain,effective,rfl⟩ := List.mem_map.mp member
      refine ⟨other,⟨server,by rw [same]; exact answers,matching,plain,effective,fits⟩,?_⟩
      have low := not_supersedes_host (highest route inside able)
      rw [host,made.keeps.host] at low
      exact low
  · rintro (serves | dominated) selected route chosen found
    · obtain ⟨best,placed,eligible,-⟩ := selectRouteFold_best chosen
      cases Option.some.inj (found.symm.trans placed)
      obtain ⟨index,server,source,answers,-,-,-,-,matching,-⟩ := eligible_serves passes compiled found eligible
      refine selected_generated passes compiled chosen found serves ?_
      rw [choice]
      exact nginxChoice_best answers matching
    · obtain ⟨best,placed,eligible,-⟩ := selectRouteFold_best chosen
      cases Option.some.inj (found.symm.trans placed)
      obtain ⟨index,server,source,-,-,-,served⟩ := eligible_serves passes compiled found eligible
      obtain ⟨other,serves,high⟩ := dominated index route.host served
      exact selected_generated passes compiled chosen found serves high

/-- A default server for every path, and a named one for some. -/
def strayTree : List Directive :=
  [blockDirective "events" [] [],blockDirective "http" []
    [blockDirective "server" [] [leafDirective "listen" ["127.0.0.1:8080","default_server"],
        leafDirective "server_name" ["other.example.test"],
        blockDirective "location" ["/"] [leafDirective "return" ["200","fallback"]]],
      blockDirective "server" [] [leafDirective "listen" ["127.0.0.1:8080"],leafDirective "server_name" ["app.example.test"],
        blockDirective "location" ["/api"] [leafDirective "return" ["200","api"]]]]]

def askedFor (host path : String) : Asked := ⟨⟨ascii host,none⟩,⟨.origin,none,none,ascii path,ascii path⟩,ascii "get",ascii "http"⟩

/-- The host of the route that an imported tree selects for a request. -/
def selectedHost (tree : List Directive) (asked : Asked) : Option (List UInt8) := do
  let config ← (translate openFiles tree).toOption
  let routes ← compileRuntimeRoutes some config
  let selected ← selectRouteFold routes asked.authority asked.target asked.method asked.scheme
  (routes[selected]?).map (·.host)

theorem selectedHost_some {tree : List Directive} {asked : Asked} {host : List UInt8} (found : selectedHost tree asked = some host) :
    ∃ config routes selected route, translate openFiles tree = .ok config ∧ compileRuntimeRoutes some config = some routes ∧
      selectRouteFold routes asked.authority asked.target asked.method asked.scheme = some selected ∧
        routes[selected]? = some route ∧ route.host = host := by
  unfold selectedHost at found
  obtain ⟨config,translated,found⟩ := Option.bind_eq_some_iff.mp found
  obtain ⟨routes,compiled,found⟩ := Option.bind_eq_some_iff.mp found
  obtain ⟨selected,chosen,found⟩ := Option.bind_eq_some_iff.mp found
  obtain ⟨route,placed,named⟩ := Option.map_eq_some_iff.mp found
  refine ⟨config,routes,selected,route,?_,compiled,chosen,placed,named⟩
  cases result : translate openFiles tree with
  | error fault =>
    rw [result] at translated
    cases translated
  | ok made =>
    rw [result] at translated
    cases translated
    rfl

/-- A request for a path that the named server has stays with that server. -/
theorem virtual_hosts_preserved_api : ∃ config routes, translate openFiles strayTree = .ok config ∧
    compileRuntimeRoutes some config = some routes ∧
      nginxChoice (writtenServers strayTree) (ascii "app.example.test") = (1,ascii "app.example.test") ∧
      HostKept some config routes strayTree (askedFor "app.example.test" "/api") := by
  obtain ⟨config,routes,-,-,translated,compiled,-⟩ :=
    @selectedHost_some strayTree (askedFor "app.example.test" "/api") (ascii "app.example.test") (by decide +kernel)
  have choice : nginxChoice (writtenServers strayTree) (ascii "app.example.test") = (1,ascii "app.example.test") := by
    decide +kernel
  have facts : (treeServers strayTree)[1]?.map (fun server => (keyScopes (treeOwners strayTree) server 1,
      (effectiveRoutes server (ascii "app.example.test")).any fun source =>
        source.matchKind == .pathPrefix && source.path == ascii "/api" && source.methods.isEmpty)) =
        some ([(ascii "app.example.test",[ascii "http"])],true) := by decide +kernel
  obtain ⟨server,placed,read⟩ := Option.map_eq_some_iff.mp facts
  obtain ⟨scopes,sources⟩ := Prod.mk.inj read
  obtain ⟨source,effective,shape⟩ := List.any_eq_true.mp sources
  rw [Bool.and_eq_true,Bool.and_eq_true,beq_iff_eq,beq_iff_eq,List.isEmpty_iff] at shape
  refine ⟨config,routes,translated,compiled,choice,(virtual_hosts_preserved_iff openFiles strayTree config translated some routes
    compiled (askedFor "app.example.test" "/api")).mpr (.inl ?_)⟩
  rw [show (askedFor "app.example.test" "/api").authority.host = ascii "app.example.test" from rfl,choice]
  refine ⟨server,⟨placed,[ascii "http"],?_,List.mem_singleton.mpr rfl⟩,by decide,source,effective,?_,.inl shape.2⟩
  · rw [scopes]
    exact List.mem_singleton.mpr rfl
  · rw [shape.1.1,shape.1.2]
    exact List.prefix_rfl

/-- A request for a path that the named server does not have goes to the default server. -/
theorem virtual_host_strays : ∃ config routes, translate openFiles strayTree = .ok config ∧
    compileRuntimeRoutes some config = some routes ∧
      ¬ HostKept some config routes strayTree (askedFor "app.example.test" "/admin") := by
  obtain ⟨config,routes,selected,route,translated,compiled,chosen,found,host⟩ :=
    @selectedHost_some strayTree (askedFor "app.example.test" "/admin") (ascii "*") (by decide +kernel)
  refine ⟨config,routes,translated,compiled,fun kept => ?_⟩
  obtain ⟨server,_,key,scheme,source,order,⟨placed,schemes,scope,-⟩,-,-,made⟩ := kept selected route chosen found
  have answers : (writtenServers strayTree)[(nginxChoice (writtenServers strayTree)
      (askedFor "app.example.test" "/admin").authority.host).1]?.map (fun server => (keyScopes (treeOwners strayTree) server
        (nginxChoice (writtenServers strayTree) (askedFor "app.example.test" "/admin").authority.host).1).map (·.1)) =
      some [ascii "app.example.test"] := by decide +kernel
  rw [placed,Option.map_some] at answers
  have listed : key ∈ (keyScopes (treeOwners strayTree) server
      (nginxChoice (writtenServers strayTree) (askedFor "app.example.test" "/admin").authority.host).1).map (·.1) :=
    List.mem_map.mpr ⟨(key,schemes),scope,rfl⟩
  rw [Option.some.inj answers,← made.keeps.host,host] at listed
  exact absurd (List.mem_singleton.mp listed) (by decide)

end Preserved

end Polyguard.Nginx
