import Polyguard.Nginx.Translator
import Polyguard.Proxy.LegacyRoutes

/-! The sites that a translation assembles out of its servers.
Under each name and scheme stand the routes of the first server that has both, and any
other server with both has the same ones. A site holds the routes of its name, and a
retained one its sites' routes as the validation has accepted them. -/
namespace Polyguard.Nginx
open Ascii Slices Decimal Proxy

/-- A fold of fallible steps, each of which adds what its item gives to what an invariant knows. -/
theorem foldlM_gathers {ε σ α γ : Type} {step : σ → α → Except ε σ} (gives : α → List γ) (inv : List γ → σ → Prop)
    (steps : ∀ given state item after, inv given state → step state item = .ok after → inv (given ++ gives item) after)
    (items : List α) : ∀ {given state after}, inv given state → items.foldlM step state = .ok after →
      inv (given ++ items.flatMap gives) after := by
  induction items with
  | nil =>
    intro given state after holds ran
    cases ran
    rw [List.flatMap_nil,List.append_nil]
    exact holds
  | cons item items ih =>
    intro given state after holds ran
    rw [List.foldlM_cons] at ran
    cases begun : step state item with
    | error fault =>
      rw [begun] at ran
      cases ran
    | ok middle =>
      rw [begun] at ran
      rw [List.flatMap_cons,← List.append_assoc]
      exact ih (steps given state item middle holds begun) ran

/-- A name, a scheme and the routes of a server under both. -/
structure Given where
  key : List UInt8
  scheme : List UInt8
  routes : List ActionRouteConfig

def givenScope (server : ServerSpec) (scope : List UInt8 × List (List UInt8)) : List Given :=
  scope.2.map fun scheme => ⟨scope.1,scheme,scopedRoutes server scope.1 scheme⟩

def givenServer (owners : Owners) (entry : ServerSpec × Nat) : List Given :=
  (keyScopes owners entry.1 entry.2).flatMap (givenScope entry.1)

/-- The sites and the assignments after some names, schemes and routes were given. -/
structure Assembled (given : List Given) (assembly : Assembly) : Prop where
  assigned : ∀ item ∈ given, Ledger.find (item.key,item.scheme) assembly.assignments = some item.routes
  origin : ∀ key scheme routes, Ledger.find (key,scheme) assembly.assignments = some routes → ⟨key,scheme,routes⟩ ∈ given
  distinct : (assembly.sites.map Prod.fst).Nodup
  shape : ∀ key site, Ledger.find key assembly.sites = some site → ({ site with routes := [] } : SiteConfig) = newSite key
  holds : ∀ key site, Ledger.find key assembly.sites = some site → ∀ route, route ∈ site.routes ↔
    ∃ scheme routes, Ledger.find (key,scheme) assembly.assignments = some routes ∧ route ∈ routes
  opened : ∀ key scheme routes, Ledger.find (key,scheme) assembly.assignments = some routes →
    (Ledger.find key assembly.sites).isSome
  ordered : ∀ key site, Ledger.find key assembly.sites = some site → ∀ scheme,
    site.routes.filter (·.schemes == [scheme]) = (Ledger.find (key,scheme) assembly.assignments).getD []

theorem scopedRoutes_filter (server : ServerSpec) (key scheme : List UInt8) :
    (scopedRoutes server key scheme).filter (·.schemes == [scheme]) = scopedRoutes server key scheme := by
  rw [List.filter_eq_self]
  intro route member
  obtain ⟨_,-,rfl⟩ := List.mem_map.mp member
  exact beq_self_eq_true _

theorem scopedRoutes_filter_other (server : ServerSpec) (key : List UInt8) {scheme other : List UInt8} (differ : other ≠ scheme) :
    (scopedRoutes server key scheme).filter (·.schemes == [other]) = [] := by
  rw [List.filter_eq_nil_iff]
  intro route member
  obtain ⟨_,-,rfl⟩ := List.mem_map.mp member
  rw [beq_iff_eq]
  intro same
  exact differ (List.cons.inj same).1.symm

variable {given : List Given} {assembly after : Assembly}

theorem openSite_found (key : List UInt8) (sites : List (List UInt8 × SiteConfig)) : (Ledger.find key (openSite key sites)).isSome := by
  unfold openSite
  split
  · assumption
  · rw [Ledger.find_opened]
    rfl

theorem openSite_assembled (invariant : Assembled given assembly) (key : List UInt8) :
    Assembled given { assembly with sites := openSite key assembly.sites } := by
  unfold openSite
  split
  · exact invariant
  · rename_i missing
    rw [Option.not_isSome_iff_eq_none] at missing
    have unassigned {scheme : List UInt8} {routes : List ActionRouteConfig}
        (found : Ledger.find (key,scheme) assembly.assignments = some routes) : False := by
      have opened := invariant.opened key scheme routes found
      rw [missing] at opened
      cases opened
    refine ⟨invariant.assigned,invariant.origin,?_,?_,?_,?_,?_⟩
    · rw [List.map_cons,List.nodup_cons]
      exact ⟨Ledger.find_none missing,invariant.distinct⟩
    · intro other site found
      by_cases same : other = key
      · subst same
        rw [Ledger.find_opened] at found
        cases found
        rfl
      · rw [Ledger.find_open same] at found
        exact invariant.shape other site found
    · intro other site found route
      by_cases same : other = key
      · subst same
        rw [Ledger.find_opened] at found
        cases found
        constructor
        · intro member
          cases member
        · rintro ⟨scheme,routes,assigned,-⟩
          exact (unassigned assigned).elim
      · rw [Ledger.find_open same] at found
        exact invariant.holds other site found route
    · intro other scheme routes found
      by_cases same : other = key
      · subst same
        exact (unassigned found).elim
      · dsimp only
        rw [Ledger.find_open same]
        exact invariant.opened other scheme routes found
    · intro other site found scheme
      by_cases same : other = key
      · subst same
        rw [Ledger.find_opened] at found
        cases found
        cases assigned : Ledger.find (other,scheme) assembly.assignments with
        | none => rfl
        | some routes => exact (unassigned assigned).elim
      · rw [Ledger.find_open same] at found
        exact invariant.ordered other site found scheme

theorem assignScheme_assembled {server : ServerSpec} {key scheme : List UInt8} (invariant : Assembled given assembly)
    (there : (Ledger.find key assembly.sites).isSome) (ran : assignScheme server key assembly scheme = .ok after) :
    Assembled (given ++ [⟨key,scheme,scopedRoutes server key scheme⟩]) after ∧ (Ledger.find key after.sites).isSome := by
  unfold assignScheme at ran
  dsimp only at ran
  cases held : Ledger.find (key,scheme) assembly.assignments with
  | some existing =>
    rw [held] at ran
    dsimp only at ran
    split at ran
    · cases ran
    · rename_i same
      cases ran
      rw [not_not] at same
      refine ⟨⟨?_,?_,invariant.distinct,invariant.shape,invariant.holds,invariant.opened,invariant.ordered⟩,there⟩
      · intro item member
        rcases List.mem_append.mp member with before | now
        · exact invariant.assigned item before
        · rw [List.mem_singleton.mp now,held,same]
      · intro other scheme' routes found
        exact List.mem_append_left _ (invariant.origin other scheme' routes found)
  | none =>
    rw [held] at ran
    cases ran
    obtain ⟨site,found⟩ := Option.isSome_iff_exists.mp there
    have extended : extendSite key (scopedRoutes server key scheme) assembly.sites =
        Ledger.replace key { site with routes := site.routes ++ scopedRoutes server key scheme } assembly.sites := by
      rw [extendSite,found]
    have fresh {other scheme' : List UInt8} {routes : List ActionRouteConfig}
        (assigned : Ledger.find (other,scheme') assembly.assignments = some routes) : (other,scheme') ≠ (key,scheme) := by
      rintro same
      rw [same,held] at assigned
      cases assigned
    have still {other scheme' : List UInt8} {routes : List ActionRouteConfig}
        (assigned : Ledger.find (other,scheme') assembly.assignments = some routes) :
        Ledger.find (other,scheme') (((key,scheme),scopedRoutes server key scheme) :: assembly.assignments) = some routes := by
      rw [Ledger.find_open (fresh assigned)]
      exact assigned
    have replaced : Ledger.find key (Ledger.replace key
        { site with routes := site.routes ++ scopedRoutes server key scheme } assembly.sites) =
          some { site with routes := site.routes ++ scopedRoutes server key scheme } := Ledger.find_replace found
    rw [extended]
    refine ⟨⟨?_,?_,?_,?_,?_,?_,?_⟩,by rw [replaced]; rfl⟩
    · intro item member
      rcases List.mem_append.mp member with before | now
      · exact still (invariant.assigned item before)
      · rw [List.mem_singleton.mp now]
        exact Ledger.find_opened
    · intro other scheme' routes assigned
      by_cases same : (other,scheme') = (key,scheme)
      · rw [same] at assigned
        rw [Ledger.find_opened] at assigned
        cases assigned
        cases same
        exact List.mem_append_right _ (List.mem_singleton.mpr rfl)
      · rw [Ledger.find_open same] at assigned
        exact List.mem_append_left _ (invariant.origin other scheme' routes assigned)
    · rw [Ledger.keys_replace]
      exact invariant.distinct
    · intro other site' there'
      by_cases same : other = key
      · subst same
        rw [replaced] at there'
        cases there'
        exact invariant.shape other site found
      · rw [Ledger.find_replace_other same] at there'
        exact invariant.shape other site' there'
    · intro other site' there' route
      by_cases same : other = key
      · subst same
        rw [replaced] at there'
        cases there'
        rw [List.mem_append,invariant.holds other site found route]
        constructor
        · rintro (⟨scheme',routes,assigned,member⟩ | member)
          · exact ⟨scheme',routes,still assigned,member⟩
          · exact ⟨scheme,_,Ledger.find_opened,member⟩
        · rintro ⟨scheme',routes,assigned,member⟩
          by_cases now : scheme' = scheme
          · subst now
            rw [Ledger.find_opened] at assigned
            cases assigned
            exact .inr member
          · rw [Ledger.find_open fun both => now (Prod.mk.inj both).2] at assigned
            exact .inl ⟨scheme',routes,assigned,member⟩
      · rw [Ledger.find_replace_other same] at there'
        rw [invariant.holds other site' there' route]
        constructor
        · rintro ⟨scheme',routes,assigned,member⟩
          exact ⟨scheme',routes,still assigned,member⟩
        · rintro ⟨scheme',routes,assigned,member⟩
          rw [Ledger.find_open fun both => same (Prod.mk.inj both).1] at assigned
          exact ⟨scheme',routes,assigned,member⟩
    · intro other scheme' routes assigned
      by_cases same : other = key
      · subst same
        rw [replaced]
        rfl
      · dsimp only at assigned ⊢
        rw [Ledger.find_open fun both => same (Prod.mk.inj both).1] at assigned
        rw [Ledger.find_replace_other same]
        exact invariant.opened other scheme' routes assigned
    · intro other site' there' scheme'
      by_cases same : other = key
      · subst same
        rw [replaced] at there'
        cases there'
        have before := invariant.ordered other site found scheme'
        dsimp only
        rw [List.filter_append,before]
        by_cases now : scheme' = scheme
        · subst now
          rw [held,Ledger.find_opened,scopedRoutes_filter]
          rfl
        · rw [Ledger.find_open fun both => now (Prod.mk.inj both).2,scopedRoutes_filter_other server other now,List.append_nil]
      · rw [Ledger.find_replace_other same] at there'
        rw [Ledger.find_open fun both => same (Prod.mk.inj both).1]
        exact invariant.ordered other site' there' scheme'

theorem assignKey_assembled {server : ServerSpec} {scope : List UInt8 × List (List UInt8)} (invariant : Assembled given assembly)
    (ran : assignKey server assembly scope = .ok after) : Assembled (given ++ givenScope server scope) after := by
  obtain ⟨key,schemes⟩ := scope
  have steps (known : List Given) (state : Assembly) (scheme : List UInt8) (next : Assembly)
      (holds : Assembled known state ∧ (Ledger.find key state.sites).isSome)
      (ran : assignScheme server key state scheme = .ok next) :
      Assembled (known ++ [⟨key,scheme,scopedRoutes server key scheme⟩]) next ∧ (Ledger.find key next.sites).isSome :=
    assignScheme_assembled holds.1 holds.2 ran
  have whole := foldlM_gathers _ (fun known state => Assembled known state ∧ (Ledger.find key state.sites).isSome) steps schemes
    ⟨openSite_assembled invariant key,openSite_found key assembly.sites⟩ ran
  rw [← List.map_eq_flatMap] at whole
  exact whole.1

theorem assembled {owners : Owners} {servers : List ServerSpec} (ran : assemble owners servers = .ok assembly) :
    Assembled (servers.zipIdx.flatMap (givenServer owners)) assembly := by
  have empty : Assembled [] ⟨[],[]⟩ := by
    refine ⟨?_,?_,List.nodup_nil,?_,?_,?_,?_⟩
    · intro item member
      cases member
    · intro key scheme routes found
      cases found
    · intro key site found
      cases found
    · intro key site found
      cases found
    · intro key scheme routes found
      cases found
    · intro key site found
      cases found
  have serverSteps (known : List Given) (state : Assembly) (entry : ServerSpec × Nat) (next : Assembly)
      (holds : Assembled known state) (ran : assignServer owners state entry = .ok next) :
      Assembled (known ++ givenServer owners entry) next :=
    foldlM_gathers _ Assembled (fun _ _ _ _ holds ran => assignKey_assembled holds ran) _ holds ran
  exact foldlM_gathers _ Assembled serverSteps servers.zipIdx empty ran

section Passes

/-- The servers that the translation of a tree reads. -/
def treeServers (tree : List Directive) : List ServerSpec :=
  match inherited tree (ascii "http") with
  | [http] => (parseServers http.children (httpMaxRequestBodyBytes http).toOption (inspectRoot ⟨[],[]⟩ tree)).1
  | _ => []

/-- What a translation that succeeds has gone through. -/
structure Translated (files : Files) (tree : List Directive) (config : Config) (http : Directive) (limit : Nat)
    (translation : Translation) (owners : Owners) (assembly : Assembly) : Prop where
  block : inherited tree (ascii "http") = [http]
  inspected : (inspectRoot ⟨[],[]⟩ tree).issues = []
  limited : httpMaxRequestBodyBytes http = .ok limit
  parsed : parseServers http.children (some limit) (inspectRoot ⟨[],[]⟩ tree) = (treeServers tree,translation)
  quiet : translation.issues = []
  owned : defaultOwners (treeServers tree) = .ok owners
  built : ∃ builds, listenerBuilds (treeServers tree) = .ok builds
  assembles : assemble owners (treeServers tree) = .ok assembly
  sites : config.sites = retainedSites assembly
  legacy : config.routes = []
  valid : validateConfig files.isDirectory config = .ok ()

theorem except_bind {ε α β : Type} {first : Except ε α} {next : α → Except ε β} {result : β}
    (ok : (first >>= next) = .ok result) : ∃ value, first = .ok value ∧ next value = .ok result := by
  cases first with
  | error fault => cases ok
  | ok value => exact ⟨value,rfl,ok⟩

theorem translate_passes {files : Files} {tree : List Directive} {config : Config} (ok : translate files tree = .ok config) :
    ∃ http limit translation owners assembly, Translated files tree config http limit translation owners assembly := by
  unfold translate at ok
  dsimp only at ok
  split at ok
  · cases ok
  · rename_i inspected
    rw [Bool.not_eq_true',Bool.not_eq_false,List.isEmpty_iff] at inspected
    split at ok
    · rename_i http block
      obtain ⟨compression,-,ok⟩ := except_bind ok
      obtain ⟨limit,limited,ok⟩ := except_bind ok
      have read : treeServers tree = (parseServers http.children (some limit) (inspectRoot ⟨[],[]⟩ tree)).1 := by
        rw [treeServers,block]
        dsimp only
        rw [limited]
        rfl
      split at ok
      · cases ok
      · rename_i quiet
        rw [Bool.not_eq_true',Bool.not_eq_false,List.isEmpty_iff] at quiet
        split at ok
        · cases ok
        · obtain ⟨made,assembles,ok⟩ := except_bind ok
          rw [← read] at assembles
          cases checked : validateConfigFiles files made with
          | error message =>
            rw [checked] at ok
            cases ok
          | ok done =>
            rw [checked] at ok
            cases ok
            obtain ⟨owners,owned,assembles⟩ := except_bind assembles
            obtain ⟨builds,built,assembles⟩ := except_bind assembles
            obtain ⟨assembly,gathered,assembles⟩ := except_bind assembles
            dsimp only at assembles
            split at assembles
            · cases assembles
            · split at assembles
              · cases assembles
              · cases assembles
                obtain ⟨_,valid,-⟩ := validation_bind checked
                exact ⟨http,limit,_,owners,assembly,block,inspected,limited,Prod.ext read.symm rfl,quiet,owned,⟨builds,built⟩,
                  gathered,rfl,rfl,valid⟩
    · cases ok

/-- What else a translation that succeeds has gone through: the listeners are built and the files of the configuration are valid. -/
structure Built (files : Files) (tree : List Directive) (config : Config) (translation : Translation) (builds : List ListenerBuild) :
    Prop where
  built : listenerBuilds (treeServers tree) = .ok builds
  listeners : ⟨config.listener.address,config.listener.tls⟩ :: config.listeners = builtListeners builds
  upstreams : config.upstreams = translatedUpstreams translation
  valid : validateConfigFiles files config = .ok ()

theorem translate_built {files : Files} {tree : List Directive} {config : Config} {http : Directive} {limit : Nat}
    {translation : Translation} {owners : Owners} {assembly : Assembly} (ok : translate files tree = .ok config)
    (passes : Translated files tree config http limit translation owners assembly) :
    ∃ builds, Built files tree config translation builds := by
  unfold translate at ok
  dsimp only at ok
  split at ok
  · cases ok
  · rw [passes.block] at ok
    dsimp only at ok
    obtain ⟨compression,-,ok⟩ := except_bind ok
    rw [passes.limited] at ok
    change (if _ then _ else _) = _ at ok
    rw [passes.parsed] at ok
    split at ok
    · cases ok
    · split at ok
      · cases ok
      · obtain ⟨made,assembles,ok⟩ := except_bind ok
        cases checked : validateConfigFiles files made with
        | error message =>
          rw [checked] at ok
          cases ok
        | ok done =>
          rw [checked] at ok
          cases ok
          obtain ⟨_,-,assembles⟩ := except_bind assembles
          obtain ⟨builds,built,assembles⟩ := except_bind assembles
          obtain ⟨_,-,assembles⟩ := except_bind assembles
          dsimp only at assembles
          split at assembles
          · cases assembles
          · split at assembles
            · cases assembles
            · rename_i primary others listed
              cases assembles
              exact ⟨builds,built,listed.symm,rfl,checked⟩

end Passes

section Accepted

theorem mem_retainedSites {assembly : Assembly} {site : SiteConfig} :
    site ∈ retainedSites assembly ↔ site.routes ≠ [] ∧ ∃ key, (key,site) ∈ assembly.sites := by
  unfold retainedSites
  rw [List.mem_map]
  constructor
  · rintro ⟨⟨key,_⟩,member,rfl⟩
    rw [List.mem_insertionSort,List.mem_filter,Bool.not_eq_true',Bool.eq_false_iff,ne_eq,List.isEmpty_iff] at member
    exact ⟨member.2,key,member.1⟩
  · rintro ⟨some,key,member⟩
    refine ⟨(key,site),?_,rfl⟩
    rw [List.mem_insertionSort,List.mem_filter,Bool.not_eq_true',Bool.eq_false_iff,ne_eq,List.isEmpty_iff]
    exact ⟨member,some⟩

variable {files : Files} {tree : List Directive} {config : Config} {http : Directive} {limit : Nat} {translation : Translation}
  {owners : Owners} {assembly : Assembly}

/-- The routes of a server under a name and a scheme are routes of a site of the configuration. -/
theorem Translated.installs (passes : Translated files tree config http limit translation owners assembly) {server : ServerSpec}
    {index : Nat} (placed : (treeServers tree)[index]? = some server) {key scheme : List UInt8} {schemes : List (List UInt8)}
    (scope : (key,schemes) ∈ keyScopes owners server index) (offered : scheme ∈ schemes) {route : ActionRouteConfig}
    (member : route ∈ scopedRoutes server key scheme) :
    ∃ site ∈ config.sites, { site with routes := [] } = newSite key ∧ route ∈ site.routes := by
  have invariant := assembled passes.assembles
  have given : (⟨key,scheme,scopedRoutes server key scheme⟩ : Given) ∈ (treeServers tree).zipIdx.flatMap (givenServer owners) := by
    refine List.mem_flatMap.mpr ⟨(server,index),List.mem_zipIdx_iff_getElem?.mpr placed,List.mem_flatMap.mpr ⟨(key,schemes),scope,?_⟩⟩
    exact List.mem_map.mpr ⟨scheme,offered,rfl⟩
  have assigned := invariant.assigned _ given
  obtain ⟨site,found⟩ := Option.isSome_iff_exists.mp (invariant.opened key scheme _ assigned)
  have inside := (invariant.holds key site found route).mpr ⟨scheme,_,assigned,member⟩
  refine ⟨site,?_,invariant.shape key site found,inside⟩
  rw [passes.sites,mem_retainedSites]
  exact ⟨List.ne_nil_of_mem inside,key,Ledger.find_mem found⟩

theorem Translated.originates (passes : Translated files tree config http limit translation owners assembly) {site : SiteConfig}
    (there : site ∈ config.sites) : ∃ key, { site with routes := [] } = newSite key ∧ ∀ route ∈ site.routes,
      ∃ server index schemes scheme, (treeServers tree)[index]? = some server ∧ (key,schemes) ∈ keyScopes owners server index ∧
        scheme ∈ schemes ∧ route ∈ scopedRoutes server key scheme := by
  have invariant := assembled passes.assembles
  rw [passes.sites,mem_retainedSites] at there
  obtain ⟨-,key,member⟩ := there
  have found := (Ledger.find_iff_mem invariant.distinct).mpr member
  refine ⟨key,invariant.shape key site found,fun route inside => ?_⟩
  obtain ⟨scheme,routes,assigned,held⟩ := (invariant.holds key site found route).mp inside
  obtain ⟨⟨server,index⟩,placed,origin⟩ := List.mem_flatMap.mp (invariant.origin key scheme routes assigned)
  obtain ⟨⟨named,schemes⟩,scope,given⟩ := List.mem_flatMap.mp origin
  obtain ⟨offered,member,same⟩ := List.mem_map.mp given
  cases same
  exact ⟨server,index,schemes,scheme,List.mem_zipIdx_iff_getElem?.mp placed,scope,member,held⟩

theorem Translated.agrees (passes : Translated files tree config http limit translation owners assembly)
    {left right : ServerSpec} {leftIndex rightIndex : Nat} (leftPlaced : (treeServers tree)[leftIndex]? = some left)
    (rightPlaced : (treeServers tree)[rightIndex]? = some right) {key scheme : List UInt8} {leftSchemes rightSchemes : List (List UInt8)}
    (leftScope : (key,leftSchemes) ∈ keyScopes owners left leftIndex) (leftOffered : scheme ∈ leftSchemes)
    (rightScope : (key,rightSchemes) ∈ keyScopes owners right rightIndex) (rightOffered : scheme ∈ rightSchemes) :
    scopedRoutes left key scheme = scopedRoutes right key scheme := by
  have invariant := assembled passes.assembles
  have given {server : ServerSpec} {index : Nat} (placed : (treeServers tree)[index]? = some server)
      {schemes : List (List UInt8)} (scope : (key,schemes) ∈ keyScopes owners server index) (offered : scheme ∈ schemes) :
      Ledger.find (key,scheme) assembly.assignments = some (scopedRoutes server key scheme) := by
    have inside : (⟨key,scheme,scopedRoutes server key scheme⟩ : Given) ∈
        (treeServers tree).zipIdx.flatMap (givenServer owners) :=
      List.mem_flatMap.mpr ⟨(server,index),List.mem_zipIdx_iff_getElem?.mpr placed,
        List.mem_flatMap.mpr ⟨(key,schemes),scope,List.mem_map.mpr ⟨scheme,offered,rfl⟩⟩⟩
    exact invariant.assigned _ inside
  exact Option.some.inj ((given leftPlaced leftScope leftOffered).symm.trans (given rightPlaced rightScope rightOffered))

end Accepted

end Polyguard.Nginx
