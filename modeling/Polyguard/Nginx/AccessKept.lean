import Polyguard.Nginx.Dispatch

/-! The access rules of a tree in the sites it is translated to.
Where a server block answers with its locations, the site of the name has one
unconditional route for each of them, and the route carries the rules of the block and
of its location. A rule that no route carries is not read as a network by anyone. -/
namespace Polyguard.Nginx
open Ascii Slices Decimal Proxy

section Rules

def NamesNetworks (rule : Directive) : Prop :=
  ∀ network ∈ rule.args, network = ascii "all" ∨ (IpNetwork.parse network).isSome

/-- A deny that a list of networks can hold: one argument, and that one is `all`, an address or a network. -/
def Representable (rule : Directive) : Prop := rule.args.length = 1 ∧ NamesNetworks rule

def rulesOf (block : Directive) : List Directive := denies block ++ (locationsOf block).flatMap denies

/-- The block answers to the name on the scheme with its locations: no return takes their place under the name. -/
structure Offers (tree : List Directive) (index : Nat) (block : Directive) (key scheme : List UInt8) : Prop where
  placed : (serverBlocks tree)[index]? = some block
  answers : Answers (treeOwners tree) (writtenServers tree) index (writtenServer block) key scheme
  goesOn : triedReturns key block = []

/-- The route is the one of the location, and it carries the rules of the block and of the location. -/
structure CarriesRules (block location : Directive) (route : ActionRouteConfig) : Prop where
  matched : locationMatch location = some (route.matchKind,route.path)
  carries : returnsOf location = [] → ∀ rule ∈ denies block ++ denies location, ∀ network ∈ denied rule, network ∈ route.deny

def unconditional (site : SiteConfig) (scheme : List UInt8) : List ActionRouteConfig :=
  site.routes.filter fun route => route.methods.isEmpty && route.schemes == [scheme]

/-- No access rule of the tree is lost: the routes of the configuration carry them, location by location, and each rule can be
represented. -/
structure AccessRulesKept (tree : List Directive) (config : Config) : Prop where
  carried : ∀ index block key scheme, Offers tree index block key scheme → locationsOf block ≠ [] →
    ∃ site ∈ config.sites, ({ site with routes := [] } : SiteConfig) = newSite key ∧
      List.Forall₂ (CarriesRules block) (locationsOf block) (unconditional site scheme)
  represented : ∀ block ∈ serverBlocks tree, ∀ rule ∈ rulesOf block, Representable rule

def RuleCarried (tree : List Directive) (index : Nat) (block rule : Directive) : Prop :=
  (∃ key scheme, Offers tree index block key scheme) ∧
    ∃ location ∈ locationsOf block, returnsOf location = [] ∧ rule ∈ denies block ++ denies location

/-- The rules of the servers have one argument, and those that no route carries name networks. -/
def RulesWritten (tree : List Directive) : Prop :=
  ∀ index block, (serverBlocks tree)[index]? = some block → (∀ rule ∈ denies block, rule.args.length = 1) ∧
    ∀ rule ∈ rulesOf block, ¬ RuleCarried tree index block rule → NamesNetworks rule

theorem effectiveRoutes_goesOn {server : ServerSpec} {key : List UInt8} (none : returnRoutes server key = []) :
    effectiveRoutes server key = server.locations := by
  obtain ⟨under,returns⟩ := List.append_eq_nil_iff.mp none
  unfold effectiveRoutes
  dsimp only
  rw [under,returns]
  rfl

theorem groups_carry {block : Directive} {limit : Option Nat} {started : Translation} {final : List (SocketAddr × List UInt8)}
    (single : ∀ rule ∈ denies block, rule.args.length = 1) (groups : List (Directive × List ActionRouteConfig))
    (located : ∀ group ∈ groups, Located (serverSnapshot block limit started).server final group.1 group.2)
    (inner : ∀ group ∈ groups, ∀ rule ∈ denies group.1, rule.args.length = 1) :
    List.Forall₂ (CarriesRules block) (groups.map Prod.fst) ((groups.flatMap Prod.snd).filter (·.methods.isEmpty)) := by
  induction groups with
  | nil => exact .nil
  | cons group groups ih =>
    obtain ⟨before,made,-⟩ := located group List.mem_cons_self
    have parsed : (parseLocation group.1 (serverSnapshot block limit started).server before).1 = some group.2 := by
      unfold outcome at made
      split at made
      · exact made
      · cases made
    obtain ⟨route,only,matched,denying⟩ := parseLocation_unconditional parsed
    rw [List.map_cons,List.flatMap_cons,List.filter_append,only]
    refine .cons ⟨matched,fun goesOn rule member network named => ?_⟩
      (ih (fun other inside => located other (List.mem_cons_of_mem _ inside)) fun other inside => inner other (List.mem_cons_of_mem _ inside))
    rw [denying goesOn,serverSnapshot_deny]
    rcases List.mem_append.mp member with outer | own
    · exact List.mem_append_left _ (mem_written outer (single rule outer) named)
    · exact List.mem_append_right _ (mem_written own (inner group List.mem_cons_self rule own) named)

theorem carriesRules_schemes {block location : Directive} {route : ActionRouteConfig} (schemes : List (List UInt8))
    (carries : CarriesRules block location route) : CarriesRules block location (withSchemes schemes route) :=
  ⟨carries.matched,carries.carries⟩

variable {files : Files} {tree : List Directive} {config : Config} {http : Directive} {limit : Nat} {translation : Translation}
  {owners : Owners} {assembly : Assembly}

theorem offers_carry (passes : Translated files tree config http limit translation owners assembly) {index : Nat} {block : Directive}
    {key scheme : List UInt8} (offers : Offers tree index block key scheme) (some : locationsOf block ≠ [])
    (single : ∀ rule ∈ denies block, rule.args.length = 1) :
    ∃ site ∈ config.sites, ({ site with routes := [] } : SiteConfig) = newSite key ∧
      List.Forall₂ (CarriesRules block) (locationsOf block) (unconditional site scheme) := by
  obtain ⟨before,quiet,read⟩ := translate_servers passes offers.placed
  have answers := passes.answers_read read offers.answers
  have held := parseServer_of block (.some limit) before
  obtain ⟨groups,firsts,located,placed⟩ := parseServer_groups quiet
  -- the routes under the name are those of the locations
  have scoped' : scopedRoutes (parseServer block (.some limit) before).server key scheme =
      (groups.flatMap Prod.snd).map (withSchemes [scheme]) := by
    have none := held.returnRoutes_eq key
    rw [offers.goesOn,List.map_nil] at none
    rw [scopedRoutes,effectiveRoutes_goesOn none,placed,List.map_map]
    rfl
  have carry := groups_carry single groups located fun group inside =>
    parseServer_single quiet group.1 (by rw [← firsts]; exact List.mem_map_of_mem inside)
  rw [firsts] at carry
  have filtered : ((groups.flatMap Prod.snd).map (withSchemes [scheme])).filter (·.methods.isEmpty) =
      ((groups.flatMap Prod.snd).filter (·.methods.isEmpty)).map (withSchemes [scheme]) := by
    rw [List.filter_map]
    rfl
  have whole : List.Forall₂ (CarriesRules block) (locationsOf block)
      (((groups.flatMap Prod.snd).map (withSchemes [scheme])).filter (·.methods.isEmpty)) := by
    rw [filtered,List.forall₂_map_right_iff]
    exact carry.imp fun _ _ => carriesRules_schemes [scheme]
  -- a location has a route, so the site of the name stays
  obtain ⟨source,member⟩ : ∃ source, source ∈ scopedRoutes (parseServer block (.some limit) before).server key scheme := by
    rw [scoped']
    obtain ⟨location,rest,listed⟩ := List.exists_cons_of_ne_nil some
    rw [listed] at whole
    obtain ⟨route,routes,-,-,same⟩ := List.forall₂_cons_left_iff.mp whole
    exact ⟨route,(List.mem_filter.mp (by rw [same]; exact List.mem_cons_self)).1⟩
  obtain ⟨-,schemes,scope,offered⟩ := answers
  obtain ⟨site,there,shape,-⟩ := passes.installs read scope offered member
  refine ⟨site,there,shape,?_⟩
  rw [unconditional,← List.filter_filter,passes.site_routes there shape ⟨read,schemes,scope,offered⟩,scoped']
  exact whole

theorem namesNetworks_of_parses {rule : Directive} (parses : ∀ network ∈ denied rule, (IpNetwork.parse network).isSome) :
    NamesNetworks rule := by
  intro network member
  by_cases all : network = ascii "all"
  · exact .inl all
  · refine .inr (parses network (List.mem_flatMap.mpr ⟨network,member,?_⟩))
    rw [if_neg (by rw [beq_iff_eq]; exact all)]
    exact List.mem_singleton.mpr rfl

theorem carried_names (passes : Translated files tree config http limit translation owners assembly) {index : Nat}
    {block rule : Directive} (single : ∀ rule ∈ denies block, rule.args.length = 1) (carried : RuleCarried tree index block rule) :
    NamesNetworks rule := by
  obtain ⟨⟨key,scheme,offers⟩,location,inside,goesOn,member⟩ := carried
  obtain ⟨site,there,-,carries⟩ := offers_carry passes offers (List.ne_nil_of_mem inside) single
  obtain ⟨place,within,rfl⟩ := List.mem_iff_getElem.mp inside
  have held := carries.get within (by rw [← carries.length_eq]; exact within)
  have listed := (List.mem_filter.mp (List.getElem_mem (l := unconditional site scheme)
    (by rw [← carries.length_eq]; exact within : place < (unconditional site scheme).length))).1
  refine namesNetworks_of_parses fun network named => ?_
  exact validateConfig_deny passes.valid site there _ listed network (held.carries goesOn rule member network named)

/-- A translation that succeeds has lost no access rule exactly when the rules of the servers have one argument and those
that no route carries name networks. -/
theorem access_rules_kept_iff (files : Files) (tree : List Directive) (config : Config)
    (translated : translate files tree = .ok config) : AccessRulesKept tree config ↔ RulesWritten tree := by
  obtain ⟨http,limit,translation,owners,assembly,passes⟩ := translate_passes translated
  constructor
  · intro kept index block placed
    have inside := List.mem_of_getElem? placed
    refine ⟨fun rule member => (kept.represented block inside rule (List.mem_append_left _ member)).1,fun rule member _ => ?_⟩
    exact (kept.represented block inside rule member).2
  · intro rulesWritten
    constructor
    · intro index block key scheme offers some
      exact offers_carry passes offers some (rulesWritten index block offers.placed).1
    · intro block inside rule member
      obtain ⟨index,placed⟩ := List.mem_iff_getElem?.mp inside
      obtain ⟨single,named⟩ := rulesWritten index block placed
      obtain ⟨before,quiet,-⟩ := translate_servers passes placed
      constructor
      · rcases List.mem_append.mp member with outer | inner
        · exact single rule outer
        · obtain ⟨location,located,held⟩ := List.mem_flatMap.mp inner
          exact parseServer_single quiet location located rule held
      · by_cases carried : RuleCarried tree index block rule
        · exact carried_names passes single carried
        · exact named rule member carried

/-- A server that denies one network: the routes of its site, and of the default one, deny it. -/
theorem access_rules_kept_one : ∃ config, translate openFiles (denyingTree ["192.0.2.1"]) = .ok config ∧
    config.sites.map (fun site => site.routes.map (·.deny)) = [[[ascii "192.0.2.1"]],[[ascii "192.0.2.1"]]] ∧
      AccessRulesKept (denyingTree ["192.0.2.1"]) config := by
  have denying : (translate openFiles (denyingTree ["192.0.2.1"])).toOption.map
      (fun config => config.sites.map fun site => site.routes.map (·.deny)) =
        some [[[ascii "192.0.2.1"]],[[ascii "192.0.2.1"]]] := by decide +kernel
  obtain ⟨config,translated⟩ := @translate_ok openFiles (denyingTree ["192.0.2.1"]) (by decide +kernel)
  rw [translated] at denying
  refine ⟨config,translated,Option.some.inj denying,(access_rules_kept_iff openFiles _ config translated).mpr ?_⟩
  intro index block placed
  have blocks : serverBlocks (denyingTree ["192.0.2.1"]) = [denyingServer ["192.0.2.1"]] := rfl
  have inside := List.mem_of_getElem? placed
  rw [blocks] at inside
  cases List.mem_singleton.mp inside
  have rules : denies (denyingServer ["192.0.2.1"]) = [leafDirective "deny" ["192.0.2.1"]] := rfl
  have every : rulesOf (denyingServer ["192.0.2.1"]) = [leafDirective "deny" ["192.0.2.1"]] := rfl
  rw [rules,every]
  constructor
  · intro rule member
    cases List.mem_singleton.mp member
    rfl
  · intro rule member _ network named
    cases List.mem_singleton.mp member
    cases List.mem_singleton.mp named
    exact .inr (by decide +kernel)

/-- A deny of two networks at the level of a server is accepted and lost. -/
theorem access_rules_lost : ∃ config, translate openFiles (denyingTree ["192.0.2.1","192.0.2.2"]) = .ok config ∧
    config.sites.map (fun site => site.routes.map (·.deny)) = [[[]],[[]]] ∧
      ¬ AccessRulesKept (denyingTree ["192.0.2.1","192.0.2.2"]) config := by
  have denying : (translate openFiles (denyingTree ["192.0.2.1","192.0.2.2"])).toOption.map
      (fun config => config.sites.map fun site => site.routes.map (·.deny)) = some [[[]],[[]]] := by decide +kernel
  obtain ⟨config,translated⟩ := @translate_ok openFiles (denyingTree ["192.0.2.1","192.0.2.2"]) (by decide +kernel)
  rw [translated] at denying
  refine ⟨config,translated,Option.some.inj denying,fun kept => ?_⟩
  have blocks : serverBlocks (denyingTree ["192.0.2.1","192.0.2.2"]) = [denyingServer ["192.0.2.1","192.0.2.2"]] := rfl
  have rules : rulesOf (denyingServer ["192.0.2.1","192.0.2.2"]) = [leafDirective "deny" ["192.0.2.1","192.0.2.2"]] := rfl
  have held := kept.represented (denyingServer ["192.0.2.1","192.0.2.2"]) (by rw [blocks]; exact List.mem_singleton.mpr rfl)
    (leafDirective "deny" ["192.0.2.1","192.0.2.2"]) (by rw [rules]; exact List.mem_singleton.mpr rfl)
  exact absurd held.1 (by decide)

end Rules

end Polyguard.Nginx
