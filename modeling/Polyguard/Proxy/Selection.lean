import Polyguard.Collections.Greatest
import Polyguard.Proxy.Routes
import Mathlib.Data.Prod.Lex

/-! The route that the loop over the compiled routes selects.
A route takes the place of another one when it stands higher in the order of hosts,
exactness, length of the path and declaration. The loop and the sort both find the eligible
route of the greatest rank. Compiled routes are the routes of the sites under their names,
declared in that order, so that no two share a rank. -/
namespace Polyguard.Proxy
open Ascii Slices Greatest

section Order

theorem moreSpecific_iff {left right : Nat × Nat} :
    moreSpecific left right ↔ right.1 < left.1 ∨ (left.1 = right.1 ∧ right.2 < left.2) := by
  unfold moreSpecific
  simp only [gt_iff_lt,Bool.or_eq_true,Bool.and_eq_true,decide_eq_true_eq,beq_iff_eq]

/-- Whether a route is exact, as a number. -/
def exactness (route : RuntimeRoute) : Nat := (route.matchKind == .exact).toNat

theorem supersedes_iff {route current : RuntimeRoute} : supersedes route current ↔
    (runtimeHostSpecificity current.host).1 < (runtimeHostSpecificity route.host).1 ∨
    ((runtimeHostSpecificity route.host).1 = (runtimeHostSpecificity current.host).1 ∧
      (runtimeHostSpecificity current.host).2 < (runtimeHostSpecificity route.host).2) ∨
    (runtimeHostSpecificity route.host = runtimeHostSpecificity current.host ∧
      (exactness current < exactness route ∨ (exactness route = exactness current ∧
        (current.path.length < route.path.length ∨ (route.path.length = current.path.length ∧
          route.declarationOrder < current.declarationOrder))))) := by
  unfold supersedes exactness
  dsimp only
  by_cases hosts : runtimeHostSpecificity route.host = runtimeHostSpecificity current.host
  · rw [if_neg (not_not.mpr hosts)]
    by_cases kinds : (route.matchKind == .exact) = (current.matchKind == .exact)
    · rw [if_neg (not_not.mpr kinds),kinds]
      by_cases lengths : route.path.length = current.path.length
      · rw [if_neg (not_not.mpr lengths),lengths,hosts]
        simp
      · rw [if_pos lengths,hosts]
        simp [lengths]
    · rw [if_pos kinds,hosts]
      cases left : route.matchKind == .exact with
      | true =>
        cases right : current.matchKind == .exact with
        | true =>
          rw [left,right] at kinds
          exact absurd rfl kinds
        | false => simp
      | false =>
        cases right : current.matchKind == .exact with
        | true => simp
        | false =>
          rw [left,right] at kinds
          exact absurd rfl kinds
  · rw [if_pos hosts,moreSpecific_iff]
    constructor
    · rintro (more | more)
      · exact .inl more
      · exact .inr (.inl more)
    · rintro (more | more | more)
      · exact .inl more
      · exact .inr more
      · exact absurd more.1 hosts

/-- The place of a route in the order: host, exactness, length of the path, and the earlier declaration. -/
def rank (route : RuntimeRoute) : (Nat ×ₗ Nat) ×ₗ Nat ×ₗ Nat ×ₗ Natᵒᵈ :=
  toLex (toLex (runtimeHostSpecificity route.host),toLex (exactness route,toLex (route.path.length,OrderDual.toDual route.declarationOrder)))

theorem supersedes_rank {route current : RuntimeRoute} : supersedes route current ↔ rank current < rank route := by
  rw [supersedes_iff]
  unfold rank
  simp only [toLex_inj,OrderDual.toDual_lt_toDual,Prod.Lex.lt_iff,ofLex_toLex]
  rw [or_assoc]
  simp only [eq_comm]

theorem moreSpecific_flip {left right : Nat × Nat} (differ : left ≠ right) : moreSpecific left right = !moreSpecific right left := by
  rw [Bool.eq_iff_iff,Bool.not_eq_true',Bool.eq_false_iff,ne_eq,moreSpecific_iff,moreSpecific_iff]
  rw [ne_eq,Prod.ext_iff] at differ
  omega

theorem precedes_supersedes (left right : RuntimeRoute × Nat) : precedes left right = !supersedes right.1 left.1 := by
  unfold precedes supersedes
  dsimp only
  by_cases hosts : runtimeHostSpecificity left.1.host = runtimeHostSpecificity right.1.host
  · rw [if_neg (not_not.mpr hosts),if_neg (not_not.mpr hosts.symm)]
    by_cases kinds : (left.1.matchKind == .exact) = (right.1.matchKind == .exact)
    · rw [if_neg (not_not.mpr kinds),if_neg (not_not.mpr kinds.symm)]
      by_cases lengths : left.1.path.length = right.1.path.length
      · rw [if_neg (not_not.mpr lengths),if_neg (not_not.mpr lengths.symm),← decide_not]
        exact decide_eq_decide.mpr Nat.not_lt.symm
      · rw [if_pos lengths,if_pos (Ne.symm lengths),← decide_not]
        exact decide_eq_decide.mpr (by omega)
    · rw [if_pos kinds,if_pos (Ne.symm kinds)]
      revert kinds
      cases left.1.matchKind == .exact <;> cases right.1.matchKind == .exact <;> simp
  · rw [if_pos hosts,if_pos (Ne.symm hosts),moreSpecific_flip hosts]

end Order

section Selections
variable {routes : List RuntimeRoute} {authority : EffectiveAuthority} {target : NormalizedTarget} {method scheme : List UInt8}

/-- A choice among the routes with their indices. -/
abbrev Selects (routes : List RuntimeRoute) (authority : EffectiveAuthority) (target : NormalizedTarget) (method scheme : List UInt8) :
    Option (RuntimeRoute × Nat) → Prop :=
  IsChoice (fun entry => runtimeRouteEligible authority target method scheme entry.1) (fun entry => rank entry.1) routes.zipIdx

theorem selectStep_keep : selectStep authority target method scheme =
    keep (fun entry => runtimeRouteEligible authority target method scheme entry.1) fun entry => rank entry.1 := by
  funext winner entry
  unfold selectStep keep
  by_cases eligible : runtimeRouteEligible authority target method scheme entry.1
  · rw [eligible,Bool.not_true,if_neg Bool.false_ne_true,if_pos eligible]
    cases winner with
    | none => rfl
    | some current => exact if_congr supersedes_rank rfl rfl
  · rw [Bool.eq_false_iff.mpr eligible,Bool.not_false,if_pos rfl,if_neg eligible]

theorem fold_selects : Selects routes authority target method scheme
    (routes.zipIdx.foldl (selectStep authority target method scheme) none) := by
  rw [selectStep_keep]
  exact fold_choice _

theorem precedes_rank : precedes = fun left right => decide (rank right.1 ≤ rank left.1) := by
  funext left right
  rw [precedes_supersedes,← @Bool.decide_eq_true (supersedes right.1 left.1) _,← decide_not]
  exact decide_eq_decide.mpr ((not_congr supersedes_rank).trans not_lt)

theorem sorted_selects : Selects routes authority target method scheme
    ((routes.zipIdx.filter fun entry => runtimeRouteEligible authority target method scheme entry.1).mergeSort precedes).head? := by
  rw [precedes_rank]
  exact sorted_choice _

theorem rank_order {first second : RuntimeRoute} (same : rank first = rank second) : first.declarationOrder = second.declarationOrder := by
  unfold rank at same
  simp only [toLex_inj,Prod.mk.injEq] at same
  exact OrderDual.toDual_inj.mp same.2.2.2

theorem ranks_apart (distinct : (routes.map (·.declarationOrder)).Nodup) : ∀ first ∈ routes.zipIdx, ∀ second ∈ routes.zipIdx,
    rank first.1 = rank second.1 → first = second := by
  rintro ⟨first,place⟩ member ⟨second,other⟩ member' same
  have found := List.mem_zipIdx_iff_getElem?.mp member
  have found' := List.mem_zipIdx_iff_getElem?.mp member'
  dsimp only at found found' same
  have orders : (routes.map (·.declarationOrder))[place]? = (routes.map (·.declarationOrder))[other]? := by
    rw [List.getElem?_map,List.getElem?_map,found,found']
    exact congrArg some (rank_order same)
  have inside : place < (routes.map (·.declarationOrder)).length := by
    rw [List.length_map]
    exact (List.getElem?_eq_some_iff.mp found).1
  obtain rfl := (List.getElem?_inj inside distinct).mp orders
  rw [found] at found'
  cases found'
  rfl

theorem selectRouteFold_best {index : Nat} (selected : selectRouteFold routes authority target method scheme = some index) :
    ∃ route, routes[index]? = some route ∧ runtimeRouteEligible authority target method scheme route ∧ ∀ other ∈ routes,
      runtimeRouteEligible authority target method scheme other → ¬ supersedes other route := by
  unfold selectRouteFold at selected
  have choice := @fold_selects routes authority target method scheme
  obtain ⟨⟨route,place⟩,result,rfl⟩ := Option.map_eq_some_iff.mp selected
  rw [result] at choice
  obtain ⟨inside,eligible,greatest⟩ := choice
  refine ⟨route,List.mem_zipIdx_iff_getElem?.mp inside,eligible,fun other member able above => ?_⟩
  obtain ⟨index,found⟩ := List.mem_iff_getElem?.mp member
  exact not_lt.mpr (greatest (other,index) (List.mem_zipIdx_iff_getElem?.mpr found) able) (supersedes_rank.mp above)

theorem selectRouteFold_none (nothing : selectRouteFold routes authority target method scheme = none) :
    ∀ route ∈ routes, ¬ runtimeRouteEligible authority target method scheme route := by
  unfold selectRouteFold at nothing
  have choice := @fold_selects routes authority target method scheme
  rw [Option.map_eq_none_iff.mp nothing] at choice
  intro route member
  obtain ⟨place,found⟩ := List.mem_iff_getElem?.mp member
  exact choice (route,place) (List.mem_zipIdx_iff_getElem?.mpr found)

theorem selections_agree (distinct : (routes.map (·.declarationOrder)).Nodup) :
    selectRouteFold routes authority target method scheme = selectRouteSorted routes authority target method scheme :=
  congrArg (Option.map fun entry : RuntimeRoute × Nat => entry.2) (choice_unique (ranks_apart distinct) fold_selects sorted_selects)

/-- What a selected index means: its route is eligible, and every other eligible route ranks below. -/
theorem selects_greatest (distinct : (routes.map (·.declarationOrder)).Nodup) {index : Nat}
    (selected : selectRouteFold routes authority target method scheme = some index) : ∃ route, routes[index]? = some route ∧
      runtimeRouteEligible authority target method scheme route ∧ ∀ other ∈ routes,
        runtimeRouteEligible authority target method scheme other → other ≠ route → rank other < rank route := by
  obtain ⟨route,found,eligible,best⟩ := selectRouteFold_best selected
  refine ⟨route,found,eligible,fun other member able differ => lt_of_le_of_ne ?_ fun same => differ ?_⟩
  · exact not_lt.mp fun above => best other member able (supersedes_rank.mpr above)
  · exact List.inj_on_of_nodup_map distinct member (List.mem_of_getElem? found) (rank_order same)

theorem selects_permuted {permuted : List RuntimeRoute} (permutation : permuted.Perm routes)
    (distinct : (routes.map (·.declarationOrder)).Nodup) :
    (selectRouteFold permuted authority target method scheme).bind (permuted[·]?) =
      (selectRouteFold routes authority target method scheme).bind (routes[·]?) := by
  have still : (permuted.map (·.declarationOrder)).Nodup := (permutation.map _).nodup_iff.mpr distinct
  cases left : selectRouteFold permuted authority target method scheme with
  | none =>
    cases right : selectRouteFold routes authority target method scheme with
    | none => rfl
    | some index =>
      obtain ⟨route,found,eligible,-⟩ := selects_greatest distinct right
      exact absurd eligible (selectRouteFold_none left route (permutation.mem_iff.mpr (List.mem_of_getElem? found)))
  | some place =>
    obtain ⟨chosen,placed,able,greatest⟩ := selects_greatest still left
    have inside := permutation.mem_iff.mp (List.mem_of_getElem? placed)
    cases right : selectRouteFold routes authority target method scheme with
    | none => exact absurd able (selectRouteFold_none right chosen inside)
    | some index =>
      obtain ⟨route,found,eligible,highest⟩ := selects_greatest distinct right
      have same : chosen = route := by
        by_contra differ
        exact lt_asymm (highest chosen inside able differ)
          (greatest route (permutation.mem_iff.mpr (List.mem_of_getElem? found)) eligible (Ne.symm differ))
      rw [Option.bind_some,Option.bind_some,placed,found,same]

/-- The two selections agree. They name a route exactly where one is eligible, and then the eligible
route of the greatest rank, wherever it stands in the table. -/
theorem route_selection_optimal (routes : List RuntimeRoute) (distinct : (routes.map (·.declarationOrder)).Nodup)
    (authority : EffectiveAuthority) (target : NormalizedTarget) (method scheme : List UInt8) :
    selectRouteFold routes authority target method scheme = selectRouteSorted routes authority target method scheme ∧
      (selectRouteFold routes authority target method scheme = none ↔
        ∀ route ∈ routes, ¬ runtimeRouteEligible authority target method scheme route) ∧
      (∀ index, selectRouteFold routes authority target method scheme = some index → ∃ route, routes[index]? = some route ∧
        runtimeRouteEligible authority target method scheme route ∧ ∀ other ∈ routes,
          runtimeRouteEligible authority target method scheme other → other ≠ route → rank other < rank route) ∧
      ∀ permuted : List RuntimeRoute, permuted.Perm routes →
        (selectRouteFold permuted authority target method scheme).bind (permuted[·]?) =
          (selectRouteFold routes authority target method scheme).bind (routes[·]?) := by
  refine ⟨selections_agree distinct,⟨selectRouteFold_none,fun refused => ?_⟩,fun index => selects_greatest distinct,
    fun permuted permutation => selects_permuted permutation distinct⟩
  rw [← Option.not_isSome_iff_eq_none,Option.isSome_iff_exists]
  rintro ⟨index,selected⟩
  obtain ⟨route,found,eligible,-⟩ := selectRouteFold_best selected
  exact refused route (List.mem_of_getElem? found) eligible

/-- A route for every host, and one for a host and a path. -/
def sampleTable : List RuntimeRoute :=
  [⟨actionId 0,ascii "*",ascii "/",.boundaryPrefix,[],[],0,[],[],[],.proxy (ascii "all") none none,0⟩,
    ⟨actionId 1,ascii "a.test",ascii "/x",.exact,[],[],0,[],[],[],.proxy (ascii "one") none none,1⟩]

theorem sampleTable_selection : (selectRouteFold sampleTable.reverse ⟨ascii "a.test",none⟩ ⟨.origin,none,none,ascii "/x",ascii "/x"⟩
    (ascii "get") (ascii "http")).bind (sampleTable.reverse[·]?) = sampleTable[1]? := by
  have selection := route_selection_optimal sampleTable (by decide) ⟨ascii "a.test",none⟩ ⟨.origin,none,none,ascii "/x",ascii "/x"⟩
    (ascii "get") (ascii "http")
  rw [selection.2.2.2 sampleTable.reverse sampleTable.reverse_perm]
  decide +kernel

end Selections

section Compiled

theorem mapM_each {α β : Type} {f : α → Option β} {items : List α} : ∀ {results : List β}, items.mapM f = some results →
    results.length = items.length ∧ ∀ (index : Nat) (item : α), items[index]? = some item →
      ∃ result, f item = some result ∧ results[index]? = some result := by
  induction items with
  | nil =>
    intro results ran
    cases ran
    refine ⟨rfl,fun index item found => ?_⟩
    cases found
  | cons first items ih =>
    intro results ran
    rw [List.mapM_cons] at ran
    cases begun : f first with
    | none =>
      rw [begun] at ran
      cases ran
    | some result =>
      rw [begun] at ran
      cases rest : items.mapM f with
      | none =>
        rw [rest] at ran
        cases ran
      | some others =>
        rw [rest] at ran
        cases ran
        obtain ⟨sized,each⟩ := ih rest
        refine ⟨congrArg (· + 1) sized,fun index item found => ?_⟩
        cases index with
        | zero =>
          cases found
          exact ⟨result,begun,rfl⟩
        | succ index => exact each index item found

theorem mapM_flatten {α β γ : Type} {f : β → Option γ} {parts : α → List β} {items : List α} :
    ∀ {results : List (List γ)}, items.mapM (fun item => (parts item).mapM f) = some results →
      (items.flatMap parts).mapM f = some results.flatten := by
  induction items with
  | nil =>
    intro results ran
    cases ran
    rfl
  | cons first items ih =>
    intro results ran
    rw [List.mapM_cons] at ran
    cases begun : (parts first).mapM f with
    | none =>
      rw [begun] at ran
      cases ran
    | some result =>
      rw [begun] at ran
      cases rest : items.mapM fun item => (parts item).mapM f with
      | none =>
        rw [rest] at ran
        cases ran
      | some others =>
        rw [rest] at ran
        cases ran
        rw [List.flatMap_cons,List.mapM_append,begun,ih rest]
        rfl

/-- The routes of the sites, each under every name of its site. -/
def siteEntries (config : Config) : List (SiteConfig × List UInt8 × ActionRouteConfig) :=
  config.sites.flatMap fun site => (siteNames site).flatMap fun name => site.routes.map fun route => (site,name,route)

theorem siteRoutes_entries (canonicalize : List UInt8 → Option (List UInt8)) (limits : ConfiguredLimits) (site : SiteConfig) :
    siteRoutes canonicalize limits site = ((siteNames site).flatMap fun name => site.routes.map fun route => (site,name,route)).mapM
      fun entry => siteRoute canonicalize limits entry.1 entry.2.1 entry.2.2 := by
  have paired : ((siteNames site).flatMap fun name => site.routes.map fun route => (site,name,route)) =
      ((siteNames site).flatMap fun name => site.routes.map (name,·)).map fun entry => (site,entry.1,entry.2) := by
    rw [List.map_flatMap]
    simp only [List.map_map]
    rfl
  rw [paired,List.mapM_map]
  rfl

/-- Without legacy routes, the compiled routes are those of the sites, declared in their order. -/
theorem compileRuntimeRoutes_each {canonicalize : List UInt8 → Option (List UInt8)} {config : Config} {routes : List RuntimeRoute}
    (legacy : config.routes = []) (compiled : compileRuntimeRoutes canonicalize config = some routes) :
    routes.length = (siteEntries config).length ∧ ∀ (index : Nat) (site : SiteConfig) (name : List UInt8) (route : ActionRouteConfig),
      (siteEntries config)[index]? = some (site,name,route) → ∃ draft,
        siteRoute canonicalize config.limits site name route = some draft ∧ routes[index]? = some (draft index) := by
  unfold compileRuntimeRoutes at compiled
  cases made : config.sites.mapM (siteRoutes canonicalize config.limits) with
  | none =>
    rw [made] at compiled
    cases compiled
  | some parts =>
    rw [made] at compiled
    cases compiled
    rw [legacy,List.map_nil,List.nil_append]
    simp only [funext (siteRoutes_entries canonicalize config.limits)] at made
    obtain ⟨sized,each⟩ := mapM_each (mapM_flatten made)
    refine ⟨by rw [List.length_map,List.length_zipIdx]; exact sized,fun index site name route found => ?_⟩
    obtain ⟨draft,read,placed⟩ := each index (site,name,route) found
    refine ⟨draft,read,?_⟩
    rw [List.getElem?_map,List.getElem?_zipIdx,placed]
    simp

/-- A draft that takes the order it is given, and its name from it. -/
def Ordered (draft : Nat → RuntimeRoute) : Prop := ∀ order, (draft order).id = actionId order ∧ (draft order).declarationOrder = order

theorem siteRoute_ordered {canonicalize : List UInt8 → Option (List UInt8)} {limits : ConfiguredLimits} {site : SiteConfig}
    {name : List UInt8} {route : ActionRouteConfig} {draft : Nat → RuntimeRoute}
    (read : siteRoute canonicalize limits site name route = some draft) : Ordered draft := by
  unfold siteRoute at read
  simp only [Option.bind_eq_bind,Option.bind_eq_some_iff] at read
  obtain ⟨siteDeny,-,routeDeny,-,action,-,made⟩ := read
  cases made
  exact fun order => ⟨rfl,rfl⟩

theorem siteRoutes_source {canonicalize : List UInt8 → Option (List UInt8)} {config : Config}
    {parts : List (List (Nat → RuntimeRoute))} (made : config.sites.mapM (siteRoutes canonicalize config.limits) = some parts) :
    ∀ draft ∈ parts.flatten, ∃ entry ∈ siteEntries config, siteRoute canonicalize config.limits entry.1 entry.2.1 entry.2.2 = some draft := by
  simp only [funext (siteRoutes_entries canonicalize config.limits)] at made
  obtain ⟨sized,each⟩ := mapM_each (mapM_flatten made)
  intro draft member
  obtain ⟨index,placed⟩ := List.mem_iff_getElem?.mp member
  have inside := (List.getElem?_eq_some_iff.mp placed).1
  rw [sized] at inside
  obtain ⟨result,read,found⟩ := each index _ (List.getElem?_eq_getElem inside)
  cases found.symm.trans placed
  exact ⟨_,List.getElem_mem inside,read⟩

theorem siteRoutes_ordered {canonicalize : List UInt8 → Option (List UInt8)} {config : Config}
    {parts : List (List (Nat → RuntimeRoute))} (made : config.sites.mapM (siteRoutes canonicalize config.limits) = some parts) :
    ∀ draft ∈ parts.flatten, Ordered draft := by
  intro draft member
  obtain ⟨entry,-,read⟩ := siteRoutes_source made draft member
  exact siteRoute_ordered read

theorem compileRuntimeRoutes_drafts {canonicalize : List UInt8 → Option (List UInt8)} {config : Config} {routes : List RuntimeRoute}
    (compiled : compileRuntimeRoutes canonicalize config = some routes) : ∃ drafts : List (Nat → RuntimeRoute),
      (∀ draft ∈ drafts, Ordered draft) ∧ routes = drafts.zipIdx.map fun (draft,order) => draft order := by
  unfold compileRuntimeRoutes at compiled
  cases made : config.sites.mapM (siteRoutes canonicalize config.limits) with
  | none =>
    rw [made] at compiled
    cases compiled
  | some parts =>
    rw [made] at compiled
    cases compiled
    refine ⟨_,fun draft member => ?_,rfl⟩
    rcases List.mem_append.mp member with legacy | sited
    · obtain ⟨route,-,rfl⟩ := List.mem_map.mp legacy
      exact fun order => ⟨rfl,rfl⟩
    · exact siteRoutes_ordered made draft sited

theorem compileRuntimeRoutes_distinct {canonicalize : List UInt8 → Option (List UInt8)} {config : Config} {routes : List RuntimeRoute}
    (compiled : compileRuntimeRoutes canonicalize config = some routes) : (routes.map (·.declarationOrder)).Nodup := by
  obtain ⟨drafts,ordered,rfl⟩ := compileRuntimeRoutes_drafts compiled
  have each : drafts.zipIdx.map (fun entry => (entry.1 entry.2).declarationOrder) = drafts.zipIdx.map Prod.snd := by
    refine List.map_congr_left fun entry member => ?_
    exact (ordered entry.1 (List.mem_of_getElem? (List.mem_zipIdx_iff_getElem?.mp member)) entry.2).2
  rw [List.map_map]
  refine (congrArg List.Nodup each).mpr ?_
  rw [List.zipIdx_map_snd]
  exact List.nodup_range'

theorem compileRuntimeRoutes_named {canonicalize : List UInt8 → Option (List UInt8)} {config : Config} {routes : List RuntimeRoute}
    (compiled : compileRuntimeRoutes canonicalize config = some routes) {index : Nat} {route : RuntimeRoute}
    (found : routes[index]? = some route) : route.id = actionId index := by
  obtain ⟨drafts,ordered,rfl⟩ := compileRuntimeRoutes_drafts compiled
  rw [List.getElem?_map,List.getElem?_zipIdx,Option.map_map,Option.map_eq_some_iff] at found
  obtain ⟨draft,placed,rfl⟩ := found
  rw [Nat.zero_add]
  exact (ordered draft (List.mem_of_getElem? placed) index).1

end Compiled

end Polyguard.Proxy
