import Polyguard.Proxy.Config
import Polyguard.Collections.Fallible

/-! What the validation of a configuration says about its routes.
Each check is read back from the run that passed it: the loops over the sites, the routes
and the headers give what every single one of them has passed. -/
namespace Polyguard.Proxy
open Ascii Slices

section Runs

theorem validation_bind {α β : Type} {first : Validation α} {next : α → Validation β} {result : β}
    (ok : (first >>= next) = .ok result) : ∃ value, first = .ok value ∧ next value = .ok result := Fallible.bind_iff.mp ok

theorem require_holds {holds : Bool} {message : List UInt8} {result : Unit} (ok : require holds message = .ok result) :
    holds := by
  cases holds with
  | true => rfl
  | false => cases ok

theorem forM_ok {α : Type} {check : α → Validation Unit} {items : List α} (ok : items.forM check = .ok ()) :
    ∀ item ∈ items, check item = .ok () := by
  induction items with
  | nil =>
    intro item member
    cases member
  | cons first items ih =>
    change (check first >>= fun _ => items.forM check) = .ok () at ok
    obtain ⟨_,begun,ok⟩ := validation_bind ok
    intro item member
    rcases List.mem_cons.mp member with rfl | later
    · exact begun
    · exact ih ok item later

theorem foldlM_ok {σ α : Type} {step : σ → α → Validation σ} {items : List α} {state after : σ}
    (ok : items.foldlM step state = .ok after) : ∀ item ∈ items, ∃ before next, step before item = .ok next := by
  induction items generalizing state with
  | nil =>
    intro item member
    cases member
  | cons first items ih =>
    rw [List.foldlM_cons] at ok
    obtain ⟨next,begun,ok⟩ := validation_bind ok
    intro item member
    rcases List.mem_cons.mp member with rfl | later
    · exact ⟨state,next,begun⟩
    · exact ih ok item later

theorem indexed_mem {α : Type} {items : List α} {item : α} (member : item ∈ items) : ∃ index, (item,index) ∈ items.zipIdx := by
  obtain ⟨index,inside,rfl⟩ := List.getElem_of_mem member
  exact ⟨index,List.mem_zipIdx_iff_getElem?.mpr (List.getElem?_eq_getElem inside)⟩

end Runs

section Headers

/-- Headers that a route may set: valid names that the proxy leaves to it, each of them once. -/
structure AcceptedHeaders (response : Bool) (headers : List HeaderValueConfig) : Prop where
  named : ∀ header ∈ headers, validHeaderName header.name
  unmanaged : ∀ header ∈ headers, (if response then responseManagedHeaders else requestManagedHeaders).contains header.name = false
  distinct : (headers.map (·.name)).Nodup
  valued : ∀ header ∈ headers, header.value.length ≤ maxHeaderValueBytes ∧ validTemplate header.value

theorem validateHeaderValue_ok {label : List UInt8} {response : Bool} {names after : List (List UInt8)}
    {entry : HeaderValueConfig × Nat} (ok : validateHeaderValue label response names entry = .ok after) :
    after = entry.1.name :: names ∧ validHeaderName entry.1.name ∧
      (if response then responseManagedHeaders else requestManagedHeaders).contains entry.1.name = false ∧
      entry.1.name ∉ names ∧ entry.1.value.length ≤ maxHeaderValueBytes ∧ validTemplate entry.1.value := by
  obtain ⟨header,index⟩ := entry
  obtain ⟨_,named,ok⟩ := validation_bind ok
  obtain ⟨_,unmanaged,ok⟩ := validation_bind ok
  obtain ⟨_,fresh,ok⟩ := validation_bind ok
  obtain ⟨_,valued,ok⟩ := validation_bind ok
  obtain ⟨_,-,ok⟩ := validation_bind ok
  cases ok
  have fresh := require_holds fresh
  have valued := require_holds valued
  rw [Bool.and_eq_true,decide_eq_true_eq] at valued
  refine ⟨rfl,require_holds named,?_,?_,valued⟩
  · exact (Bool.not_eq_true' _).mp (require_holds unmanaged)
  · rw [Bool.not_eq_true',List.contains_eq_mem,decide_eq_false_iff_not] at fresh
    exact fresh

/-- A run of the loop over the headers, behind the names it has met. -/
theorem headersLoop_ok {label : List UInt8} {response : Bool} {headers : List HeaderValueConfig} {start : Nat}
    {names after : List (List UInt8)} (ok : (headers.zipIdx start).foldlM (validateHeaderValue label response) names = .ok after) :
    AcceptedHeaders response headers ∧ ∀ header ∈ headers, header.name ∉ names := by
  induction headers generalizing start names with
  | nil => exact ⟨⟨by simp,by simp,.nil,by simp⟩,by simp⟩
  | cons header headers ih =>
    rw [List.zipIdx_cons,List.foldlM_cons] at ok
    obtain ⟨next,begun,ok⟩ := validation_bind ok
    obtain ⟨rfl,named,unmanaged,fresh,valued⟩ := validateHeaderValue_ok begun
    obtain ⟨accepted,apart⟩ := ih ok
    constructor
    · constructor
      · exact List.forall_mem_cons.mpr ⟨named,accepted.named⟩
      · exact List.forall_mem_cons.mpr ⟨unmanaged,accepted.unmanaged⟩
      · refine List.nodup_cons.mpr ⟨fun repeated => ?_,accepted.distinct⟩
        obtain ⟨other,later,same⟩ := List.mem_map.mp repeated
        exact apart other later (same ▸ List.mem_cons_self)
      · exact List.forall_mem_cons.mpr ⟨valued,accepted.valued⟩
    · exact List.forall_mem_cons.mpr ⟨fresh,fun other later => fun met => apart other later (List.mem_cons_of_mem _ met)⟩

theorem validateHeaderValues_ok {label : List UInt8} {headers : List HeaderValueConfig} {response : Bool}
    (ok : validateHeaderValues label headers response = .ok ()) : AcceptedHeaders response headers := by
  obtain ⟨_,ran,-⟩ := validation_bind ok
  exact (headersLoop_ok ran).1

end Headers

section Routes

theorem validateDeny_parses {label : List UInt8} {deny : List (List UInt8)} (ok : validateDeny label deny = .ok ()) :
    ∀ network ∈ deny, (IpNetwork.parse network).isSome := by
  intro network member
  obtain ⟨index,entry⟩ := indexed_mem member
  have checked := forM_ok ok _ entry
  exact require_holds checked

/-- What a route of a site has passed. -/
structure AcceptedRoute (isDirectory : List UInt8 → Bool) (upstreams : List (List UInt8)) (route : ActionRouteConfig) : Prop where
  path : validConfigPath route.path
  requestHeaders : AcceptedHeaders false route.requestHeaders
  responseHeaders : AcceptedHeaders true route.responseHeaders
  deny : ∀ network ∈ route.deny, (IpNetwork.parse network).isSome
  action : ∃ label, validateAction isDirectory upstreams label route.action = .ok ()

theorem validateActionRoute_ok {isDirectory : List UInt8 → Bool} {limits : ConfiguredLimits} {upstreams : List (List UInt8)}
    {label : List UInt8} {route : ActionRouteConfig}
    (ok : validateActionRoute isDirectory limits upstreams label route = .ok ()) : AcceptedRoute isDirectory upstreams route := by
  obtain ⟨_,path,ok⟩ := validation_bind ok
  obtain ⟨_,-,ok⟩ := validation_bind ok
  obtain ⟨_,-,ok⟩ := validation_bind ok
  obtain ⟨_,-,ok⟩ := validation_bind ok
  obtain ⟨_,requests,ok⟩ := validation_bind ok
  obtain ⟨_,responses,ok⟩ := validation_bind ok
  obtain ⟨_,denied,action⟩ := validation_bind ok
  exact ⟨require_holds path,validateHeaderValues_ok requests,validateHeaderValues_ok responses,validateDeny_parses denied,_,action⟩

/-- What a site has passed, with its routes. -/
structure AcceptedSite (isDirectory : List UInt8 → Bool) (upstreams : List (List UInt8)) (site : SiteConfig) : Prop where
  responseHeaders : AcceptedHeaders true site.responseHeaders
  routes : ∀ route ∈ site.routes, AcceptedRoute isDirectory upstreams route

theorem validateSite_ok {isDirectory : List UInt8 → Bool} {limits : ConfiguredLimits} {upstreams names after : List (List UInt8)}
    {entry : SiteConfig × Nat} (ok : validateSite isDirectory limits upstreams names entry = .ok after) :
    AcceptedSite isDirectory upstreams entry.1 := by
  obtain ⟨site,index⟩ := entry
  obtain ⟨_,-,ok⟩ := validation_bind ok
  obtain ⟨_,-,ok⟩ := validation_bind ok
  obtain ⟨_,-,ok⟩ := validation_bind ok
  obtain ⟨_,headers,ok⟩ := validation_bind ok
  obtain ⟨_,-,ok⟩ := validation_bind ok
  obtain ⟨_,routes,-⟩ := validation_bind ok
  refine ⟨validateHeaderValues_ok headers,fun route member => ?_⟩
  obtain ⟨order,entry⟩ := indexed_mem member
  exact validateActionRoute_ok (forM_ok routes _ entry)

theorem validateConfig_sites {isDirectory : List UInt8 → Bool} {config : Config}
    (valid : validateConfig isDirectory config = .ok ()) :
    ∃ upstreams, validateUpstreams config.upstreams = .ok upstreams ∧ ∀ site ∈ config.sites, AcceptedSite isDirectory upstreams site := by
  obtain ⟨_,-,valid⟩ := validation_bind valid
  obtain ⟨_,-,valid⟩ := validation_bind valid
  obtain ⟨_,-,valid⟩ := validation_bind valid
  obtain ⟨_,-,valid⟩ := validation_bind valid
  obtain ⟨_,-,valid⟩ := validation_bind valid
  obtain ⟨_,-,valid⟩ := validation_bind valid
  obtain ⟨upstreams,gathered,valid⟩ := validation_bind valid
  obtain ⟨_,-,valid⟩ := validation_bind valid
  obtain ⟨_,-,valid⟩ := validation_bind valid
  obtain ⟨_,sites,-⟩ := validation_bind valid
  refine ⟨upstreams,gathered,fun site member => ?_⟩
  obtain ⟨index,entry⟩ := indexed_mem member
  obtain ⟨before,next,ok⟩ := foldlM_ok sites _ entry
  exact validateSite_ok ok

theorem validateConfig_accepted {isDirectory : List UInt8 → Bool} {config : Config}
    (valid : validateConfig isDirectory config = .ok ()) :
    ∃ upstreams, validateUpstreams config.upstreams = .ok upstreams ∧
      ∀ site ∈ config.sites, ∀ route ∈ site.routes, AcceptedRoute isDirectory upstreams route := by
  obtain ⟨upstreams,gathered,accepted⟩ := validateConfig_sites valid
  exact ⟨upstreams,gathered,fun site listed => (accepted site listed).routes⟩

theorem validateConfig_deny {isDirectory : List UInt8 → Bool} {config : Config}
    (valid : validateConfig isDirectory config = .ok ()) :
    ∀ site ∈ config.sites, ∀ route ∈ site.routes, ∀ network ∈ route.deny, (IpNetwork.parse network).isSome := by
  obtain ⟨upstreams,-,routes⟩ := validateConfig_accepted valid
  exact fun site listed route member => (routes site listed route member).deny

end Routes
end Polyguard.Proxy
