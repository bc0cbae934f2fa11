import Polyguard.CanonicalHead.Clean
import Polyguard.Proxy.Selection
import Polyguard.Proxy.Request
import Polyguard.Proxy.LegacyRoutes

/-! The configured request headers on their way to the upstream.
The names that the configuration may set, the replacement of the client's fields and the
names that a canonical head replaces are three lists. A configured header reaches the
upstream exactly when the last of them leaves it alone. -/
namespace Polyguard.Proxy
open Ascii Slices HeaderFraming CanonicalHead

section Names

/-- A configured header applies to the method of the request. -/
def applies (method : List UInt8) (header : HeaderValueConfig) : Bool :=
  header.methods.isEmpty || header.methods.any (eqIgnoreAsciiCase · method)

/-- A field of the client that neither the head nor an applied header replaces. -/
def leftAlone (method : List UInt8) (configured : List HeaderValueConfig) (field : HeaderField) : Bool :=
  !isReplaced (field.name.map toAsciiLowercase) &&
    !(configured.filter (applies method)).any fun header => eqIgnoreAsciiCase field.name header.name

theorem leftAlone_apart {method : List UInt8} {configured : List HeaderValueConfig} {field : HeaderField}
    (alone : leftAlone method configured field) : ∀ header ∈ configured.filter (applies method), field.name ≠ header.name := by
  intro header applied same
  have hit : eqIgnoreAsciiCase field.name header.name := by
    rw [eqIgnoreAsciiCase_iff,same]
  rw [leftAlone,List.any_eq_true.mpr ⟨header,applied,hit⟩] at alone
  simp at alone

theorem canonicalName_lower {name : List UInt8} (canonical : isCanonicalName name) : name.map toAsciiLowercase = name := by
  have lower := forall_byte (p := fun b => isLowerToken b → toAsciiLowercase b = b) (by decide)
  simp only [isCanonicalName,Bool.and_eq_true] at canonical
  exact (List.map_congr_left fun b member => lower b (List.all_eq_true.mp canonical.2 b member)).trans (List.map_id name)

theorem canonicalName_caseless {left right : List UInt8} (first : isCanonicalName left) (second : isCanonicalName right) :
    eqIgnoreAsciiCase left right = (left == right) := by
  unfold eqIgnoreAsciiCase
  rw [canonicalName_lower first,canonicalName_lower second]

end Names

section Replacement
variable {context : TemplateContext} {method : List UInt8}

/-- The field that a configured header sets. -/
def Sets (context : TemplateContext) (header : HeaderValueConfig) (field : HeaderField) : Prop :=
  field.name = header.name ∧ renderTemplate header.value context maxHeaderValueBytes = .ok field.value

theorem applyRequestHeaders_sets {configured : List HeaderValueConfig} {client fields : List HeaderField}
    (distinct : (configured.map (·.name)).Nodup) (ran : applyRequestHeaders context method client configured = .ok fields) :
    ∃ set, List.Forall₂ (Sets context) (configured.filter (applies method)) set ∧
      fields = (client.filter fun field => !(configured.filter (applies method)).any fun header => field.name == header.name) ++ set := by
  induction configured generalizing client with
  | nil =>
    cases ran
    refine ⟨[],.nil,?_⟩
    simp
  | cons header configured ih =>
    obtain ⟨fresh,distinct⟩ := List.nodup_cons.mp distinct
    unfold applyRequestHeaders at ran
    split at ran
    · rename_i skipped
      have inactive : applies method header = false := by
        simpa [applies] using skipped
      rw [List.filter_cons_of_neg (by rw [inactive]; exact Bool.false_ne_true)]
      exact ih distinct ran
    · rename_i taken
      have active : applies method header := by
        unfold applies
        cases empty : header.methods.isEmpty with
        | true => rfl
        | false => simpa [empty] using taken
      obtain ⟨value,rendered,ran⟩ := Fallible.bind_iff.mp ran
      obtain ⟨set,sets,rfl⟩ := ih distinct ran
      rw [List.filter_cons_of_pos active]
      refine ⟨⟨header.name,value⟩ :: set,.cons ⟨rfl,rendered⟩ sets,?_⟩
      have apart : ((configured.filter (applies method)).any fun other => header.name == other.name) = false := by
        apply List.any_eq_false.mpr
        intro other member same
        exact fresh (List.mem_map.mpr ⟨other,List.mem_of_mem_filter member,(beq_iff_eq.mp same).symm⟩)
      rw [List.filter_append,List.filter_filter,List.filter_singleton,apart,List.append_assoc]
      simp only [List.any_cons,Bool.not_or,Bool.not_false]
      congr 1
      apply List.filter_congr
      intro field _
      rw [Bool.and_comm]
      rfl

theorem sets_names {applied : List HeaderValueConfig} {set : List HeaderField} (sets : List.Forall₂ (Sets context) applied set) :
    set.map (·.name) = applied.map (·.name) := by
  induction sets with
  | nil => rfl
  | cons first sets ih => rw [List.map_cons,List.map_cons,first.1,ih]

theorem sets_single {applied : List HeaderValueConfig} {set : List HeaderField} (sets : List.Forall₂ (Sets context) applied set)
    (distinct : (applied.map (·.name)).Nodup) {header : HeaderValueConfig} (member : header ∈ applied) :
    ∃ value, renderTemplate header.value context maxHeaderValueBytes = .ok value ∧
      (set.filter fun field => field.name == header.name) = [⟨header.name,value⟩] := by
  induction sets with
  | nil => cases member
  | @cons first field applied set head sets ih =>
    obtain ⟨fresh,distinct⟩ := List.nodup_cons.mp distinct
    obtain ⟨name,value⟩ := field
    obtain ⟨rfl,rendered⟩ := head
    rcases List.mem_cons.mp member with rfl | later
    · refine ⟨value,rendered,?_⟩
      have others : (set.filter fun field => field.name == header.name) = [] := by
        apply List.filter_eq_nil_iff.mpr
        intro field among same
        rw [← sets_names sets] at fresh
        exact fresh (List.mem_map.mpr ⟨field,among,beq_iff_eq.mp same⟩)
      rw [List.filter_cons_of_pos (by exact BEq.rfl),others]
    · obtain ⟨found,read,single⟩ := ih distinct later
      refine ⟨found,read,?_⟩
      rw [List.filter_cons_of_neg,single]
      intro same
      exact fresh (List.mem_map.mpr ⟨header,later,(beq_iff_eq.mp same).symm⟩)

end Replacement

section Head

/-- The fields that a head adds of its own. -/
def ownFields (endpoint : Endpoint) (framing : BodyFraming) (forwarding : ForwardingResult) : List HeaderField :=
  ⟨ascii "Host",renderEndpoint endpoint⟩ :: (forwardingFields forwarding ++ (framingFields framing ++ [⟨ascii "Connection",ascii "close"⟩]))

theorem ownFields_names {endpoint : Endpoint} {framing : BodyFraming} {forwarding : ForwardingResult} {field : HeaderField}
    (member : field ∈ ownFields endpoint framing forwarding) :
    field.name ∈ [ascii "Host",ascii "Content-Length",ascii "Transfer-Encoding",ascii "Connection"] ++ forwardingNames := by
  rcases List.mem_cons.mp member with rfl | member
  · exact List.mem_cons_self
  · rcases List.mem_append.mp member with forwarded | member
    · obtain ⟨⟨name,value⟩,zipped,rfl⟩ := List.mem_map.mp forwarded
      exact List.mem_append_right _ (List.of_mem_zip zipped).1
    · rcases List.mem_append.mp member with framed | closing
      · cases framing with
        | none => cases framed
        | contentLength length =>
          obtain rfl := List.mem_singleton.mp framed
          simp
        | chunked =>
          obtain rfl := List.mem_singleton.mp framed
          simp
      · obtain rfl := List.mem_singleton.mp closing
        simp

theorem ownFields_managed {endpoint : Endpoint} {framing : BodyFraming} {forwarding : ForwardingResult} {field : HeaderField}
    (member : field ∈ ownFields endpoint framing forwarding) :
    isReplaced (field.name.map toAsciiLowercase) ∧ requestManagedHeaders.contains (field.name.map toAsciiLowercase) := by
  have each : ∀ name ∈ [ascii "Host",ascii "Content-Length",ascii "Transfer-Encoding",ascii "Connection"] ++ forwardingNames,
      isReplaced (name.map toAsciiLowercase) ∧ requestManagedHeaders.contains (name.map toAsciiLowercase) := by
    decide +kernel
  exact each _ (ownFields_names member)

theorem headFields_filter {endpoint : Endpoint} {headers : SanitizedHeaders} {framing : BodyFraming} {forwarding : ForwardingResult}
    {keep : HeaderField → Bool} (refused : ∀ field ∈ ownFields endpoint framing forwarding, keep field = false) :
    (headFields endpoint headers framing forwarding).filter keep = (keptFields headers).filter keep := by
  have apart := List.filter_eq_nil_iff.mpr fun field member => Bool.eq_false_iff.mp (refused field member)
  rw [ownFields,← List.singleton_append,List.filter_append,List.append_eq_nil_iff] at apart
  rw [headFields,← List.singleton_append,List.filter_append,List.filter_append,apart.1,apart.2]
  simp

theorem unmanaged_replaced {name : List UInt8} (unmanaged : requestManagedHeaders.contains name = false) :
    isReplaced name = (ascii "x-forwarded-").isPrefixOf name := by
  have exact : [ascii "host",ascii "content-length",ascii "transfer-encoding",ascii "connection",ascii "forwarded"].contains name = false := by
    apply Bool.eq_false_iff.mpr
    intro listed
    have within : ∀ entry ∈ [ascii "host",ascii "content-length",ascii "transfer-encoding",ascii "connection",ascii "forwarded"],
        requestManagedHeaders.contains entry := by decide +kernel
    rw [within name (List.contains_iff_mem.mp listed)] at unmanaged
    cases unmanaged
  rw [isReplaced,exact,Bool.false_or]

end Head

section Reach

/-- Each configured header that applies stands among the fields once, with its rendered value and no other field of its
name, and the fields of the client that are left alone keep their order and values. -/
structure ConfiguredReach (context : TemplateContext) (method : List UInt8) (configured : List HeaderValueConfig)
    (client fields : List HeaderField) : Prop where
  single : ∀ header ∈ configured, applies method header → ∃ value,
    renderTemplate header.value context maxHeaderValueBytes = .ok value ∧
      (fields.filter fun field => eqIgnoreAsciiCase field.name header.name) = [⟨header.name,value⟩]
  retained : fields.filter (leftAlone method configured) = client.filter (leftAlone method configured)

variable {context : TemplateContext} {method : List UInt8} {configured : List HeaderValueConfig} {client fields : List HeaderField}
  {endpoint : Endpoint} {removed : List (List UInt8)} {framing : BodyFraming} {forwarding : ForwardingResult}

theorem sanitized_names (clean : isSanitized ⟨fields,removed⟩) : ∀ field ∈ fields, isCanonicalName field.name := by
  intro field member
  simp only [isSanitized,Bool.and_eq_true] at clean
  have held := List.all_eq_true.mp clean.1.2 field member
  simp only [isEndToEnd,Bool.and_eq_true] at held
  exact held.1.1.1.1

theorem headFields_single (accepted : AcceptedHeaders false configured)
    (ran : applyRequestHeaders context method client configured = .ok fields) (clean : isSanitized ⟨fields,removed⟩)
    {header : HeaderValueConfig} (member : header ∈ configured) (active : applies method header) :
    ∃ value, renderTemplate header.value context maxHeaderValueBytes = .ok value ∧
      ((headFields endpoint ⟨fields,removed⟩ framing forwarding).filter fun field => eqIgnoreAsciiCase field.name header.name) =
        if (ascii "x-forwarded-").isPrefixOf header.name then [] else [⟨header.name,value⟩] := by
  have canonical := sanitized_names clean
  have unmanaged := accepted.unmanaged header member
  rw [if_neg Bool.false_ne_true] at unmanaged
  obtain ⟨set,sets,rfl⟩ := applyRequestHeaders_sets accepted.distinct ran
  have applied := List.mem_filter.mpr ⟨member,active⟩
  obtain ⟨value,rendered,single⟩ := sets_single sets (accepted.distinct.sublist (List.filter_sublist.map _)) applied
  have placed : ⟨header.name,value⟩ ∈ set := List.mem_of_mem_filter (single ▸ List.mem_singleton_self _)
  have name : isCanonicalName header.name := canonical _ (List.mem_append_right _ placed)
  refine ⟨value,rendered,?_⟩
  rw [headFields_filter,keptFields,List.filter_filter,← unmanaged_replaced unmanaged]
  · have replaced : ∀ field ∈ (client.filter fun field => !(configured.filter (applies method)).any fun header =>
        field.name == header.name) ++ set, (eqIgnoreAsciiCase field.name header.name && !isReplaced field.name) =
          (!isReplaced header.name && field.name == header.name) := by
      intro field among
      rw [canonicalName_caseless (canonical field among) name]
      cases same : field.name == header.name with
      | false => rw [Bool.false_and,Bool.and_false]
      | true => rw [beq_iff_eq.mp same,Bool.true_and,Bool.and_true]
    have gone : ((client.filter fun field => !(configured.filter (applies method)).any fun header => field.name == header.name).filter
        fun field => field.name == header.name) = [] := by
      apply List.filter_eq_nil_iff.mpr
      intro field among same
      have kept := (List.mem_filter.mp among).2
      rw [List.any_eq_true.mpr ⟨header,applied,same⟩] at kept
      cases kept
    rw [List.filter_congr replaced]
    cases isReplaced header.name with
    | true => simp
    | false =>
      simp only [Bool.not_false,Bool.true_and]
      rw [List.filter_append,gone,single]
      rfl
  · intro field own
    apply Bool.eq_false_iff.mpr
    intro same
    have managed := (ownFields_managed own).2
    rw [(eqIgnoreAsciiCase_iff _ _).mp same,canonicalName_lower name,unmanaged] at managed
    cases managed

theorem headFields_retained (accepted : AcceptedHeaders false configured)
    (ran : applyRequestHeaders context method client configured = .ok fields) (clean : isSanitized ⟨fields,removed⟩) :
    (headFields endpoint ⟨fields,removed⟩ framing forwarding).filter (leftAlone method configured) =
      client.filter (leftAlone method configured) := by
  have canonical := sanitized_names clean
  obtain ⟨set,sets,rfl⟩ := applyRequestHeaders_sets accepted.distinct ran
  rw [headFields_filter,keptFields,List.filter_filter]
  · have kept : ∀ field ∈ (client.filter fun field => !(configured.filter (applies method)).any fun header =>
        field.name == header.name) ++ set, (leftAlone method configured field && !isReplaced field.name) =
          leftAlone method configured field := by
      intro field among
      unfold leftAlone
      rw [canonicalName_lower (canonical field among)]
      cases isReplaced field.name <;> simp
    have replaced : set.filter (leftAlone method configured) = [] := by
      apply List.filter_eq_nil_iff.mpr
      intro field among alone
      have named := List.mem_map_of_mem (f := (·.name)) among
      rw [sets_names sets] at named
      obtain ⟨header,applied,same⟩ := List.mem_map.mp named
      exact leftAlone_apart alone header applied same.symm
    rw [List.filter_congr kept,List.filter_append,replaced,List.append_nil,List.filter_filter]
    apply List.filter_congr
    intro field _
    cases alone : leftAlone method configured field with
    | false => rfl
    | true =>
      rw [Bool.true_and,Bool.not_eq_true',List.any_eq_false]
      intro header applied same
      exact leftAlone_apart alone header applied (beq_iff_eq.mp same)
  · intro field own
    unfold leftAlone
    rw [(ownFields_managed own).1]
    rfl

theorem headFields_reach (accepted : AcceptedHeaders false configured)
    (ran : applyRequestHeaders context method client configured = .ok fields) (clean : isSanitized ⟨fields,removed⟩) :
    ConfiguredReach context method configured client (headFields endpoint ⟨fields,removed⟩ framing forwarding) ↔
      ∀ header ∈ configured, applies method header → ¬ (ascii "x-forwarded-").isPrefixOf header.name := by
  constructor
  · intro reach header member active hidden
    obtain ⟨value,-,single⟩ := reach.single header member active
    obtain ⟨_,-,found⟩ := @headFields_single context method configured client fields endpoint removed framing forwarding accepted ran
      clean header member active
    rw [if_pos hidden,single] at found
    cases found
  · intro plain
    refine ⟨fun header member active => ?_,headFields_retained accepted ran clean⟩
    obtain ⟨value,rendered,found⟩ := @headFields_single context method configured client fields endpoint removed framing forwarding
      accepted ran clean header member active
    rw [if_neg (plain header member active)] at found
    exact ⟨value,rendered,found⟩

end Reach

section Routes
variable {isDirectory : List UInt8 → Bool} {canonicalize : List UInt8 → Option (List UInt8)} {config : Config}
  {routes : List RuntimeRoute}

theorem siteRoute_headers {limits : ConfiguredLimits} {site : SiteConfig} {name : List UInt8} {route : ActionRouteConfig}
    {draft : Nat → RuntimeRoute} (read : siteRoute canonicalize limits site name route = some draft) (order : Nat) :
    (draft order).requestHeaders = route.requestHeaders ∧ (draft order).responseHeaders = site.responseHeaders ++ route.responseHeaders := by
  unfold siteRoute at read
  simp only [Option.bind_eq_bind,Option.bind_eq_some_iff] at read
  obtain ⟨siteDeny,-,routeDeny,-,action,-,made⟩ := read
  cases made
  exact ⟨rfl,rfl⟩

theorem compiled_source (compiled : compileRuntimeRoutes canonicalize config = some routes) {route : RuntimeRoute} (member : route ∈ routes) :
    (route.requestHeaders = [] ∧ route.responseHeaders = []) ∨ ∃ site ∈ config.sites, ∃ source ∈ site.routes,
      route.requestHeaders = source.requestHeaders ∧ route.responseHeaders = site.responseHeaders ++ source.responseHeaders := by
  unfold compileRuntimeRoutes at compiled
  cases made : config.sites.mapM (siteRoutes canonicalize config.limits) with
  | none =>
    rw [made] at compiled
    cases compiled
  | some parts =>
    rw [made] at compiled
    cases compiled
    obtain ⟨⟨draft,order⟩,indexed,rfl⟩ := List.mem_map.mp member
    rcases List.mem_append.mp (List.fst_mem_of_mem_zipIdx indexed) with legacy | sited
    · obtain ⟨declared,-,same⟩ := List.mem_map.mp legacy
      obtain rfl : legacyRoute config.limits declared = draft := same
      exact .inl ⟨rfl,rfl⟩
    · obtain ⟨⟨site,name,declared⟩,entry,read⟩ := siteRoutes_source made draft sited
      obtain ⟨origin,listed,inside⟩ := List.mem_flatMap.mp entry
      obtain ⟨_,-,placed⟩ := List.mem_flatMap.mp inside
      obtain ⟨source,among,same⟩ := List.mem_map.mp placed
      cases same
      exact .inr ⟨_,listed,_,among,siteRoute_headers read order⟩

theorem compiled_requestHeaders (valid : validateConfig isDirectory config = .ok ())
    (compiled : compileRuntimeRoutes canonicalize config = some routes) {route : RuntimeRoute} (member : route ∈ routes) :
    AcceptedHeaders false route.requestHeaders := by
  obtain ⟨upstreams,-,accepted⟩ := validateConfig_accepted valid
  rcases compiled_source compiled member with ⟨none,-⟩ | ⟨site,listed,source,among,same,-⟩
  · rw [none]
    exact ⟨by simp,by simp,.nil,by simp⟩
  · rw [same]
    exact (accepted site listed source among).requestHeaders

/-- A configured header reaches the upstream unless its name begins like those of the forwarding fields: each head drops
such a field, whether the client sent it or the configuration set it. -/
theorem configured_headers_reach_iff (valid : validateConfig isDirectory config = .ok ())
    (compiled : compileRuntimeRoutes canonicalize config = some routes) {route : RuntimeRoute} (member : route ∈ routes)
    {context : TemplateContext} {method : List UInt8} {target : NormalizedTarget} {authority : EffectiveAuthority}
    {client : SanitizedHeaders} {framing : BodyFraming} {forwarding : ForwardingResult} {fields : List HeaderField}
    (ran : applyRequestHeaders context method client.fields route.requestHeaders = .ok fields) {construct}
    (registered : construct ∈ canonicalHeadImplementations) {head : CanonicalRequestHead}
    (returned : construct method target authority { client with fields } framing forwarding = .ok head) :
    (∃ carried, Carries head.bytes carried ∧ ConfiguredReach context method route.requestHeaders client.fields carried) ↔
      ∀ header ∈ route.requestHeaders, applies method header → ¬ (ascii "x-forwarded-").isPrefixOf header.name := by
  have accepted := compiled_requestHeaders valid compiled member
  obtain ⟨host,built⟩ := implementation_built registered returned
  rw [← headFields_reach accepted ran built.clean]
  constructor
  · rintro ⟨carried,carries,reach⟩
    exact carries_unique carries built.carries ▸ reach
  · exact fun reach => ⟨_,built.carries,reach⟩

/-- One proxied site with one configured request header. -/
def settingConfig (name : List UInt8) : Config :=
  { sampleConfig with
    routes := []
    sites := [⟨false,[ascii "a.test"],[⟨ascii "/",.boundaryPrefix,[],[],none,[⟨name,ascii "443",false,[]⟩],[],[],
      .proxy (ascii "app") none none⟩],[],[]⟩] }

def settingRoute (name : List UInt8) : RuntimeRoute :=
  ⟨actionId 0,ascii "a.test",ascii "/",.boundaryPrefix,[],[],16777216,[⟨name,ascii "443",false,[]⟩],[],[],
    .proxy (ascii "app") none none,0⟩

def settingContext : TemplateContext :=
  ⟨ascii "a.test",ascii "a.test",ascii "192.0.2.1",ascii "http",ascii "/",ascii "192.0.2.1"⟩

def settingForwarding : ForwardingResult :=
  ⟨ascii "for=192.0.2.1",ascii "192.0.2.1",ascii "http",ascii "a.test"⟩

def settingTarget : NormalizedTarget := ⟨.origin,none,none,ascii "/",ascii "/"⟩

def settingClient (name : List UInt8) : SanitizedHeaders := ⟨[⟨ascii "accept",ascii "*/*"⟩,⟨name,ascii "1"⟩],[]⟩

theorem configured_headers_reach_plain : ∃ head carried,
    CanonicalHeadRulePhases.constructCanonicalUpstreamHead (ascii "get") settingTarget ⟨ascii "a.test",none⟩
      ⟨[⟨ascii "accept",ascii "*/*"⟩,⟨ascii "x-port",ascii "443"⟩],[]⟩ .none settingForwarding = .ok head ∧
    Carries head.bytes carried ∧ ConfiguredReach settingContext (ascii "get") (settingRoute (ascii "x-port")).requestHeaders
      (settingClient (ascii "x-port")).fields carried := by
  have returned : (CanonicalHeadRulePhases.constructCanonicalUpstreamHead (ascii "get") settingTarget ⟨ascii "a.test",none⟩
      ⟨[⟨ascii "accept",ascii "*/*"⟩,⟨ascii "x-port",ascii "443"⟩],[]⟩ .none settingForwarding).isOk := by decide +kernel
  obtain ⟨head,returned⟩ := Fallible.isOk_iff.mp returned
  have reach := @configured_headers_reach_iff (fun _ => false) some (settingConfig (ascii "x-port")) [settingRoute (ascii "x-port")]
    (by decide +kernel) (by decide +kernel) (settingRoute (ascii "x-port")) (by simp) settingContext (ascii "get") settingTarget
    ⟨ascii "a.test",none⟩ (settingClient (ascii "x-port")) .none settingForwarding
    [⟨ascii "accept",ascii "*/*"⟩,⟨ascii "x-port",ascii "443"⟩] (by decide +kernel)
    CanonicalHeadRulePhases.constructCanonicalUpstreamHead (by simp [canonicalHeadImplementations]) head returned
  obtain ⟨carried,carries,reaches⟩ := reach.mpr (by decide +kernel)
  exact ⟨head,carried,returned,carries,reaches⟩

/-- A header that the configuration may set, and that no head holds. -/
theorem configured_header_dropped : validateConfig (fun _ => false) (settingConfig (ascii "x-forwarded-port")) = .ok () ∧
    compileRuntimeRoutes some (settingConfig (ascii "x-forwarded-port")) = some [settingRoute (ascii "x-forwarded-port")] ∧
    ∃ fields head, applyRequestHeaders settingContext (ascii "get") (settingClient (ascii "x-port")).fields
        (settingRoute (ascii "x-forwarded-port")).requestHeaders = .ok fields ∧
      CanonicalHeadRulePhases.constructCanonicalUpstreamHead (ascii "get") settingTarget ⟨ascii "a.test",none⟩
        { settingClient (ascii "x-port") with fields } .none settingForwarding = .ok head ∧
      ¬ ∃ carried, Carries head.bytes carried ∧ ConfiguredReach settingContext (ascii "get")
        (settingRoute (ascii "x-forwarded-port")).requestHeaders (settingClient (ascii "x-port")).fields carried := by
  have valid : validateConfig (fun _ => false) (settingConfig (ascii "x-forwarded-port")) = .ok () := by decide +kernel
  have compiled : compileRuntimeRoutes some (settingConfig (ascii "x-forwarded-port")) =
      some [settingRoute (ascii "x-forwarded-port")] := by decide +kernel
  have ran : applyRequestHeaders settingContext (ascii "get") (settingClient (ascii "x-port")).fields
      (settingRoute (ascii "x-forwarded-port")).requestHeaders =
        .ok [⟨ascii "accept",ascii "*/*"⟩,⟨ascii "x-port",ascii "1"⟩,⟨ascii "x-forwarded-port",ascii "443"⟩] := by decide +kernel
  have returned : (CanonicalHeadRulePhases.constructCanonicalUpstreamHead (ascii "get") settingTarget ⟨ascii "a.test",none⟩
      ⟨[⟨ascii "accept",ascii "*/*"⟩,⟨ascii "x-port",ascii "1"⟩,⟨ascii "x-forwarded-port",ascii "443"⟩],[]⟩ .none
      settingForwarding).isOk := by decide +kernel
  obtain ⟨head,returned⟩ := Fallible.isOk_iff.mp returned
  refine ⟨valid,compiled,_,head,ran,returned,?_⟩
  rintro ⟨carried,carries,reach⟩
  obtain ⟨host,built⟩ := implementation_built (by simp [canonicalHeadImplementations]) returned
  obtain rfl := carries_unique carries built.carries
  have plain := (headFields_reach (compiled_requestHeaders valid compiled List.mem_cons_self) ran built.clean).mp reach
  exact plain ⟨ascii "x-forwarded-port",ascii "443",false,[]⟩ List.mem_cons_self rfl (by decide +kernel)

end Routes
end Polyguard.Proxy
