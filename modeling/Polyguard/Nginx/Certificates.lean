import Polyguard.Nginx.HostReturns

/-! The certificates of the listeners.
A listener has a certificate for each listen directive on its address, in the order of
the servers. The server that owns the default routes of the address and the certificate
that is the default are settled in two loops, both by the first listen directive that
says so, or else by the first one. -/
namespace Polyguard.Nginx
open Ascii Slices Decimal Proxy

section Listens

/-- A listen directive with its server and the place of the server. -/
structure Placed where
  server : ServerSpec
  index : Nat
  listen : ListenSpec

def placedOf (entry : ServerSpec × Nat) : List Placed := entry.1.listens.map fun listen => ⟨entry.1,entry.2,listen⟩

/-- The listen directives of some servers, in order. -/
def placedListens (servers : List ServerSpec) : List Placed := servers.zipIdx.flatMap placedOf

def listensOn (given : List Placed) (address : SocketAddr) : List Placed := given.filter (·.listen.address == address)

/-- The listen directive that is the default one: the first that says so, else the first. -/
def defaultAmong (listens : List Placed) : Option Placed := (listens.find? (·.listen.isDefault)).or listens.head?

variable {given : List Placed}

theorem mem_placedListens {servers : List ServerSpec} {placed : Placed} :
    placed ∈ placedListens servers ↔ servers[placed.index]? = some placed.server ∧ placed.listen ∈ placed.server.listens := by
  obtain ⟨server,index,listen⟩ := placed
  unfold placedListens placedOf
  rw [List.mem_flatMap]
  constructor
  · rintro ⟨⟨owner,place⟩,member,inside⟩
    obtain ⟨_,held,same⟩ := List.mem_map.mp inside
    cases same
    exact ⟨List.mem_zipIdx_iff_getElem?.mp member,held⟩
  · rintro ⟨found,held⟩
    exact ⟨(server,index),List.mem_zipIdx_iff_getElem?.mpr found,List.mem_map_of_mem held⟩

theorem listensOn_concat_same (given : List Placed) (placed : Placed) :
    listensOn (given ++ [placed]) placed.listen.address = listensOn given placed.listen.address ++ [placed] := by
  unfold listensOn
  rw [List.filter_append,List.filter_singleton,beq_self_eq_true]
  rfl

theorem listensOn_concat_other (given : List Placed) {placed : Placed} {address : SocketAddr} (other : address ≠ placed.listen.address) :
    listensOn (given ++ [placed]) address = listensOn given address := by
  unfold listensOn
  rw [List.filter_append,List.filter_singleton,beq_eq_false_iff_ne.mpr (Ne.symm other)]
  exact List.append_nil _

theorem defaultAmong_concat (listens : List Placed) (placed : Placed) : defaultAmong (listens ++ [placed]) =
    match defaultAmong listens with
    | none => some placed
    | some chosen => some (if !chosen.listen.isDefault && placed.listen.isDefault then placed else chosen) := by
  unfold defaultAmong
  rw [List.find?_append]
  cases found : listens.find? (·.listen.isDefault) with
  | some chosen =>
    have flagged := List.find?_some found
    change some chosen = some _
    rw [flagged]
    rfl
  | none =>
    cases listens with
    | nil =>
      rw [List.find?_singleton]
      cases placed.listen.isDefault <;> rfl
    | cons first listens =>
      have silent : first.listen.isDefault = false := by
        have none := List.find?_eq_none.mp found first List.mem_cons_self
        rwa [Bool.not_eq_true] at none
      rw [List.find?_singleton,List.cons_append,List.head?_cons,List.head?_cons]
      change _ = some (if !first.listen.isDefault && placed.listen.isDefault then placed else first)
      rw [silent]
      cases placed.listen.isDefault <;> rfl

theorem defaultAmong_mem {listens : List Placed} {placed : Placed} (chosen : defaultAmong listens = some placed) :
    placed ∈ listens := by
  rcases Option.or_eq_some_iff.mp chosen with found | ⟨-,first⟩
  · exact List.mem_of_find?_eq_some found
  · exact List.mem_of_mem_head? first

end Listens

section Owners

/-- The owners of the addresses after some listen directives. -/
def Owned (given : List Placed) (owners : Owners) : Prop := ∀ address, Ledger.find address owners =
  (defaultAmong (listensOn given address)).map fun placed => (placed.index,placed.listen.isDefault)

theorem ownDefault_owned {given : List Placed} {owners after : Owners} (owned : Owned given owners) (placed : Placed)
    (ran : ownDefault placed.index owners placed.listen = .ok after) : Owned (given ++ [placed]) after := by
  have held := owned placed.listen.address
  -- the other addresses keep their owners, and this one is settled by the next directive
  have settled {made : Owners} {chosen : Placed} (kept : ∀ address, Ledger.find address made =
      if address = placed.listen.address then some (chosen.index,chosen.listen.isDefault) else Ledger.find address owners)
      (next : defaultAmong (listensOn given placed.listen.address ++ [placed]) = some chosen) : Owned (given ++ [placed]) made := by
    intro address
    rw [kept address]
    by_cases same : address = placed.listen.address
    · subst same
      rw [if_pos rfl,listensOn_concat_same,next]
      rfl
    · rw [if_neg same,listensOn_concat_other given same,owned address]
  have concat := defaultAmong_concat (listensOn given placed.listen.address) placed
  cases first : defaultAmong (listensOn given placed.listen.address) with
  | none =>
    rw [first] at held concat
    rw [ownDefault,held] at ran
    cases ran
    refine settled (fun address => ?_) concat
    by_cases same : address = placed.listen.address
    · rw [if_pos same,same,Ledger.find_opened]
    · rw [if_neg same,Ledger.find_open same]
  | some chosen =>
    rw [first] at held concat
    change Ledger.find _ _ = some (chosen.index,chosen.listen.isDefault) at held
    have stays (made : defaultAmong (listensOn given placed.listen.address ++ [placed]) = some chosen) :
        Owned (given ++ [placed]) owners := by
      refine settled (fun address => ?_) made
      by_cases same : address = placed.listen.address
      · rw [if_pos same,same,held]
      · rw [if_neg same]
    dsimp only at concat
    cases flagged : chosen.listen.isDefault with
    | true =>
      rw [flagged] at held concat
      unfold ownDefault at ran
      rw [held] at ran
      dsimp only at ran
      split at ran
      · cases ran
      · cases ran
        exact stays concat
    | false =>
      rw [flagged] at held concat
      unfold ownDefault at ran
      rw [held] at ran
      dsimp only at ran
      cases asks : placed.listen.isDefault with
      | false =>
        rw [asks] at ran concat
        cases ran
        exact stays concat
      | true =>
        rw [asks,if_pos rfl] at ran
        rw [asks] at concat
        cases ran
        refine @settled _ placed (fun address => ?_) concat
        by_cases same : address = placed.listen.address
        · rw [if_pos same,same,Ledger.find_replace held,asks]
        · rw [if_neg same,Ledger.find_replace_other same]

theorem defaultOwners_owned {servers : List ServerSpec} {owners : Owners} (ran : defaultOwners servers = .ok owners) :
    Owned (placedListens servers) owners := by
  have serverSteps (known : List Placed) (state : Owners) (entry : ServerSpec × Nat) (next : Owners) (holds : Owned known state)
      (ran : entry.1.listens.foldlM (ownDefault entry.2) state = .ok next) : Owned (known ++ placedOf entry) next := by
    have whole := foldlM_gathers (fun listen => [⟨entry.1,entry.2,listen⟩]) Owned
      (fun _ _ listen _ holds ran => ownDefault_owned holds ⟨entry.1,entry.2,listen⟩ ran) entry.1.listens holds ran
    rw [← List.map_eq_flatMap] at whole
    exact whole
  have empty : Owned [] [] := fun _ => rfl
  exact foldlM_gathers placedOf Owned serverSteps servers.zipIdx empty ran

end Owners

section Builds

/-- The certificate has the names and the files of the server. -/
structure CertificateOf (server : ServerSpec) (certificate : TlsCertificateConfig) : Prop where
  names : certificate.serverNames = server.names
  chain : server.certificate = some certificate.certificateChainFile
  key : server.privateKey = some certificate.privateKeyFile

/-- The certificate is the one that the directive brings. -/
structure Brings (placed : Placed) (certificate : TlsCertificateConfig) : Prop where
  kept : CertificateOf placed.server certificate
  flagged : certificate.isDefault = placed.listen.isDefault

/-- What has been built for an address out of the directives on it. -/
structure BuildOf (address : SocketAddr) (listens : List Placed) (build : ListenerBuild) : Prop where
  address : build.address = address
  alike : ∀ placed ∈ listens, placed.listen.tls = build.tls
  certificates : build.tls = true → List.Forall₂ Brings listens build.certificates
  flagged : build.tls = true → build.hasDefault = listens.any (·.listen.isDefault)

/-- What has been built for every address. -/
structure Gathered (given : List Placed) (builds : List (SocketAddr × ListenerBuild)) : Prop where
  distinct : (builds.map Prod.fst).Nodup
  holds : ∀ address build, Ledger.find address builds = some build →
    listensOn given address ≠ [] ∧ BuildOf address (listensOn given address) build
  known : ∀ placed ∈ given, (Ledger.find placed.listen.address builds).isSome

variable {given : List Placed} {placed : Placed} {address : SocketAddr} {listens : List Placed} {build after : ListenerBuild}

theorem buildCertificate_of (before : BuildOf address listens build) (same : build.tls = placed.listen.tls)
    (ran : buildCertificate placed.server placed.listen build = .ok after) : BuildOf address (listens ++ [placed]) after := by
  have alike {tls : Bool} (kept : tls = build.tls) : ∀ other ∈ listens ++ [placed], other.listen.tls = tls := by
    intro other member
    rcases List.mem_append.mp member with earlier | now
    · rw [before.alike other earlier,kept]
    · rw [List.mem_singleton.mp now,← same,kept]
  unfold buildCertificate at ran
  cases tls : placed.listen.tls with
  | false =>
    rw [tls] at ran same
    cases ran
    refine ⟨before.address,alike rfl,?_,?_⟩
    · intro secure
      rw [same] at secure
      cases secure
    · intro secure
      rw [same] at secure
      cases secure
  | true =>
    rw [tls] at ran same
    rw [if_neg (by decide)] at ran
    cases chain : placed.server.certificate with
    | none =>
      rw [chain] at ran
      cases ran
    | some certificate =>
      cases key : placed.server.privateKey with
      | none =>
        rw [chain,key] at ran
        cases ran
      | some privateKey =>
        rw [chain,key] at ran
        cases ran
        refine ⟨before.address,alike rfl,fun secure => ?_,fun secure => ?_⟩
        · exact List.rel_append (before.certificates secure) (.cons ⟨⟨rfl,chain,key⟩,rfl⟩ .nil)
        · dsimp only
          rw [before.flagged secure,List.any_append,List.any_cons,List.any_nil,Bool.or_false]

theorem buildListener_gathered {builds next : List (SocketAddr × ListenerBuild)} (gathered : Gathered given builds)
    (ran : buildListener placed.server builds placed.listen = .ok next) : Gathered (given ++ [placed]) next := by
  unfold buildListener at ran
  dsimp only at ran
  have before : BuildOf placed.listen.address (listensOn given placed.listen.address)
      ((Ledger.find placed.listen.address builds).getD ⟨placed.listen.address,placed.listen.tls,[],false⟩) := by
    cases found : Ledger.find placed.listen.address builds with
    | some build => exact (gathered.holds _ _ found).2
    | none =>
      -- no directive on the address has come before
      have fresh : listensOn given placed.listen.address = [] := by
        rw [listensOn,List.filter_eq_nil_iff]
        intro other member same
        have known := gathered.known other member
        rw [beq_iff_eq.mp same,found] at known
        cases known
      rw [fresh]
      exact ⟨rfl,fun _ member => absurd member List.not_mem_nil,fun _ => .nil,fun _ => rfl⟩
  split at ran
  · cases ran
  · rename_i same
    rw [not_not] at same
    obtain ⟨built,made,ran⟩ := except_bind ran
    cases ran
    have now := buildCertificate_of before same made
    refine ⟨?_,?_,?_⟩
    · split
      · rw [Ledger.keys_replace]
        exact gathered.distinct
      · rename_i absent
        rw [Option.not_isSome_iff_eq_none] at absent
        rw [List.map_cons,List.nodup_cons]
        exact ⟨Ledger.find_none absent,gathered.distinct⟩
    · intro address build found
      rw [Ledger.find_put] at found
      by_cases there : address = placed.listen.address
      · rw [if_pos there] at found
        cases found
        subst there
        rw [listensOn_concat_same]
        exact ⟨List.append_ne_nil_of_right_ne_nil _ (List.cons_ne_nil _ _),now⟩
      · rw [if_neg there] at found
        rw [listensOn_concat_other given there]
        exact gathered.holds address build found
    · intro other member
      rw [Ledger.find_put]
      split
      · rfl
      · rename_i elsewhere
        rcases List.mem_append.mp member with earlier | last
        · exact gathered.known other earlier
        · cases List.mem_singleton.mp last
          exact absurd rfl elsewhere

/-- The listeners of a translation are settled out of what was gathered for their addresses. -/
theorem listenerBuilds_gathered {servers : List ServerSpec} {builds : List ListenerBuild} (ran : listenerBuilds servers = .ok builds) :
    ∃ gathered, Gathered (placedListens servers) gathered ∧ builds = gathered.map fun entry => settleDefault entry.2 := by
  obtain ⟨gathered,gathers,made⟩ := except_bind ran
  cases made
  refine ⟨gathered,?_,rfl⟩
  have serverSteps (known : List Placed) (state : List (SocketAddr × ListenerBuild)) (entry : ServerSpec × Nat)
      (next : List (SocketAddr × ListenerBuild)) (holds : Gathered known state)
      (ran : entry.1.listens.foldlM (buildListener entry.1) state = .ok next) : Gathered (known ++ placedOf entry) next := by
    have whole := foldlM_gathers (fun listen => [⟨entry.1,entry.2,listen⟩]) Gathered
      (fun _ _ listen _ holds ran => @buildListener_gathered _ ⟨entry.1,entry.2,listen⟩ _ _ holds ran) entry.1.listens holds ran
    rw [← List.map_eq_flatMap] at whole
    exact whole
  have empty : Gathered [] [] := ⟨List.nodup_nil,fun _ _ found => (by cases found),fun _ member => absurd member List.not_mem_nil⟩
  rw [← List.zipIdx_map_fst 0 servers,List.foldlM_map] at gathers
  exact foldlM_gathers placedOf Gathered serverSteps servers.zipIdx empty gathers

theorem settleDefault_keeps (build : ListenerBuild) : (settleDefault build).address = build.address ∧
    (settleDefault build).tls = build.tls := by
  unfold settleDefault
  split
  · split
    · exact ⟨rfl,rfl⟩
    · exact ⟨rfl,rfl⟩
  · exact ⟨rfl,rfl⟩

theorem forall₂_mem {α β : Type} {related : α → β → Prop} {items : List α} {others : List β}
    (all : List.Forall₂ related items others) {item : α} (member : item ∈ items) : ∃ other ∈ others, related item other := by
  induction all with
  | nil => cases member
  | cons first rest ih =>
    rcases List.mem_cons.mp member with rfl | later
    · exact ⟨_,List.mem_cons_self,first⟩
    · obtain ⟨other,inside,holds⟩ := ih later
      exact ⟨other,List.mem_cons_of_mem _ inside,holds⟩

theorem settleDefault_of (held : BuildOf address listens build) (secure : build.tls = true) (some : listens ≠ []) :
    List.Forall₂ (fun placed => CertificateOf placed.server) listens (settleDefault build).certificates ∧
      ∃ placed certificate, defaultAmong listens = .some placed ∧ certificate ∈ (settleDefault build).certificates ∧
        certificate.isDefault = true ∧ CertificateOf placed.server certificate := by
  have all := held.certificates secure
  have flagged := held.flagged secure
  unfold settleDefault
  rw [secure]
  cases already : build.hasDefault with
  | true =>
    refine ⟨all.imp fun _ _ brings => brings.kept,?_⟩
    rw [already] at flagged
    obtain ⟨placed,found⟩ : ∃ placed, listens.find? (·.listen.isDefault) = .some placed := by
      rw [← Option.isSome_iff_exists,List.find?_isSome]
      exact List.any_eq_true.mp flagged.symm
    obtain ⟨certificate,member,brings⟩ := forall₂_mem all (List.mem_of_find?_eq_some found)
    have asks := List.find?_some found
    exact ⟨placed,certificate,by rw [defaultAmong,found]; rfl,member,brings.flagged.trans asks,brings.kept⟩
  | false =>
    rw [already] at flagged
    have none : listens.find? (·.listen.isDefault) = .none := by
      rw [List.find?_eq_none]
      intro placed member asks
      have any : listens.any (·.listen.isDefault) = true := List.any_eq_true.mpr ⟨placed,member,asks⟩
      rw [← flagged] at any
      cases any
    cases listens with
    | nil => exact absurd rfl some
    | cons first listens =>
      generalize build.certificates = certificates at all
      obtain ⟨certificate,rest,brings,others,rfl⟩ := List.forall₂_cons_left_iff.mp all
      have kept : CertificateOf first.server { certificate with isDefault := true } := ⟨brings.kept.names,brings.kept.chain,brings.kept.key⟩
      refine ⟨.cons kept (others.imp fun _ _ brings => brings.kept),first,_,?_,List.mem_cons_self,rfl,kept⟩
      rw [defaultAmong,none]
      rfl

end Builds

section Validated

variable {label : List UInt8}

/-- The names that the validation has seen. -/
structure NamesSeen (given names : List (List UInt8)) : Prop where
  distinct : given.Nodup
  seen : ∀ name, name ∈ names ↔ name ∈ given

theorem validateCertificate_seen {given names after : List (List UInt8)} {entry : TlsCertificateConfig × Nat}
    (before : NamesSeen given names) (ran : validateCertificate label names entry = .ok after) :
    NamesSeen (given ++ entry.1.serverNames) after := by
  obtain ⟨certificate,index⟩ := entry
  obtain ⟨_,-,ran⟩ := validation_bind ran
  obtain ⟨_,-,ran⟩ := validation_bind ran
  obtain ⟨_,-,ran⟩ := validation_bind ran
  have whole := foldlM_gathers (fun name => [name]) NamesSeen (fun given names name after before ran => ?_)
    certificate.serverNames before ran
  · rw [← List.map_eq_flatMap,List.map_id'] at whole
    exact whole
  · obtain ⟨_,-,ran⟩ := validation_bind ran
    obtain ⟨_,fresh,ran⟩ := validation_bind ran
    cases ran
    have fresh := require_holds fresh
    rw [Bool.not_eq_true',List.contains_eq_mem,decide_eq_false_iff_not,before.seen] at fresh
    refine ⟨List.nodup_append.mpr ⟨before.distinct,List.nodup_singleton _,?_⟩,fun other => ?_⟩
    · rintro other member _ now rfl
      rw [List.mem_singleton.mp now] at member
      exact fresh member
    · rw [List.mem_cons,List.mem_append,List.mem_singleton,before.seen other,or_comm]

theorem validateTlsSettings_distinct {settings : TlsConfig} (valid : validateTlsSettings label (some settings) = .ok ()) :
    settings.certificates.countP (·.isDefault) ≤ 1 ∧ (settings.certificates.flatMap (·.serverNames)).Nodup := by
  obtain ⟨_,-,valid⟩ := validation_bind valid
  obtain ⟨_,-,valid⟩ := validation_bind valid
  obtain ⟨_,-,valid⟩ := validation_bind valid
  obtain ⟨_,-,valid⟩ := validation_bind valid
  obtain ⟨names,seen,valid⟩ := validation_bind valid
  have single := of_decide_eq_true (require_holds valid)
  have empty : NamesSeen [] [] := ⟨List.nodup_nil,fun _ => Iff.rfl⟩
  have whole := foldlM_gathers (fun entry : TlsCertificateConfig × Nat => entry.1.serverNames) NamesSeen
    (fun _ _ _ _ before ran => validateCertificate_seen before ran) settings.certificates.zipIdx empty seen
  have listed : settings.certificates.zipIdx.flatMap (fun entry => entry.1.serverNames) =
      settings.certificates.flatMap (·.serverNames) := by
    conv_rhs => rw [← List.zipIdx_map_fst 0 settings.certificates,List.flatMap_map]
  rw [List.nil_append,listed] at whole
  exact ⟨by omega,whole.distinct⟩

/-- The listeners of a configuration, the first one among them. -/
def trafficListeners (config : Config) : List AdditionalListenerConfig :=
  ⟨config.listener.address,config.listener.tls⟩ :: config.listeners

theorem validateConfig_tls {isDirectory : List UInt8 → Bool} {config : Config}
    (valid : validateConfig isDirectory config = .ok ()) : ∀ listener ∈ trafficListeners config,
      ∃ label, validateTlsSettings label listener.tls = .ok () := by
  obtain ⟨_,valid,-⟩ := validation_bind valid
  obtain ⟨_,-,valid⟩ := validation_bind valid
  obtain ⟨_,-,valid⟩ := validation_bind valid
  obtain ⟨_,-,valid⟩ := validation_bind valid
  obtain ⟨_,-,valid⟩ := validation_bind valid
  obtain ⟨_,primary,valid⟩ := validation_bind valid
  obtain ⟨_,others,-⟩ := validation_bind valid
  intro listener member
  rcases List.mem_cons.mp member with rfl | later
  · exact ⟨_,primary⟩
  · obtain ⟨index,inside,rfl⟩ := List.getElem_of_mem later
    have entry : (config.listeners[index],index) ∈ config.listeners.zipIdx :=
      List.mem_zipIdx_iff_getElem?.mpr (List.getElem?_eq_getElem inside)
    obtain ⟨before,next,ran⟩ := foldlM_ok others _ entry
    obtain ⟨_,-,ran⟩ := validation_bind ran
    obtain ⟨_,-,ran⟩ := validation_bind ran
    obtain ⟨_,-,ran⟩ := validation_bind ran
    obtain ⟨_,checked,-⟩ := validation_bind ran
    exact ⟨_,checked⟩

theorem filter_names {certificates : List TlsCertificateConfig} (distinct : (certificates.flatMap (·.serverNames)).Nodup)
    {certificate : TlsCertificateConfig} (member : certificate ∈ certificates) (named : certificate.serverNames ≠ []) :
    certificates.filter (·.serverNames == certificate.serverNames) = [certificate] := by
  induction certificates with
  | nil => cases member
  | cons first rest ih =>
    rw [List.flatMap_cons,List.nodup_append] at distinct
    obtain ⟨-,others,apart⟩ := distinct
    have differs {later : TlsCertificateConfig} (inside : later ∈ rest) (some : later.serverNames ≠ []) :
        first.serverNames ≠ later.serverNames := by
      intro same
      obtain ⟨name,held⟩ := List.exists_mem_of_ne_nil _ some
      exact apart name (by rw [same]; exact held) name (List.mem_flatMap.mpr ⟨later,inside,held⟩) rfl
    rcases List.mem_cons.mp member with rfl | later
    · rw [List.filter_cons,if_pos (beq_self_eq_true _),List.cons_inj_right,List.filter_eq_nil_iff]
      intro later inside same
      rw [beq_iff_eq] at same
      exact differs inside (by rw [same]; exact named) same.symm
    · rw [List.filter_cons_of_neg (by rw [beq_iff_eq]; exact differs later named)]
      exact ih others later

end Validated

section Defaults

/-- The default routes of the configuration for TLS are those of the server. -/
structure OwnsDefault (config : Config) (server : ServerSpec) : Prop where
  installed : ∀ route ∈ scopedRoutes server (ascii "*") (ascii "https"), ∃ site ∈ config.sites, site.isDefault = true ∧
    route ∈ site.routes
  only : ∀ site ∈ config.sites, site.isDefault = true →
    site.routes.filter (·.schemes == [ascii "https"]) = scopedRoutes server (ascii "*") (ascii "https")

/-- The certificates of a listener belong to the servers that listen there, the default one to the owner of the default routes. -/
structure DefaultTogether (tree : List Directive) (config : Config) (address : SocketAddr)
    (certificates : List TlsCertificateConfig) : Prop where
  single : certificates.countP (·.isDefault) = 1
  owner : ∃ placed certificate, defaultAmong (listensOn (placedListens (treeServers tree)) address) = some placed ∧
    (Ledger.find address (treeOwners tree)).map Prod.fst = some placed.index ∧ certificate ∈ certificates ∧
      certificate.isDefault = true ∧ CertificateOf placed.server certificate ∧ OwnsDefault config placed.server
  listed : List.Forall₂ (fun placed => CertificateOf placed.server) (listensOn (placedListens (treeServers tree)) address) certificates
  named : ∀ server ∈ treeServers tree, server.names ≠ [] → (∃ listen ∈ server.listens, listen.address = address) →
    ∃ certificate, certificates.filter (·.serverNames == server.names) = [certificate] ∧ CertificateOf server certificate
  distinct : (certificates.flatMap (·.serverNames)).Nodup

variable {files : Files} {tree : List Directive} {config : Config} {http : Directive} {limit : Nat} {translation : Translation}
  {owners : Owners} {assembly : Assembly}

theorem default_offers {placed : Placed} (listening : placed.listen ∈ placed.server.listens) (secure : placed.listen.tls = true)
    (owned : (Ledger.find placed.listen.address owners).map Prod.fst = some placed.index) :
    ascii "https" ∈ schemesOf (placed.server.listens.filter fun listen =>
      (Ledger.find listen.address owners).any fun (owner,_) => owner == placed.index) := by
  rw [schemesOf,Ordered.mem_ordered,List.mem_map]
  refine ⟨placed.listen,List.mem_filter.mpr ⟨listening,?_⟩,by rw [ListenSpec.scheme,secure]; rfl⟩
  obtain ⟨⟨owner,flag⟩,held,same⟩ := Option.map_eq_some_iff.mp owned
  rw [held]
  exact beq_iff_eq.mpr same

theorem Translated.owns (passes : Translated files tree config http limit translation owners assembly) {placed : Placed}
    (member : placed ∈ placedListens (treeServers tree)) (secure : placed.listen.tls = true)
    (owned : (Ledger.find placed.listen.address owners).map Prod.fst = some placed.index) : OwnsDefault config placed.server := by
  obtain ⟨found,listening⟩ := mem_placedListens.mp member
  have kept := default_offers listening secure owned
  have answers : Answers owners (treeServers tree) placed.index placed.server (ascii "*") (ascii "https") := by
    refine ⟨found,_,List.mem_append_right _ ?_,kept⟩
    rw [List.isEmpty_eq_false_iff.mpr (List.ne_nil_of_mem kept)]
    exact List.mem_singleton.mpr rfl
  obtain ⟨-,schemes,scope,offered⟩ := answers
  constructor
  · intro route inside
    obtain ⟨site,there,shape,holds⟩ := passes.installs found scope offered inside
    exact ⟨site,there,congrArg SiteConfig.isDefault shape,holds⟩
  · intro site there isDefault
    obtain ⟨key,shape,-⟩ := passes.originates there
    have star : (key == ascii "*") = true := (congrArg SiteConfig.isDefault shape).symm.trans isDefault
    rw [beq_iff_eq.mp star] at shape
    exact passes.site_routes there shape ⟨found,schemes,scope,offered⟩

/-- The default certificate of a listener and the default routes of its address belong to one server, and every named server
there has one certificate. -/
theorem default_together (files : Files) (tree : List Directive) (config : Config) (translated : translate files tree = .ok config)
    (listener : AdditionalListenerConfig) (member : listener ∈ trafficListeners config) (settings : TlsConfig)
    (secure : listener.tls = some settings) : ∃ address, listener.address = displaySocketAddr address ∧
      DefaultTogether tree config address settings.certificates := by
  obtain ⟨http,limit,translation,owners,assembly,passes⟩ := translate_passes translated
  obtain ⟨builds,made⟩ := translate_built translated passes
  obtain ⟨gathered,invariant,rfl⟩ := listenerBuilds_gathered made.built
  obtain ⟨label,valid⟩ := validateConfig_tls passes.valid listener member
  rw [secure] at valid
  obtain ⟨few,distinct⟩ := validateTlsSettings_distinct valid
  rw [trafficListeners,made.listeners,builtListeners,List.mem_insertionSort,List.map_map] at member
  obtain ⟨⟨address,build⟩,inside,rfl⟩ := List.mem_map.mp member
  obtain ⟨some,held⟩ := invariant.holds address build ((Ledger.find_iff_mem invariant.distinct).mpr inside)
  obtain ⟨sameAddress,sameTls⟩ := settleDefault_keeps build
  have tls : build.tls = true := by
    change (if (settleDefault build).tls then _ else _) = _ at secure
    rw [sameTls] at secure
    cases tls : build.tls with
    | true => rfl
    | false =>
      rw [tls] at secure
      cases secure
  change (if (settleDefault build).tls then _ else _) = _ at secure
  rw [sameTls,tls] at secure
  cases secure
  obtain ⟨listed,placed,certificate,chosen,brought,flagged,kept⟩ := settleDefault_of held tls some
  obtain ⟨there,here⟩ := List.mem_filter.mp (defaultAmong_mem chosen)
  have owned := defaultOwners_owned passes.owned address
  rw [chosen] at owned
  refine ⟨address,congrArg displaySocketAddr (sameAddress.trans held.address),?_,?_,listed,?_,distinct⟩
  · exact Nat.le_antisymm few (List.countP_pos_iff.mpr ⟨certificate,brought,flagged⟩)
  · refine ⟨placed,certificate,chosen,?_,brought,flagged,kept,?_⟩
    · rw [passes.treeOwners_eq,owned]
      rfl
    · refine passes.owns there ((held.alike placed (defaultAmong_mem chosen)).trans tls) ?_
      rw [beq_iff_eq.mp here,owned]
      rfl
  · rintro server known named ⟨listen,listening,rfl⟩
    obtain ⟨index,within,rfl⟩ := List.getElem_of_mem known
    have placed : (⟨(treeServers tree)[index],index,listen⟩ : Placed) ∈ listensOn (placedListens (treeServers tree)) listen.address :=
      List.mem_filter.mpr ⟨mem_placedListens.mpr ⟨List.getElem?_eq_getElem within,listening⟩,beq_self_eq_true _⟩
    obtain ⟨certificate,brought,kept⟩ := forall₂_mem listed placed
    refine ⟨certificate,?_,kept⟩
    rw [← kept.names] at named ⊢
    exact filter_names distinct brought named

/-- Two servers with certificates on one address, the second of them the default one. -/
def securedTree : List Directive :=
  [blockDirective "events" [] [],blockDirective "http" []
    [blockDirective "server" [] [leafDirective "listen" ["127.0.0.1:8443","ssl"],
        leafDirective "server_name" ["app.example.test","www.example.test"],
        leafDirective "ssl_certificate" ["/tls/app.pem"],leafDirective "ssl_certificate_key" ["/tls/app.key"],
        blockDirective "location" ["/"] [leafDirective "return" ["200","app"]]],
      blockDirective "server" [] [leafDirective "listen" ["127.0.0.1:8443","ssl","default_server"],
        leafDirective "ssl_certificate" ["/tls/any.pem"],leafDirective "ssl_certificate_key" ["/tls/any.key"],
        blockDirective "location" ["/"] [leafDirective "return" ["200","any"]]]]]

theorem default_together_secured : ∃ config settings, translate openFiles securedTree = .ok config ∧
    config.listener.tls = some settings ∧ ∃ address, config.listener.address = displaySocketAddr address ∧
      DefaultTogether securedTree config address settings.certificates := by
  have secured : ((translate openFiles securedTree).toOption.bind (·.listener.tls)).isSome = true := by decide +kernel
  obtain ⟨settings,found⟩ := Option.isSome_iff_exists.mp secured
  cases translated : translate openFiles securedTree with
  | error fault =>
    rw [translated] at found
    cases found
  | ok config =>
    rw [translated] at found
    exact ⟨config,settings,rfl,found,
      default_together openFiles securedTree config translated ⟨config.listener.address,config.listener.tls⟩ List.mem_cons_self
        settings found⟩

end Defaults

end Polyguard.Nginx
