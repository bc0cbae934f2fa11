import Polyguard.Nginx.VirtualHosts

/-! The choice of a certificate by the server name.
The resolver looks for the name itself first and then for the longest wildcard above it.
That is the pattern that the choice of a route ranks highest, so that a name gets its
certificate and its site by one precedence. What loads a certificate is a parameter. -/
namespace Polyguard.Proxy
open Ascii Slices Nginx

section Resolver
variable {Key : Type}

structure ServerNameResolver (Key : Type) where
  exact : List (List UInt8 × Key)
  wildcard : List (List UInt8 × Key)
  fallback : Option Key
deriving DecidableEq, Repr

/-- A name ends in a dot and this suffix. -/
def suffixMatches (name suffix : List UInt8) : Bool :=
  name.length > suffix.length && suffix.isSuffixOf name && name[name.length - suffix.length - 1]? == some 0x2e

def ServerNameResolver.resolve (resolver : ServerNameResolver Key) : Option (List UInt8) → Option Key
  | none => resolver.fallback
  | some name =>
    let name := name.map toAsciiLowercase
    match Ledger.find name resolver.exact with
    | some certificate => some certificate
    | none => ((resolver.wildcard.find? fun entry => suffixMatches name entry.1).map (·.2)).or resolver.fallback

/-- A name of a certificate goes to the wildcards or to the exact names. -/
def addName (key : Key) (resolver : ServerNameResolver Key) (name : List UInt8) : ServerNameResolver Key :=
  match wildcardSuffix name with
  | some suffix => { resolver with wildcard := resolver.wildcard ++ [(suffix,key)] }
  | none => { resolver with exact := (name,key) :: resolver.exact }

variable (load : List UInt8 → List UInt8 → Option Key)

/-- The round of `load_tls_config` for one certificate. -/
def addCertificate (resolver : ServerNameResolver Key) (certificate : TlsCertificateConfig) : Option (ServerNameResolver Key) := do
  let key ← load certificate.certificateChainFile certificate.privateKeyFile
  let resolver := certificate.serverNames.foldl (addName key) resolver
  return if certificate.isDefault then { resolver with fallback := some key } else resolver

/-- The certificate of the settings themselves, if they have one. -/
def settingsKey (settings : TlsConfig) : Option (Option Key) :=
  if settings.certificateChainFile.isEmpty then some none
  else (load settings.certificateChainFile settings.privateKeyFile).map some

/-- The resolver of the settings; the sort is stable and has the longest wildcards first. -/
def loadResolver (settings : TlsConfig) : Option (ServerNameResolver Key) := do
  let fallback ← settingsKey load settings
  let resolver ← settings.certificates.foldlM (addCertificate load) ⟨[],[],fallback⟩
  return { resolver with wildcard := resolver.wildcard.insertionSort fun left right => right.1.length ≤ left.1.length }

end Resolver

section Loading
variable {Key : Type} {load : List UInt8 → List UInt8 → Option Key}

def certificateNames (certificates : List TlsCertificateConfig) : List (List UInt8) := certificates.flatMap (·.serverNames)

/-- A certificate with this name, and the key that is loaded for it. -/
def Bears (load : List UInt8 → List UInt8 → Option Key) (certificates : List TlsCertificateConfig) (name : List UInt8) (key : Key) : Prop :=
  ∃ certificate ∈ certificates, name ∈ certificate.serverNames ∧
    load certificate.certificateChainFile certificate.privateKeyFile = some key

/-- The key of the default certificate: the last that is marked, else the one of the settings themselves. -/
def defaultKey (load : List UInt8 → List UInt8 → Option Key) (settings : TlsConfig) : Option Key :=
  match settings.certificates.reverse.find? (·.isDefault) with
  | some certificate => load certificate.certificateChainFile certificate.privateKeyFile
  | none => if settings.certificateChainFile.isEmpty then none else load settings.certificateChainFile settings.privateKeyFile

def exactEntry (entry : List UInt8 × Key) : Bool := (wildcardSuffix entry.1).isNone

def wildcardEntry (entry : List UInt8 × Key) : Option (List UInt8 × Key) := (wildcardSuffix entry.1).map (·,entry.2)

/-- The resolver holds these entries behind those of another one. -/
structure Holds (before after : ServerNameResolver Key) (entries : List (List UInt8 × Key)) : Prop where
  exact : after.exact = (entries.filter exactEntry).reverse ++ before.exact
  wildcard : after.wildcard = before.wildcard ++ entries.filterMap wildcardEntry

theorem Holds.trans {first second third : ServerNameResolver Key} {front back : List (List UInt8 × Key)}
    (begun : Holds first second front) (ended : Holds second third back) : Holds first third (front ++ back) := by
  constructor
  · rw [ended.exact,begun.exact,List.filter_append,List.reverse_append,List.append_assoc]
  · rw [ended.wildcard,begun.wildcard,List.filterMap_append,List.append_assoc]

theorem addName_holds (key : Key) (resolver : ServerNameResolver Key) (name : List UInt8) :
    Holds resolver (addName key resolver name) [(name,key)] ∧ (addName key resolver name).fallback = resolver.fallback := by
  unfold addName
  cases wild : wildcardSuffix name with
  | none => exact ⟨⟨by simp [exactEntry,wild],by simp [wildcardEntry,wild]⟩,rfl⟩
  | some suffix => exact ⟨⟨by simp [exactEntry,wild],by simp [wildcardEntry,wild]⟩,rfl⟩

theorem addNames_holds (key : Key) (names : List (List UInt8)) (resolver : ServerNameResolver Key) :
    Holds resolver (names.foldl (addName key) resolver) (names.map (·,key)) ∧
      (names.foldl (addName key) resolver).fallback = resolver.fallback := by
  induction names generalizing resolver with
  | nil => exact ⟨⟨rfl,by simp⟩,rfl⟩
  | cons name names ih =>
    obtain ⟨first,kept⟩ := addName_holds key resolver name
    obtain ⟨rest,same⟩ := ih (addName key resolver name)
    exact ⟨first.trans rest,same.trans kept⟩

theorem addCertificates_holds {certificates : List TlsCertificateConfig} {before after : ServerNameResolver Key}
    (ran : certificates.foldlM (addCertificate load) before = some after) : ∃ entries : List (List UInt8 × Key),
      Holds before after entries ∧ entries.map Prod.fst = certificateNames certificates ∧
      (∀ name key, (name,key) ∈ entries ↔ Bears load certificates name key) ∧
      after.fallback = match certificates.reverse.find? (·.isDefault) with
        | some certificate => load certificate.certificateChainFile certificate.privateKeyFile
        | none => before.fallback := by
  induction certificates generalizing before with
  | nil =>
    cases ran
    exact ⟨[],⟨rfl,by simp⟩,rfl,by simp [Bears],rfl⟩
  | cons certificate certificates ih =>
    rw [List.foldlM_cons,Option.bind_eq_bind,Option.bind_eq_some_iff] at ran
    obtain ⟨middle,added,ran⟩ := ran
    unfold addCertificate at added
    simp only [Option.bind_eq_bind,Option.bind_eq_some_iff] at added
    obtain ⟨key,loaded,made⟩ := added
    obtain ⟨first,kept⟩ := addNames_holds key certificate.serverNames before
    obtain ⟨entries,rest,named,borne,last⟩ := ih ran
    have begun : Holds before middle (certificate.serverNames.map (·,key)) := by
      cases Option.some.inj made
      split
      · exact ⟨first.exact,first.wildcard⟩
      · exact first
    have fallback : middle.fallback = if certificate.isDefault then some key else before.fallback := by
      cases Option.some.inj made
      split
      · rfl
      · exact kept
    refine ⟨_,begun.trans rest,?_,fun name held => ?_,?_⟩
    · rw [List.map_append,named,List.map_map]
      change certificate.serverNames.map id ++ _ = _
      rw [List.map_id]
      rfl
    · rw [List.mem_append,borne,Bears,Bears,List.exists_mem_cons_iff,loaded]
      refine or_congr ?_ Iff.rfl
      rw [List.mem_map]
      constructor
      · rintro ⟨listed,member,same⟩
        cases same
        exact ⟨member,rfl⟩
      · rintro ⟨member,same⟩
        cases same
        exact ⟨name,member,rfl⟩
    · rw [last,List.reverse_cons,List.find?_append]
      cases certificates.reverse.find? (·.isDefault) with
      | some found => rfl
      | none =>
        rw [fallback]
        cases marked : certificate.isDefault with
        | true => simp [marked,loaded]
        | false => simp [marked]

end Loading

section Patterns

theorem wildcard_star {pattern suffix : List UInt8} (wild : wildcardSuffix pattern = some suffix) : pattern ≠ ascii "*" := by
  rintro rfl
  cases wild

theorem validSniPattern_lower {pattern : List UInt8} (valid : validSniPattern pattern) :
    pattern.map toAsciiLowercase = pattern ∧ pattern ≠ ascii "*" := by
  have lower := forall_byte (p := fun b => isAsciiLowercase b || isAsciiDigit b || b == 0x2d → toAsciiLowercase b = b) (by decide)
  simp only [validSniPattern,Bool.and_eq_true] at valid
  have host : ∀ b ∈ (stripPrefix (ascii "*.") pattern).getD pattern, toAsciiLowercase b = b := by
    intro b member
    rcases splitOn_mem 0x2e member with rfl | ⟨label,among,within⟩
    · decide
    · have each := List.all_eq_true.mp valid.2 label among
      simp only [Bool.and_eq_true] at each
      exact lower b (List.all_eq_true.mp each.2 b within)
  have mapped {text : List UInt8} (each : ∀ b ∈ text, toAsciiLowercase b = b) : text.map toAsciiLowercase = text :=
    (List.map_congr_left each).trans (List.map_id text)
  constructor
  · cases wild : wildcardSuffix pattern with
    | none =>
      rw [show stripPrefix (ascii "*.") pattern = none from wild] at host
      exact mapped host
    | some suffix =>
      rw [show stripPrefix (ascii "*.") pattern = some suffix from wild] at host
      change ∀ b ∈ suffix, _ at host
      rw [wildcardSuffix_eq wild,List.map_append,mapped host]
      rfl
  · rintro rfl
    revert valid
    decide

theorem runtimeHostMatches_suffix {pattern suffix name : List UInt8} (wild : wildcardSuffix pattern = some suffix) :
    runtimeHostMatches pattern name = suffixMatches name suffix := by
  rw [runtimeHostMatches,if_neg fun same => wildcard_star wild (beq_iff_eq.mp same),wild]
  rfl

/-- Of the listed patterns that match a name, one that none of the others outranks. -/
structure BestPattern (patterns : List (List UInt8)) (name pattern : List UInt8) : Prop where
  listed : pattern ∈ patterns
  matched : runtimeHostMatches pattern name
  highest : ∀ other ∈ patterns, runtimeHostMatches other name →
    ¬ moreSpecific (runtimeHostSpecificity other) (runtimeHostSpecificity pattern)

theorem bestPattern_unique {patterns : List (List UInt8)} (accepted : ∀ pattern ∈ patterns, validSniPattern pattern)
    {name left right : List UInt8} (leftBest : BestPattern patterns name left) (rightBest : BestPattern patterns name right) :
    left = right := by
  apply matching_unique (validSniPattern_lower (accepted left leftBest.listed)).1 (validSniPattern_lower (accepted right rightBest.listed)).1
    leftBest.matched rightBest.matched
  have above := leftBest.highest right rightBest.listed rightBest.matched
  have below := rightBest.highest left leftBest.listed leftBest.matched
  simp only [moreSpecific,Bool.or_eq_true,Bool.and_eq_true,decide_eq_true_eq,beq_iff_eq,not_or,not_and] at above below
  apply Prod.ext
  · omega
  · have classes : (runtimeHostSpecificity left).1 = (runtimeHostSpecificity right).1 := by omega
    have shorter := above.2 classes.symm
    have longer := below.2 classes
    omega

end Patterns

section Precedence
variable {Key : Type} {load : List UInt8 → List UInt8 → Option Key} {settings : TlsConfig} {resolver : ServerNameResolver Key}

/-- What the loaded resolver holds. -/
structure Loaded (load : List UInt8 → List UInt8 → Option Key) (settings : TlsConfig) (resolver : ServerNameResolver Key) : Prop where
  exact : ∀ name key, Ledger.find name resolver.exact = some key ↔ wildcardSuffix name = none ∧ Bears load settings.certificates name key
  wildcard : ∀ suffix key, (suffix,key) ∈ resolver.wildcard ↔
    ∃ name, wildcardSuffix name = some suffix ∧ Bears load settings.certificates name key
  longest : resolver.wildcard.Pairwise fun left right => right.1.length ≤ left.1.length
  fallback : resolver.fallback = defaultKey load settings
  borne : ∀ name ∈ certificateNames settings.certificates, ∃ key, Bears load settings.certificates name key
  single : ∀ name left right, Bears load settings.certificates name left → Bears load settings.certificates name right → left = right

theorem loadResolver_loaded (distinct : (certificateNames settings.certificates).Nodup) (made : loadResolver load settings = some resolver) :
    Loaded load settings resolver := by
  unfold loadResolver at made
  simp only [Option.bind_eq_bind,Option.bind_eq_some_iff] at made
  obtain ⟨fallback,first,plain,ran,made⟩ := made
  cases Option.some.inj made
  obtain ⟨entries,holds,named,borne,last⟩ := addCertificates_holds ran
  have unique : (entries.map Prod.fst).Nodup := named ▸ distinct
  constructor
  · intro name key
    have exacts : plain.exact = (entries.filter exactEntry).reverse := holds.exact.trans (List.append_nil _)
    have apart : ((entries.filter exactEntry).reverse.map Prod.fst).Nodup := by
      rw [List.map_reverse,List.nodup_reverse]
      exact unique.sublist (List.filter_sublist.map _)
    dsimp only
    rw [exacts,Ledger.find_iff_mem apart,List.mem_reverse,List.mem_filter,borne,exactEntry,Option.isNone_iff_eq_none]
    exact and_comm
  · intro suffix key
    rw [List.mem_insertionSort,holds.wildcard,List.nil_append,List.mem_filterMap]
    constructor
    · rintro ⟨⟨name,held⟩,member,wild⟩
      obtain ⟨found,stripped,same⟩ := Option.map_eq_some_iff.mp wild
      cases same
      exact ⟨name,stripped,(borne _ _).mp member⟩
    · rintro ⟨name,wild,bears⟩
      refine ⟨(name,key),(borne _ _).mpr bears,?_⟩
      rw [wildcardEntry,wild]
      rfl
  · have total : Std.Total fun left right : List UInt8 × Key => right.1.length ≤ left.1.length :=
      ⟨fun left right => Nat.le_total right.1.length left.1.length⟩
    have trans : IsTrans (List UInt8 × Key) fun left right => right.1.length ≤ left.1.length :=
      ⟨fun first second third before after => after.trans before⟩
    exact List.pairwise_insertionSort _ _
  · dsimp only
    rw [last,defaultKey]
    cases settings.certificates.reverse.find? (·.isDefault) with
    | some certificate => rfl
    | none =>
      unfold settingsKey at first
      split at first
      · rename_i nothing
        cases first
        rw [if_pos nothing]
      · rename_i given
        obtain ⟨key,loaded,same⟩ := Option.map_eq_some_iff.mp first
        rw [if_neg given,loaded]
        exact same.symm
  · intro name member
    rw [← named,List.mem_map] at member
    obtain ⟨⟨held,key⟩,member,rfl⟩ := member
    exact ⟨key,(borne _ _).mp member⟩
  · intro name left right bears another
    exact congrArg Prod.snd (List.inj_on_of_nodup_map unique ((borne _ _).mpr bears) ((borne _ _).mpr another) rfl)

theorem bears_listed {certificates : List TlsCertificateConfig} {name : List UInt8} {key : Key} (bears : Bears load certificates name key) :
    name ∈ certificateNames certificates := by
  obtain ⟨certificate,member,listed,-⟩ := bears
  exact List.mem_flatMap.mpr ⟨certificate,member,listed⟩

theorem exact_matches {pattern name : List UInt8} (valid : validSniPattern pattern) (exact : wildcardSuffix pattern = none)
    (lower : name.map toAsciiLowercase = name) : runtimeHostMatches pattern name ↔ pattern = name := by
  obtain ⟨small,named⟩ := validSniPattern_lower valid
  rw [runtimeHostMatches_exact named exact,eqIgnoreAsciiCase_iff,small,lower]

theorem resolve_best (loaded : Loaded load settings resolver) (accepted : ∀ pattern ∈ certificateNames settings.certificates, validSniPattern pattern)
    {name : List UInt8} (lower : name.map toAsciiLowercase = name) :
    (∃ pattern key, BestPattern (certificateNames settings.certificates) name pattern ∧ Bears load settings.certificates pattern key ∧
      resolver.resolve (some name) = some key) ∨
    ((∀ pattern ∈ certificateNames settings.certificates, ¬ runtimeHostMatches pattern name) ∧
      resolver.resolve (some name) = defaultKey load settings) := by
  have rank {pattern suffix : List UInt8} (wild : wildcardSuffix pattern = some suffix) : runtimeHostSpecificity pattern = (1,suffix.length) := by
    rw [runtimeHostSpecificity,if_neg fun same => wildcard_star wild (beq_iff_eq.mp same),wild]
  have exactRank {pattern : List UInt8} (valid : validSniPattern pattern) (exact : wildcardSuffix pattern = none) :
      runtimeHostSpecificity pattern = (2,pattern.length) := by
    rw [runtimeHostSpecificity,if_neg fun same => (validSniPattern_lower valid).2 (beq_iff_eq.mp same),exact]
  unfold ServerNameResolver.resolve
  dsimp only
  rw [lower]
  cases direct : Ledger.find name resolver.exact with
  | some key =>
    obtain ⟨exact,bears⟩ := (loaded.exact name key).mp direct
    have listed := bears_listed bears
    refine .inl ⟨name,key,⟨listed,(exact_matches (accepted name listed) exact lower).mpr rfl,fun other member matched => ?_⟩,bears,rfl⟩
    rw [exactRank (accepted name listed) exact]
    cases wild : wildcardSuffix other with
    | some suffix =>
      rw [rank wild]
      simp [moreSpecific]
    | none =>
      obtain rfl := (exact_matches (accepted other member) wild lower).mp matched
      rw [exactRank (accepted other member) wild]
      simp [moreSpecific]
  | none =>
    have inexact : ∀ pattern ∈ certificateNames settings.certificates, runtimeHostMatches pattern name →
        ∃ suffix, wildcardSuffix pattern = some suffix := by
      intro pattern member matched
      cases wild : wildcardSuffix pattern with
      | some suffix => exact ⟨suffix,rfl⟩
      | none =>
        obtain rfl := (exact_matches (accepted pattern member) wild lower).mp matched
        obtain ⟨key,bears⟩ := loaded.borne pattern member
        rw [(loaded.exact pattern key).mpr ⟨wild,bears⟩] at direct
        cases direct
    cases found : resolver.wildcard.find? fun entry => suffixMatches name entry.1 with
    | some entry =>
      obtain ⟨suffix,key⟩ := entry
      obtain ⟨pattern,wild,bears⟩ := (loaded.wildcard suffix key).mp (List.mem_of_find?_eq_some found)
      have hit := List.find?_some found
      refine .inl ⟨pattern,key,⟨bears_listed bears,?_,fun other member matched => ?_⟩,bears,rfl⟩
      · rw [runtimeHostMatches_suffix wild]
        exact hit
      · obtain ⟨rest,other'⟩ := inexact other member matched
        obtain ⟨held,borne⟩ := loaded.borne other member
        have among := (loaded.wildcard rest held).mpr ⟨other,other',borne⟩
        rw [runtimeHostMatches_suffix other'] at matched
        obtain ⟨-,before,after,parts,missed⟩ := List.find?_eq_some_iff_append.mp found
        have shorter : rest.length ≤ suffix.length := by
          have order := loaded.longest
          rw [parts] at among order
          rcases List.mem_append.mp among with early | late
          · have missed := missed _ early
            rw [matched] at missed
            cases missed
          · rcases List.mem_cons.mp late with same | later
            · cases same
              exact Nat.le_refl _
            · exact (List.pairwise_cons.mp (List.pairwise_append.mp order).2.1).1 _ later
        rw [rank wild,rank other']
        simp only [moreSpecific,Bool.or_eq_true,Bool.and_eq_true,decide_eq_true_eq,beq_iff_eq]
        omega
    | none =>
      refine .inr ⟨fun pattern member matched => ?_,loaded.fallback⟩
      obtain ⟨suffix,wild⟩ := inexact pattern member matched
      obtain ⟨key,bears⟩ := loaded.borne pattern member
      have missed := List.find?_eq_none.mp found _ ((loaded.wildcard suffix key).mpr ⟨pattern,wild,bears⟩)
      rw [runtimeHostMatches_suffix wild] at matched
      exact missed matched

/-- The certificate of a name is one of the pattern that ranks highest for it, which is the only one, and without a pattern it is the
default one. -/
theorem resolver_precedence (distinct : (certificateNames settings.certificates).Nodup)
    (accepted : ∀ pattern ∈ certificateNames settings.certificates, validSniPattern pattern) (made : loadResolver load settings = some resolver)
    {name : List UInt8} (lower : name.map toAsciiLowercase = name) :
    ((∃ pattern ∈ certificateNames settings.certificates, runtimeHostMatches pattern name) → ∃ pattern key,
      BestPattern (certificateNames settings.certificates) name pattern ∧
      (∀ other, BestPattern (certificateNames settings.certificates) name other → other = pattern) ∧
      Bears load settings.certificates pattern key ∧ resolver.resolve (some name) = some key) ∧
    (resolver.resolve (some name) = defaultKey load settings ↔
      (∀ pattern ∈ certificateNames settings.certificates, ¬ runtimeHostMatches pattern name) ∨
        ∃ pattern key, BestPattern (certificateNames settings.certificates) name pattern ∧ Bears load settings.certificates pattern key ∧
          defaultKey load settings = some key) := by
  have loaded := loadResolver_loaded distinct made
  constructor
  · rintro ⟨listed,member,matched⟩
    rcases resolve_best loaded accepted lower with ⟨pattern,key,best,bears,resolved⟩ | ⟨none,-⟩
    · exact ⟨pattern,key,best,fun other another => bestPattern_unique accepted another best,bears,resolved⟩
    · exact absurd matched (none listed member)
  · rcases resolve_best loaded accepted lower with ⟨pattern,key,best,bears,resolved⟩ | ⟨none,resolved⟩
    · constructor
      · exact fun same => .inr ⟨pattern,key,best,bears,same ▸ resolved⟩
      · rintro (none | ⟨other,held,another,borne,same⟩)
        · exact absurd best.matched (none pattern best.listed)
        · obtain rfl := bestPattern_unique accepted another best
          rw [resolved,same,loaded.single other key held bears borne]
    · exact ⟨fun _ => .inl none,fun _ => resolved⟩

/-- A default certificate with names of its own, and one for a deeper wildcard. -/
def nestedSettings : TlsConfig :=
  ⟨[],[],[⟨[ascii "a.test",ascii "*.b.test"],ascii "a.pem",ascii "a.key",true⟩,⟨[ascii "*.c.b.test"],ascii "c.pem",ascii "c.key",false⟩]⟩

def nestedResolver : ServerNameResolver (List UInt8) :=
  ⟨[(ascii "a.test",ascii "a.pem")],[(ascii "c.b.test",ascii "c.pem"),(ascii "b.test",ascii "a.pem")],some (ascii "a.pem")⟩

theorem resolver_precedence_nested : ∃ pattern key,
    BestPattern (certificateNames nestedSettings.certificates) (ascii "x.c.b.test") pattern ∧
      (∀ other, BestPattern (certificateNames nestedSettings.certificates) (ascii "x.c.b.test") other → other = pattern) ∧
      Bears (fun chain _ => some chain) nestedSettings.certificates pattern key ∧
      nestedResolver.resolve (some (ascii "x.c.b.test")) = some key := by
  have precedence := @resolver_precedence (List UInt8) (fun chain _ => some chain) nestedSettings nestedResolver (by decide +kernel)
    (by decide +kernel) (by decide +kernel) (ascii "x.c.b.test") (by decide +kernel)
  exact precedence.1 ⟨ascii "*.b.test",by decide +kernel,by decide +kernel⟩

/-- The certificate of a name that matches can be the default one. -/
theorem default_of_matched_name : validateTlsSettings (ascii "tls") (some nestedSettings) = .ok () ∧
    loadResolver (fun chain _ => some chain) nestedSettings = some nestedResolver ∧
    ¬ (nestedResolver.resolve (some (ascii "a.test")) = defaultKey (fun chain _ => some chain) nestedSettings ↔
      ∀ pattern ∈ certificateNames nestedSettings.certificates, ¬ runtimeHostMatches pattern (ascii "a.test")) := by
  decide +kernel

end Precedence
end Polyguard.Proxy
