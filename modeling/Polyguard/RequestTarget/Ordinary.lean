import Polyguard.RequestTarget.Canonical

/-! What every accepted target promises about its routing path.
The segments of a routing path are ordinary, in all four forms of a target; a path is
written with settled segments, whichever implementation normalized it. -/
namespace Polyguard.RequestTargetAgreement
open Ascii Slices TargetBytes Decimal RequestTarget RequestLineAgreement

section Dialects

theorem normalized_dialect {normalizer : RequestLine → Result NormalizedTarget} (registered : normalizer ∈ requestTargetImplementations)
    {request : RequestLine} (produced : Produced request) {target : NormalizedTarget} (accepted : normalizer request = .ok target) :
    (0x5c : UInt8) ∉ request.target ∧ ∃ dialect ∈ [common,eager,terse], normalize dialect request = .ok target := by
  by_cases typed : normalizer = RequestTargetTypedMatrix.normalizeRequestTarget
  · subst typed
    have clean := typed_clean produced accepted
    rw [typed_reference produced clean] at accepted
    exact ⟨clean,terse,by simp,accepted⟩
  · have others : normalizer ∈ [RequestTargetRules.normalizeRequestTarget,RequestTargetValidatedPipeline.normalizeRequestTarget,
        RequestTargetInvariantOffsets.normalizeRequestTarget,RequestTargetComposableValidators.normalizeRequestTarget] := by
      simp only [requestTargetImplementations,List.mem_cons,List.not_mem_nil,or_false] at registered ⊢
      tauto
    have clean := enveloped_clean others produced accepted
    simp only [List.mem_cons,List.not_mem_nil,or_false] at others
    rcases others with rfl | rfl | rfl | rfl
    · exact ⟨clean,common,by simp,(rules_follows request produced clean).symm.trans accepted⟩
    · exact ⟨clean,common,by simp,(pipeline_follows request produced clean).symm.trans accepted⟩
    · exact ⟨clean,eager,by simp,(offsets_follows request produced clean).symm.trans accepted⟩
    · exact ⟨clean,common,by simp,(composable_follows request produced clean).symm.trans accepted⟩

end Dialects

section Paths

/-- A path written with settled segments, and its query behind it. -/
structure SettledTarget (target : NormalizedTarget) : Prop where
  path : ∃ segments, segments ≠ [] ∧ (∀ segment ∈ segments, Settled segment) ∧ target.routingPath = joined segments
  query : ∃ query, target.pathAndQuery = target.routingPath ++ query
  bounded : target.pathAndQuery.length ≤ targetLimit

theorem withQuery_behind (routing : List UInt8) (query : Option (List Token)) : ∃ behind, withQuery routing query = routing ++ behind := by
  cases query with
  | none => exact ⟨[],(List.append_nil routing).symm⟩
  | some parts => exact ⟨_,rfl⟩

theorem dialect_settled {dialect : Dialect} (known : dialect ∈ [common,eager,terse]) {value pathAndQuery routing : List UInt8}
    (text : PathText value) (read : dialect.path value = .ok (pathAndQuery,routing)) :
    (∃ segments, segments ≠ [] ∧ (∀ segment ∈ segments, Settled segment) ∧ routing = joined segments) ∧
      (∃ query, pathAndQuery = routing ++ query) ∧ pathAndQuery.length ≤ targetLimit := by
  obtain ⟨path,question,split,visible,-,-⟩ := text.parts
  have inPath : (0x3f : UInt8) ∉ path := by
    rcases splitQuery_cases value with ⟨absent,same⟩ | ⟨front,back,-,absent,same⟩
    · rw [split] at same
      cases same
      exact fun member => absent (List.mem_cons_of_mem _ member)
    · rw [split] at same
      cases same
      exact fun member => absent (List.mem_cons_of_mem _ member)
  have canonical (read : canonicalTarget value = .ok (pathAndQuery,routing)) :
      (∃ segments, segments ≠ [] ∧ (∀ segment ∈ segments, Settled segment) ∧ routing = joined segments) ∧
        (∃ query, pathAndQuery = routing ++ query) ∧ pathAndQuery.length ≤ targetLimit := by
    have bounded := (canonicalTarget_length text read).1
    obtain ⟨parts,kept,query,tokenized,walked,-,rfl,rfl⟩ := canonicalTarget_parts read
    rw [split,List.drop_one,List.tail_cons] at tokenized
    exact ⟨⟨_,settle_ne_nil (segmentsOf_ne_nil parts) [] walked,settle_all tokenized inPath visible walked,rfl⟩,
      withQuery_behind _ query,bounded⟩
  simp only [List.mem_cons,List.not_mem_nil,or_false] at known
  rcases known with rfl | rfl | rfl
  · exact canonical read
  · exact canonical (eager_canonical.mp read)
  · have bounded := terseTarget_length text read
    obtain ⟨parts,tokenized,read⟩ := bind_success read
    obtain ⟨kept,walked,read⟩ := bind_success read
    obtain ⟨query,-,read⟩ := bind_success read
    have opened := rooted_ok walked
    rw [split,List.drop_one,List.tail_cons] at tokenized
    cases read
    refine ⟨?_,withQuery_behind _ query,bounded⟩
    split
    · rename_i loses
      have some : kept ≠ [] := by
        rintro rfl
        simp [losesSlash] at loses
      exact ⟨kept,some,kept_settled tokenized inPath visible opened,rfl⟩
    · exact ⟨_,settle_ne_nil (segmentsOf_ne_nil parts) [] opened,settle_all tokenized inPath visible opened,rfl⟩

theorem normalized_settled {normalizer : RequestLine → Result NormalizedTarget} (registered : normalizer ∈ requestTargetImplementations)
    {request : RequestLine} (produced : Produced request) {target : NormalizedTarget} (accepted : normalizer request = .ok target)
    (pathed : target.form = .origin ∨ target.form = .absolute) : SettledTarget target := by
  obtain ⟨clean,dialect,known,accepted⟩ := normalized_dialect registered produced accepted
  obtain ⟨text,read⟩ := normalize_path produced clean accepted pathed
  obtain ⟨path,query,bounded⟩ := dialect_settled known text read
  exact ⟨path,query,bounded⟩

theorem splitOn_joined {segments : List (List UInt8)} (some : segments ≠ []) (settled : ∀ segment ∈ segments, Settled segment) :
    (joined segments).splitOn 0x2f = [] :: segments := by
  rw [joined_intercalate some,List.splitOn_cons_eq_if_modifyHead,beq_self_eq_true,if_pos rfl,
    List.splitOn_intercalate 0x2f (fun segment member => (settled segment member).plain) some]

end Paths

section Forms

/-- A segment that names something below a directory: no dots that lead elsewhere, and no zero byte. -/
structure Ordinary (segment : List UInt8) : Prop where
  named : isDotSegment segment = false
  filled : (0 : UInt8) ∉ segment

theorem Settled.isOrdinary {segment : List UInt8} (settled : Settled segment) : Ordinary segment :=
  ⟨settled.ordinary,fun member => absurd (settled.visible 0 member).1 (by decide)⟩

theorem namedHost_lowercase {host name : List UInt8} (read : namedHost host = some name) :
    ∀ b ∈ name, ∃ c ∈ host, toAsciiLowercase c = b := by
  simp only [namedHost] at read
  split at read
  · cases read
  · cases read
    intro b member
    obtain ⟨c,inside,rfl⟩ := List.mem_map.mp member
    refine ⟨c,?_,rfl⟩
    unfold stripSuffix at inside
    split at inside
    · exact (List.dropLast_sublist host).mem inside
    · exact inside

theorem lowercase_inside {byte : UInt8} (inside : isAuthorityByte byte) : isAuthorityByte (toAsciiLowercase byte) := by
  revert inside
  exact forall_byte (p := fun b => isAuthorityByte b → isAuthorityByte (toAsciiLowercase b)) (by decide) byte

theorem readAuthority_host {required : Bool} {text host : List UInt8} {port : Option (List UInt8)}
    (accepted : readAuthority required text = some (host,port)) : ∀ b ∈ host, isAuthorityByte b := by
  have inside := readAuthority_inside accepted
  obtain ⟨read,-⟩ := Option.filter_eq_some_iff.mp accepted
  have lowered {part : List UInt8} (within : ∀ c ∈ part, c ∈ text) (b : UInt8) (member : ∃ c ∈ part, toAsciiLowercase c = b) :
      isAuthorityByte b := by
    obtain ⟨c,held,rfl⟩ := member
    exact lowercase_inside (inside c (within c held))
  rcases host_cases text with ⟨inner,rfl,absent⟩ | ⟨address,suffix,rfl,absent⟩ | ⟨named,absent⟩ |
    ⟨front,back,named,rfl,inHost,inPort⟩ | ⟨front,middle,back,named,rfl,inHost,inPort⟩
  · rw [readHost_open absent] at read
    cases read
  · rw [readHost_closed absent] at read
    split at read
    · cases read
    · obtain ⟨port,-,same⟩ := Option.map_eq_some_iff.mp read
      cases same
      intro b member
      rcases List.mem_cons.mp member with rfl | member
      · decide
      · rcases List.mem_append.mp member with front | back
        · exact @lowered address (fun c held => by simp [held]) b (List.mem_map.mp front)
        · rw [List.mem_singleton.mp back]
          decide
  · rw [readHost_plain named absent] at read
    obtain ⟨name,found,same⟩ := Option.map_eq_some_iff.mp read
    cases same
    exact fun b member => lowered (fun c held => held) b (namedHost_lowercase found b member)
  · rw [readHost_port named inHost inPort] at read
    obtain ⟨name,found,same⟩ := Option.map_eq_some_iff.mp read
    cases same
    exact fun b member => lowered (fun c held => List.mem_append_left _ held) b (namedHost_lowercase found b member)
  · rw [readHost_colons named inPort] at read
    cases read

theorem authority_ordinary {host port : List UInt8} (inHost : ∀ b ∈ host, isAuthorityByte b) (digits : ∀ b ∈ port, isAsciiDigit b) :
    ∀ segment ∈ (host ++ 0x3a :: port).splitOn 0x2f, Ordinary segment := by
  have bytes : ∀ b ∈ host ++ 0x3a :: port, isAuthorityByte b := by
    intro b member
    rcases List.mem_append.mp member with front | back
    · exact inHost b front
    · rcases List.mem_cons.mp back with rfl | behind
      · decide
      · exact digit_inside b (digits b behind)
  rw [List.splitOn_eq_singleton fun member => absurd (bytes _ member) (by decide)]
  intro segment member
  rw [List.mem_singleton.mp member]
  refine ⟨?_,fun zero => absurd (bytes _ zero) (by decide)⟩
  have colon : (0x3a : UInt8) ∈ host ++ 0x3a :: port := by simp
  unfold isDotSegment
  rw [Bool.or_eq_false_iff,beq_eq_false_iff_ne,beq_eq_false_iff_ne]
  constructor
  · intro same
    rw [same] at colon
    exact absurd colon (by decide)
  · intro same
    rw [same] at colon
    exact absurd colon (by decide)

theorem connect_ordinary {dialect : Dialect} (known : dialect ∈ [common,eager,terse]) {text authority : List UInt8}
    (read : dialect.authority true text = .ok authority) : ∀ segment ∈ authority.splitOn 0x2f, Ordinary segment := by
  have spelled (read : spelledAuthority true text = .ok authority) : ∀ segment ∈ authority.splitOn 0x2f, Ordinary segment := by
    unfold spelledAuthority at read
    cases accepted : readAuthority true text with
    | none =>
      rw [accepted] at read
      cases read
    | some found =>
      obtain ⟨host,port⟩ := found
      have allowed := (Option.filter_eq_some_iff.mp accepted).2
      rw [accepted] at read
      cases port with
      | none => cases allowed
      | some port =>
        cases read
        exact authority_ordinary (readAuthority_host accepted) (decimal_digits _)
  simp only [List.mem_cons,List.not_mem_nil,or_false] at known
  rcases known with rfl | rfl | rfl
  · exact spelled read
  · exact spelled read
  · change keptAuthority true text = .ok authority at read
    unfold keptAuthority at read
    cases accepted : readAuthority true text with
    | none =>
      rw [accepted] at read
      cases read
    | some found =>
      obtain ⟨host,port⟩ := found
      have allowed := (Option.filter_eq_some_iff.mp accepted).2
      rw [accepted] at read
      cases port with
      | none => cases allowed
      | some port =>
        cases read
        simp only [portAllowed,validPort,Bool.and_eq_true] at allowed
        exact authority_ordinary (readAuthority_host accepted) fun b member => List.all_eq_true.mp allowed.1.2 b member

theorem normalized_ordinary {normalizer : RequestLine → Result NormalizedTarget} (registered : normalizer ∈ requestTargetImplementations)
    {request : RequestLine} (produced : Produced request) {target : NormalizedTarget} (accepted : normalizer request = .ok target) :
    ∀ segment ∈ target.routingPath.splitOn 0x2f, Ordinary segment := by
  have settled := normalized_settled registered produced accepted
  have pathed (form : target.form = .origin ∨ target.form = .absolute) : ∀ segment ∈ target.routingPath.splitOn 0x2f, Ordinary segment := by
    obtain ⟨segments,some,each,same⟩ := (settled form).path
    rw [same,splitOn_joined some each]
    exact List.forall_mem_cons.mpr ⟨settled_nil.isOrdinary,fun segment member => (each segment member).isOrdinary⟩
  obtain ⟨-,dialect,known,accepted⟩ := normalized_dialect registered produced accepted
  unfold normalize at accepted
  split at accepted
  · split at accepted
    · cases accepted
      exact List.forall_mem_singleton.mpr ⟨by decide,by decide⟩
    · cases accepted
  · split at accepted
    · split at accepted
      · cases accepted
      · obtain ⟨authority,read,accepted⟩ := bind_success accepted
        cases accepted
        exact connect_ordinary known read
    · split at accepted
      · obtain ⟨path,-,accepted⟩ := bind_success accepted
        cases accepted
        exact pathed (.inl rfl)
      · split at accepted
        · cases accepted
        · obtain ⟨authority,-,accepted⟩ := bind_success accepted
          obtain ⟨path,-,accepted⟩ := bind_success accepted
          cases accepted
          exact pathed (.inr rfl)

end Forms

end Polyguard.RequestTargetAgreement
