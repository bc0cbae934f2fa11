import Polyguard.RequestTarget.Segments

/-! The path and query of a target.
Four implementations check the path, its root and the query in this order; one
checks both texts before the root. One implementation writes the slash behind a
final pair of dots only when the open segments do not end in an empty one. -/
namespace Polyguard.RequestTarget
open Ascii Slices TargetBytes

def queryTokens : Option (List UInt8) → Result (Option (List Token))
  | none => .ok none
  | some query => tokens false query >>= fun parts => .ok (some parts)

def withQuery (routing : List UInt8) : Option (List Token) → List UInt8
  | none => routing
  | some parts => routing ++ 0x3f :: spelling parts

/-- The normalized path of the open segments and the last segment. -/
def routingPath (parts : List Token) (kept : List (List UInt8)) : List UInt8 :=
  joined (settle kept (segmentsOf parts).getLast?)

/-- The path with its query and the path alone, of a text that starts with a slash. -/
def canonicalTarget (value : List UInt8) : Result (List UInt8 × List UInt8) := do
  let parts ← tokens true ((splitQuery value).1.drop 1)
  let kept ← rooted (openSegments (segmentsOf parts))
  let query ← queryTokens (splitQuery value).2
  .ok (withQuery (routingPath parts kept) query,routingPath parts kept)

/-- The same with the query read before the root is checked. -/
def eagerTarget (value : List UInt8) : Result (List UInt8 × List UInt8) := do
  let parts ← tokens true ((splitQuery value).1.drop 1)
  let query ← queryTokens (splitQuery value).2
  let kept ← rooted (openSegments (segmentsOf parts))
  .ok (withQuery (routingPath parts kept) query,routingPath parts kept)

/-- The same with the final slash that is sometimes lost. -/
def terseTarget (value : List UInt8) : Result (List UInt8 × List UInt8) := do
  let parts ← tokens true ((splitQuery value).1.drop 1)
  let kept ← rooted (openSegments (segmentsOf parts))
  let query ← queryTokens (splitQuery value).2
  let routing := if losesSlash kept (segmentsOf parts).getLast? then joined kept else routingPath parts kept
  .ok (withQuery routing query,routing)

/-- A text that the earlier checks let through as a path. -/
structure PathText (value : List UInt8) : Prop where
  slashed : startsWith 0x2f value
  visible : ∀ b ∈ value, isAsciiGraphic b ∧ b ≠ 0x23 ∧ b ≠ 0x5c
  bounded : value.length ≤ targetLimit

theorem graphic_ascii (byte : UInt8) (graphic : isAsciiGraphic byte) : isAscii byte := by
  revert graphic
  exact forall_byte (p := fun b => isAsciiGraphic b → isAscii b) (by decide) byte

theorem graphic_allowed (byte : UInt8) (visible : isAsciiGraphic byte ∧ byte ≠ 0x23 ∧ byte ≠ 0x5c) :
    RequestTargetTypedMatrix.isForbidden byte = false := by
  revert visible
  exact forall_byte (p := fun b => isAsciiGraphic b ∧ b ≠ 0x23 ∧ b ≠ 0x5c →
    RequestTargetTypedMatrix.isForbidden b = false) (by decide) byte

theorem splitQuery_cases (value : List UInt8) :
    ((0x3f : UInt8) ∉ value ∧ splitQuery value = (value,none)) ∨
    ∃ path query, value = path ++ 0x3f :: query ∧ (0x3f : UInt8) ∉ path ∧ splitQuery value = (path,some query) := by
  rcases first_hit (· == 0x3f) value with miss | ⟨path,hit,query,rfl,miss,found⟩
  · have absent : (0x3f : UInt8) ∉ value := fun member => by simpa using miss 0x3f member
    exact .inl ⟨absent,by simp [splitQuery,(splitOnce_absent absent).1]⟩
  · obtain rfl : hit = 0x3f := by simpa using found
    have absent : (0x3f : UInt8) ∉ path := fun member => by simpa using miss 0x3f member
    exact .inr ⟨path,query,rfl,absent,by simp [splitQuery,splitOnce_first absent]⟩

theorem PathText.parts {value : List UInt8} (text : PathText value) :
    ∃ path query, splitQuery value = (0x2f :: path,query) ∧
      (∀ b ∈ path, isAsciiGraphic b ∧ b ≠ 0x23 ∧ b ≠ 0x5c) ∧
      (∀ query', query = some query' → ∀ b ∈ query', isAsciiGraphic b ∧ b ≠ 0x23 ∧ b ≠ 0x5c) ∧
      value.length = path.length + 1 + (query.elim 0 fun query => query.length + 1) := by
  obtain ⟨slashed,visible,-⟩ := text
  cases value with
  | nil => simp [startsWith] at slashed
  | cons first rest =>
    obtain rfl : first = 0x2f := by simpa [startsWith] using slashed
    rcases splitQuery_cases (0x2f :: rest) with ⟨-,split⟩ | ⟨path,query,same,absent,split⟩
    · refine ⟨rest,none,split,fun b member => visible b (by simp [member]),by simp,by simp⟩
    · cases path with
      | nil => simp at same
      | cons first path =>
        have total := congrArg List.length same
        rw [List.length_append,List.length_cons,List.length_cons,List.length_cons] at total
        obtain ⟨rfl,rfl⟩ := List.cons_eq_cons.mp same
        refine ⟨path,some query,split,fun b member => visible b (by simp [member]),?_,?_⟩
        · rintro query' ⟨⟩ b member
          exact visible b (by simp [member])
        · rw [List.length_cons,total,Option.elim_some]

theorem tokens_slash (path : Bool) (rest : List UInt8) :
    tokens path (0x2f :: rest) = (tokens path rest >>= fun parts => .ok (slash :: parts)) :=
  tokens_literal path rest (by decide)

theorem canonicalTarget_length {value : List UInt8} (text : PathText value) {target : List UInt8 × List UInt8}
    (read : canonicalTarget value = .ok target) : target.1.length ≤ targetLimit ∧ target.2.length ≤ target.1.length := by
  obtain ⟨path,query,split,-,-,length⟩ := text.parts
  have bound := text.bounded
  unfold canonicalTarget at read
  rw [split] at read
  obtain ⟨parts,reading,read⟩ := bind_success read
  obtain ⟨kept,walked,read⟩ := bind_success read
  obtain ⟨queryParts,queried,read⟩ := bind_success read
  cases read
  have pathBound := spelling_length (tokens_reads reading)
  have walked : openSegments (segmentsOf parts) = some kept := by
    cases opened : openSegments (segmentsOf parts) with
    | none => simp [opened,invalidTarget] at walked
    | some other => simpa [opened] using walked
  have routingBound := path_length walked
  simp only [List.drop_one,List.tail_cons] at pathBound
  cases query with
  | none =>
    cases queried
    simp only [withQuery,routingPath]
    simp only [Option.elim_none] at length
    omega
  | some query =>
    obtain ⟨spelled,reading,queried⟩ := bind_success queried
    cases queried
    have queryBound := spelling_length (tokens_reads reading)
    simp only [withQuery,routingPath,List.length_append,List.length_cons]
    simp only [Option.elim_some] at length
    omega

theorem openSegments_settled {parts : List Token} {kept : List (List UInt8)}
    (walked : rooted (openSegments (segmentsOf parts)) = .ok kept) :
    openSegments (segmentsOf parts) = some kept ∧ settle kept (segmentsOf parts).getLast? ≠ [] := by
  cases opened : openSegments (segmentsOf parts) with
  | none => simp [opened,invalidTarget] at walked
  | some other =>
    obtain rfl : other = kept := by simpa [opened] using walked
    exact ⟨rfl,settle_ne_nil (segmentsOf_ne_nil parts) [] opened⟩

theorem rules_dots (parts : List Token) :
    RequestTargetRules.removeDotSegments (0x2f :: spelling parts) =
      (rooted (openSegments (segmentsOf parts)) >>= fun kept => .ok (routingPath parts kept)) := by
  unfold RequestTargetRules.removeDotSegments
  simp only [List.drop_one,List.tail_cons,spelling_splitOn]
  rw [rules_segments _ (segmentsOf_ne_nil parts),bind_assoc]
  apply bind_congr_ok
  intro kept walked
  rw [bind_ok,routingPath,joined_intercalate (openSegments_settled walked).2]

theorem limit_idle {α : Type} {value : List UInt8} (text : PathText value) (finish : List UInt8 × List UInt8 → Result α) :
    (canonicalTarget value >>= fun target =>
      if target.1.length > targetLimit then targetTooLong target.1.length else finish target) =
      (canonicalTarget value >>= finish) := by
  apply bind_congr_ok
  intro target read
  rw [if_neg]
  have bound := (canonicalTarget_length text read).1
  omega

theorem queryTokens_reads {query : Option (List UInt8)} {parts : Option (List Token)}
    (read : queryTokens query = .ok parts) :
    (query = none ∧ parts = none) ∨ ∃ text spelled, query = some text ∧ parts = some spelled ∧ Reads text spelled := by
  cases query with
  | none =>
    cases read
    exact .inl ⟨rfl,rfl⟩
  | some text =>
    obtain ⟨spelled,reading,read⟩ := bind_success read
    cases read
    exact .inr ⟨text,spelled,rfl,rfl,tokens_reads reading⟩

theorem rules_path {value : List UInt8} (text : PathText value) :
    RequestTargetRules.canonicalPath value = (canonicalTarget value >>= fun target => .ok ⟨target.1,target.2⟩) := by
  rw [← limit_idle text]
  obtain ⟨path,query,split,pathBytes,queryBytes,-⟩ := text.parts
  have small : ∀ b ∈ 0x2f :: path, isAscii b := by
    intro b member
    rcases List.mem_cons.mp member with rfl | inside
    · decide
    · exact graphic_ascii b (pathBytes b inside).1
  unfold RequestTargetRules.canonicalPath canonicalTarget
  simp only [split,List.isEmpty_cons,startsWith,List.head?_cons,beq_self_eq_true,Bool.not_true,Bool.or_self,
    Bool.false_eq_true,if_false,List.drop_one,List.tail_cons,RequestTargetRules.normalizePercentEncoding,
    rules_escapes _ _ _ small,tokens_slash,decide_true,bind_assoc,bind_ok,List.nil_append,spelling_cons]
  apply bind_congr_ok
  intro parts reading
  rw [show spell slash ++ spelling parts = 0x2f :: spelling parts from rfl,rules_dots,bind_assoc]
  apply bind_congr_ok
  intro kept walked
  cases query with
  | none => rfl
  | some query =>
    have querySmall : ∀ b ∈ query, isAscii b := fun b member => graphic_ascii b (queryBytes query rfl b member).1
    simp only [bind_ok,queryTokens,rules_escapes _ _ _ querySmall,bind_assoc,List.nil_append]
    rfl

theorem map_segments (render : List UInt8 → List UInt8)
    (renders : ∀ {text parts}, Reads text parts → (∀ b ∈ text, isAscii b) → render text = spelling parts)
    {text : List UInt8} {parts : List Token} (read : Reads text parts) (small : ∀ b ∈ text, isAscii b) :
    (text.splitOn 0x2f).map render = segmentsOf parts := by
  have within : ∀ segment ∈ text.splitOn 0x2f, ∀ b ∈ segment, isAscii b := by
    intro segment among b member
    exact small b (mem_of_mem_splitOn among member)
  have reads := reads_splitOn read
  unfold segmentsOf
  generalize text.splitOn 0x2f = texts at within reads ⊢
  generalize parts.splitOn slash = split at reads ⊢
  induction reads with
  | nil => rfl
  | cons head tail ih =>
    rw [List.map_cons,List.map_cons,renders head (within _ (by simp)),
      ih fun segment among => within segment (by simp [among])]

theorem pipeline_target {path : List UInt8} {query : Option (List UInt8)} {parts : List Token}
    {kept : List (List UInt8)} {queryParts : Option (List Token)} (read : Reads path parts)
    (small : ∀ b ∈ path, isAscii b) (walked : rooted (openSegments (segmentsOf parts)) = .ok kept)
    (queried : queryTokens query = .ok queryParts) (querySmall : ∀ text, query = some text → ∀ b ∈ text, isAscii b) :
    RequestTargetValidatedPipeline.canonicalPath ⟨some (0x2f :: path),query⟩ =
      (withQuery (routingPath parts kept) queryParts,routingPath parts kept) := by
  obtain ⟨opened,settled⟩ := openSegments_settled walked
  have rendered := map_segments RequestTargetValidatedPipeline.canonicalComponent pipeline_component read small
  have count : (path.splitOn 0x2f).length = (segmentsOf parts).length := by rw [← rendered,List.length_map]
  simp only [RequestTargetValidatedPipeline.canonicalPath,Option.getD_some,List.drop_one,List.tail_cons,rendered,
    count,pipeline_segments (segmentsOf_ne_nil parts) opened]
  rw [← joined_intercalate settled]
  rcases queryTokens_reads queried with ⟨rfl,rfl⟩ | ⟨text,spelled,rfl,rfl,reads⟩
  · rfl
  · simp only [pipeline_component reads (querySmall text rfl),withQuery,routingPath]

theorem pipeline_path {value : List UInt8} (text : PathText value) :
    (RequestTargetValidatedPipeline.validatePath value >>= fun path =>
      .ok (RequestTargetValidatedPipeline.canonicalPath path)) = canonicalTarget value := by
  obtain ⟨path,query,split,pathBytes,queryBytes,-⟩ := text.parts
  have small : ∀ b ∈ path, isAscii b := fun b member => graphic_ascii b (pathBytes b member).1
  have querySmall : ∀ text, query = some text → ∀ b ∈ text, isAscii b :=
    fun text same b member => graphic_ascii b (queryBytes text same b member).1
  unfold RequestTargetValidatedPipeline.validatePath canonicalTarget
  simp only [split,RequestTargetValidatedPipeline.validatePathParts,Option.any_some,List.isEmpty_cons,startsWith,
    List.head?_cons,beq_self_eq_true,Bool.not_true,Bool.or_self,Bool.false_eq_true,if_false,List.drop_one,
    List.tail_cons,pipeline_checks,tokens_slash,bind_assoc,bind_ok]
  apply bind_congr_ok
  intro parts reading
  have read := tokens_reads reading
  rw [pipeline_root read,bind_assoc]
  apply bind_congr_ok
  intro kept walked
  rw [bind_ok]
  cases query with
  | none => simp [queryTokens,pipeline_target read small walked rfl querySmall]
  | some query =>
    simp only [queryTokens,bind_assoc,bind_ok]
    apply bind_congr_ok
    intro spelled queried
    have asked : queryTokens (some query) = .ok (some spelled) := by simp [queryTokens,queried]
    rw [pipeline_target read small walked asked querySmall]

theorem composable_target {path : List UInt8} {query : Option (List UInt8)} {parts : List Token}
    {kept : List (List UInt8)} {queryParts : Option (List Token)} (read : Reads path parts)
    (small : ∀ b ∈ path, isAscii b) (walked : rooted (openSegments (segmentsOf parts)) = .ok kept)
    (queried : queryTokens query = .ok queryParts) (querySmall : ∀ text, query = some text → ∀ b ∈ text, isAscii b) :
    RequestTargetComposableValidators.renderPath (0x2f :: path) = routingPath parts kept ∧
      RequestTargetComposableValidators.renderQuery (routingPath parts kept) query =
        withQuery (routingPath parts kept) queryParts := by
  obtain ⟨opened,settled⟩ := openSegments_settled walked
  have rendered := map_segments RequestTargetComposableValidators.renderComponent
    (fun read small => composable_render read small []) read small
  have count : (path.splitOn 0x2f).length = (segmentsOf parts).length := by rw [← rendered,List.length_map]
  constructor
  · simp only [RequestTargetComposableValidators.renderPath,List.drop_one,List.tail_cons,rendered,count]
    rw [routingPath,joined_intercalate settled,← pipeline_segments (segmentsOf_ne_nil parts) opened]
    rfl
  · rcases queryTokens_reads queried with ⟨rfl,rfl⟩ | ⟨text,spelled,rfl,rfl,reads⟩
    · rfl
    · simp only [RequestTargetComposableValidators.renderQuery,composable_render reads (querySmall text rfl),withQuery,
        List.append_assoc,List.singleton_append]

theorem offsets_target {path : List UInt8} {value : List UInt8} {query : Option (List UInt8)} {parts : List Token}
    {kept : List (List UInt8)} {queryParts : Option (List Token)} (split : splitQuery value = (0x2f :: path,query))
    (read : Reads path parts) (small : ∀ b ∈ path, isAscii b)
    (walked : rooted (openSegments (segmentsOf parts)) = .ok kept) (queried : queryTokens query = .ok queryParts)
    (querySmall : ∀ text, query = some text → ∀ b ∈ text, isAscii b) :
    RequestTargetInvariantOffsets.transformPathAndQuery value =
      (withQuery (routingPath parts kept) queryParts,routingPath parts kept) := by
  obtain ⟨opened,settled⟩ := openSegments_settled walked
  have routing : RequestTargetInvariantOffsets.transformFrom [] [] (0x2f :: path).length path = routingPath parts kept :=
    offsets_transform (reads_splitOn read) _ rfl (by simp) small .nil opened
  rcases splitQuery_cases value with ⟨absent,plain⟩ | ⟨front,back,rfl,absent,parted⟩
  · obtain ⟨rfl,rfl⟩ := Prod.mk.inj (split.symm.trans plain)
    cases queried
    simp only [RequestTargetInvariantOffsets.transformPathAndQuery,position_none (miss_of_absent absent),
      Option.getD_none,List.take_length,List.drop_one,List.tail_cons,routing]
    rfl
  · obtain ⟨rfl,rfl⟩ := Prod.mk.inj (split.symm.trans parted)
    rcases queryTokens_reads queried with ⟨none,-⟩ | ⟨text,spelled,same,rfl,reads⟩
    · cases none
    · cases same
      have found := position_append back (miss_of_absent absent) (beq_self_eq_true (0x3f : UInt8))
      simp only [RequestTargetInvariantOffsets.transformPathAndQuery,found,Option.getD_some,take_hit,drop_hit,
        List.drop_one,List.tail_cons,routing,offsets_append reads (querySmall back rfl),withQuery,List.append_assoc,
        List.singleton_append]

theorem eagerTarget_ok {value : List UInt8} {target : List UInt8 × List UInt8} (read : eagerTarget value = .ok target) :
    canonicalTarget value = .ok target := by
  unfold eagerTarget at read
  obtain ⟨parts,reading,read⟩ := bind_success read
  obtain ⟨queryParts,queried,read⟩ := bind_success read
  obtain ⟨kept,walked,read⟩ := bind_success read
  simp only [canonicalTarget,reading,queried,walked,bind_ok,read]

theorem offsets_validate {value path : List UInt8} {query : Option (List UInt8)}
    (split : splitQuery value = (0x2f :: path,query)) :
    RequestTargetInvariantOffsets.validatePathAndQuery value = (tokens true path >>= fun parts =>
      queryTokens query >>= fun _ => rooted (openSegments (segmentsOf parts)) >>= fun _ => .ok ()) := by
  have nonempty : ((0x2f :: path).length == 0) = false := rfl
  unfold RequestTargetInvariantOffsets.validatePathAndQuery
  rcases splitQuery_cases value with ⟨absent,plain⟩ | ⟨front,back,rfl,absent,parted⟩
  · obtain ⟨rfl,rfl⟩ := Prod.mk.inj (split.symm.trans plain)
    have starts : startsWith 0x2f (0x2f :: path) = true := by simp [startsWith]
    simp only [position_none (miss_of_absent absent),Option.getD_none,List.take_length,nonempty,starts,Bool.not_true,
      Bool.or_self,Bool.false_eq_true,if_false,offsets_checks,tokens_slash,bind_assoc,bind_ok,queryTokens]
    apply bind_congr_ok
    intro parts reading
    rw [offsets_root (tokens_reads reading)]
  · obtain ⟨rfl,rfl⟩ := Prod.mk.inj (split.symm.trans parted)
    have starts : startsWith 0x2f (0x2f :: path ++ 0x3f :: back) = true := by simp [startsWith]
    have found := position_append back (miss_of_absent absent) (beq_self_eq_true (0x3f : UInt8))
    simp only [found,Option.getD_some,take_hit,drop_hit,nonempty,starts,Bool.not_true,Bool.or_self,
      Bool.false_eq_true,if_false,offsets_checks,tokens_slash,bind_assoc,bind_ok,queryTokens]
    apply bind_congr_ok
    intro parts reading
    rw [offsets_root (tokens_reads reading)]

theorem offsets_path {value : List UInt8} (text : PathText value) (form : TargetForm)
    (scheme authority : Option (List UInt8)) :
    RequestTargetInvariantOffsets.pathTarget form scheme authority value =
      (eagerTarget value >>= fun target => .ok ⟨form,scheme,authority,target.1,target.2⟩) := by
  have idle : (eagerTarget value >>= fun target =>
      RequestTargetInvariantOffsets.finishPathTarget form scheme authority target.1 target.2) =
      (eagerTarget value >>= fun target => .ok ⟨form,scheme,authority,target.1,target.2⟩) := by
    apply bind_congr_ok
    intro target read
    have bound := (canonicalTarget_length text (eagerTarget_ok read)).1
    rw [RequestTargetInvariantOffsets.finishPathTarget,if_neg (by omega)]
  rw [← idle]
  obtain ⟨path,query,split,pathBytes,queryBytes,-⟩ := text.parts
  have small : ∀ b ∈ path, isAscii b := fun b member => graphic_ascii b (pathBytes b member).1
  have querySmall : ∀ text, query = some text → ∀ b ∈ text, isAscii b :=
    fun text same b member => graphic_ascii b (queryBytes text same b member).1
  unfold RequestTargetInvariantOffsets.pathTarget eagerTarget
  rw [offsets_validate split,split]
  simp only [List.drop_one,List.tail_cons,bind_assoc,bind_ok]
  apply bind_congr_ok
  intro parts reading
  apply bind_congr_ok
  intro queryParts queried
  apply bind_congr_ok
  intro kept walked
  rw [offsets_target split (tokens_reads reading) small walked queried querySmall]

theorem terseTarget_length {value : List UInt8} (text : PathText value) {target : List UInt8 × List UInt8}
    (read : terseTarget value = .ok target) : target.1.length ≤ targetLimit := by
  unfold terseTarget at read
  obtain ⟨parts,reading,read⟩ := bind_success read
  obtain ⟨kept,walked,read⟩ := bind_success read
  obtain ⟨queryParts,queried,read⟩ := bind_success read
  have canonical : canonicalTarget value =
      .ok (withQuery (routingPath parts kept) queryParts,routingPath parts kept) := by
    simp only [canonicalTarget,reading,walked,queried,bind_ok]
  have bound := (canonicalTarget_length text canonical).1
  cases read
  simp only []
  split
  · have shorter : (joined kept).length ≤ (routingPath parts kept).length := by
      unfold routingPath settle
      split <;> simp
    cases queryParts <;> simp only [withQuery,List.length_append] at bound ⊢ <;> omega
  · exact bound

theorem typed_escape {context : RequestTargetTypedMatrix.EscapeContext} {raw : List UInt8}
    (visible : ∀ b ∈ raw, isAsciiGraphic b ∧ b ≠ 0x23 ∧ b ≠ 0x5c) :
    RequestTargetTypedMatrix.canonicalEscapes raw context =
      (tokens (decide (context = .path)) raw >>= fun parts => .ok (spelling parts)) := by
  unfold RequestTargetTypedMatrix.canonicalEscapes
  rw [typed_escapes context raw [] fun b member => graphic_allowed b (visible b member),bind_assoc]
  apply bind_congr_ok
  intro parts reading
  have small := spelling_ascii (tokens_reads reading) fun b member => graphic_ascii b (visible b member).1
  simp [Utf8.fromUtf8,Utf8.valid_of_ascii small]

theorem typed_path {value : List UInt8} (text : PathText value) :
    RequestTargetTypedMatrix.canonicalPathQuery value =
      (terseTarget value >>= fun target => .ok ⟨target.1,target.2⟩) := by
  have idle : (terseTarget value >>= fun target =>
      if target.1.length > targetLimit then targetTooLong target.1.length
      else .ok (⟨target.1,target.2⟩ : RequestTargetTypedMatrix.CanonicalPath)) =
      (terseTarget value >>= fun target => .ok ⟨target.1,target.2⟩) := by
    apply bind_congr_ok
    intro target read
    have bound := terseTarget_length text read
    rw [if_neg (by omega)]
  rw [← idle]
  obtain ⟨path,query,split,pathBytes,queryBytes,-⟩ := text.parts
  have visible : ∀ b ∈ 0x2f :: path, isAsciiGraphic b ∧ b ≠ 0x23 ∧ b ≠ 0x5c := by
    intro b member
    rcases List.mem_cons.mp member with rfl | inside
    · decide
    · exact pathBytes b inside
  have unfragmented : value.contains 0x23 = false := by
    rw [List.contains_eq_mem,decide_eq_false_iff_not]
    intro member
    exact (text.visible 0x23 member).2.1 rfl
  unfold RequestTargetTypedMatrix.canonicalPathQuery terseTarget
  simp only [text.slashed,Bool.not_true,Bool.false_eq_true,if_false,unfragmented,split,typed_escape visible,
    decide_true,tokens_slash,bind_assoc,bind_ok,List.drop_one,List.tail_cons]
  apply bind_congr_ok
  intro parts reading
  rw [show spelling (slash :: parts) = 0x2f :: spelling parts from rfl,typed_segments,bind_assoc]
  apply bind_congr_ok
  intro kept walked
  cases query with
  | none => rfl
  | some query =>
    simp only [bind_ok,queryTokens,typed_escape (queryBytes query rfl),bind_assoc]
    rfl

end Polyguard.RequestTarget
