import Polyguard.Collections.Ordered
import Polyguard.RequestLine.Agreement
import Polyguard.RequestTarget.Authorities
import Polyguard.RequestTarget.Paths

/-! When the registered implementations of `normalize_request_target` agree.
Three of them refine one reference on every request line the parser can produce.
The fourth reads the query before it checks the root, and the fifth words four
refusals differently, keeps the text of a port and can lose a final slash. -/
namespace Polyguard.RequestTargetAgreement
open Ascii Slices TargetBytes Decimal RequestTarget RequestLineAgreement

/-- The part of an absolute target that names its authority. -/
def authorityOf (remainder : List UInt8) : List UInt8 :=
  remainder.take ((position (fun byte => byte == 0x2f || byte == 0x3f) remainder).getD remainder.length)

/-- The path of an absolute target, a slash when it has none. -/
def pathOf (remainder : List UInt8) : List UInt8 :=
  RequestTargetRules.absolutePath
    (remainder.drop ((position (fun byte => byte == 0x2f || byte == 0x3f) remainder).getD remainder.length))

def schemeOf (target : List UInt8) : Option (Nat × List UInt8) := RequestTargetInvariantOffsets.schemePrefix target

/-- Where the implementations part: two refusals, the authority and the path. -/
structure Dialect where
  connectRefusal : String
  formRefusal : String
  authority : Bool → List UInt8 → Result (List UInt8)
  path : List UInt8 → Result (List UInt8 × List UInt8)

def absolute (dialect : Dialect) (scheme remainder : List UInt8) : Result NormalizedTarget :=
  dialect.authority false (authorityOf remainder) >>= fun authority =>
    dialect.path (pathOf remainder) >>= fun target => .ok ⟨.absolute,some scheme,some authority,target.1,target.2⟩

/-- The rule table of methods and target forms. -/
def normalize (dialect : Dialect) (request : RequestLine) : Result NormalizedTarget :=
  if request.target == ascii "*" then
    if request.method == ascii "options" then .ok (fixedTarget .asterisk none (ascii "*"))
    else invalidTarget "asterisk_method"
  else if request.method == ascii "connect" then
    if startsWith 0x2f request.target || (schemeOf request.target).isSome then invalidTarget dialect.connectRefusal
    else dialect.authority true request.target >>= fun authority =>
      .ok (fixedTarget .authority (some authority) authority)
  else if startsWith 0x2f request.target then
    dialect.path request.target >>= fun target => .ok ⟨.origin,none,none,target.1,target.2⟩
  else match schemeOf request.target with
    | none => invalidTarget dialect.formRefusal
    | some (length,scheme) => absolute dialect scheme (request.target.drop length)

def common : Dialect := ⟨"connect_requires_authority","authority_method",spelledAuthority,canonicalTarget⟩

/-- The dialect that reads the query before it checks the root. -/
def eager : Dialect := ⟨"connect_requires_authority","authority_method",spelledAuthority,eagerTarget⟩

/-- The dialect of the typed matrix. -/
def terse : Dialect := ⟨"connect_form","invalid_form",keptAuthority,terseTarget⟩

/-- The request lines of the parser: a lowercase method and a visible target without a fragment. -/
structure Produced (request : RequestLine) : Prop where
  lowercase : request.method.map toAsciiLowercase = request.method
  nonempty : request.target ≠ []
  visible : ∀ b ∈ request.target, isAsciiGraphic b ∧ b ≠ 0x23
  bounded : request.target.length ≤ targetLimit

theorem produced_of_parse {parse : List UInt8 → Result RequestLine} (registered : parse ∈ requestLineImplementations)
    {input : List UInt8} {request : RequestLine} (parsed : parse input = .ok request) : Produced request := by
  obtain ⟨method,target,rest,-,-,-,-,some,visible,limit,rfl⟩ := parse_accepted registered parsed
  refine ⟨?_,some,visible,?_⟩
  · simp only [List.map_map]
    apply List.map_congr_left
    intro b _
    exact toAsciiLowercase_idem b
  · simp only [List.length_append,List.length_cons,targetLimit] at limit ⊢
    omega

theorem envelopeBytes_eq {target : List UInt8} (visible : ∀ b ∈ target, isAsciiGraphic b ∧ b ≠ 0x23) :
    envelopeBytes target = if (0x5c : UInt8) ∈ target then invalidTarget "backslash_not_allowed" else .ok () := by
  induction target with
  | nil => rfl
  | cons byte target ih =>
    obtain ⟨graphic,fragment⟩ := visible byte (by simp)
    have rest := ih fun b member => visible b (by simp [member])
    have inRange : (decide (0x21 ≤ byte) && decide (byte ≤ 0x7e)) = true := graphic
    unfold envelopeBytes
    by_cases backslash : byte = 0x5c
    · simp [backslash]
    · simp only [beq_iff_eq,fragment,backslash,if_false,inRange,if_true,rest]
      simp [Ne.symm backslash]

theorem envelope_eq {request : RequestLine} (produced : Produced request) :
    envelope request.target =
      if (0x5c : UInt8) ∈ request.target then invalidTarget "backslash_not_allowed" else .ok () := by
  have some : request.target.isEmpty = false := by simpa using produced.nonempty
  unfold envelope
  rw [if_neg (by have bound := produced.bounded; omega),some,envelopeBytes_eq produced.visible]
  rfl

theorem composable_envelope {request : RequestLine} (produced : Produced request) :
    RequestTargetComposableValidators.validateEnvelope request.target =
      if (0x5c : UInt8) ∈ request.target then invalidTarget "backslash_not_allowed" else .ok () := by
  have some : request.target.isEmpty = false := by simpa using produced.nonempty
  have graphic : request.target.all (fun byte => decide (0x21 ≤ byte) && decide (byte ≤ 0x7e)) = true :=
    List.all_eq_true.mpr fun b member => (produced.visible b member).1
  have fragment : request.target.contains 0x23 = false := by
    rw [List.contains_eq_mem,decide_eq_false_iff_not]
    intro member
    exact (produced.visible 0x23 member).2 rfl
  unfold RequestTargetComposableValidators.validateEnvelope
  rw [if_neg (by have bound := produced.bounded; omega)]
  simp only [RequestTargetComposableValidators.requireNonempty,some,RequestTargetComposableValidators.requireVisibleAscii,
    graphic,RequestTargetComposableValidators.rejectFragment,fragment,
    RequestTargetComposableValidators.rejectBackslash,Bool.false_eq_true,if_false,if_true,bind_ok,List.contains_eq_mem,
    decide_eq_true_eq]

theorem scheme_prefix_length {target : List UInt8} {length : Nat} {scheme : List UInt8}
    (found : schemeOf target = some (length,scheme)) : 7 ≤ length ∧ length ≤ target.length := by
  unfold schemeOf RequestTargetInvariantOffsets.schemePrefix startsAsciiCaseInsensitive at found
  split at found
  · rename_i fits
    obtain ⟨rfl,-⟩ := Prod.mk.inj (Option.some.inj found)
    simp only [Bool.and_eq_true,decide_eq_true_eq] at fits
    exact ⟨by decide,fits.1⟩
  · split at found
    · rename_i fits
      obtain ⟨rfl,-⟩ := Prod.mk.inj (Option.some.inj found)
      simp only [Bool.and_eq_true,decide_eq_true_eq] at fits
      exact ⟨by decide,fits.1⟩
    · cases found

theorem suffix_cases (remainder : List UInt8) :
    pathOf remainder = ascii "/" ∧ remainder.drop
        ((position (fun byte => byte == 0x2f || byte == 0x3f) remainder).getD remainder.length) = [] ∨
    (∃ query, pathOf remainder = 0x2f :: 0x3f :: query ∧ remainder.drop
        ((position (fun byte => byte == 0x2f || byte == 0x3f) remainder).getD remainder.length) = 0x3f :: query) ∨
    ∃ path, pathOf remainder = 0x2f :: path ∧ remainder.drop
        ((position (fun byte => byte == 0x2f || byte == 0x3f) remainder).getD remainder.length) = 0x2f :: path := by
  unfold pathOf RequestTargetRules.absolutePath startsWith
  rcases first_hit (fun byte : UInt8 => byte == 0x2f || byte == 0x3f) remainder with
    miss | ⟨front,hit,back,rfl,miss,found⟩
  · left
    simp [position_none miss]
  · rw [position_append back miss found,Option.getD_some,List.drop_left]
    simp only [Bool.or_eq_true,beq_iff_eq] at found
    rcases found with rfl | rfl
    · right; right
      exact ⟨back,by simp,rfl⟩
    · right; left
      exact ⟨back,by simp,rfl⟩

theorem origin_text {request : RequestLine} (produced : Produced request) (clean : (0x5c : UInt8) ∉ request.target)
    (slashed : startsWith 0x2f request.target) : PathText request.target := by
  refine ⟨slashed,?_,produced.bounded⟩
  intro b member
  obtain ⟨graphic,fragment⟩ := produced.visible b member
  refine ⟨graphic,fragment,?_⟩
  rintro rfl
  exact clean member

theorem absolute_text {request : RequestLine} (produced : Produced request) (clean : (0x5c : UInt8) ∉ request.target)
    {length : Nat} {scheme : List UInt8} (found : schemeOf request.target = some (length,scheme)) :
    PathText (pathOf (request.target.drop length)) ∧ ∀ b ∈ authorityOf (request.target.drop length), isAscii b := by
  obtain ⟨least,inside⟩ := scheme_prefix_length found
  have bound := produced.bounded
  have visible : ∀ b ∈ request.target.drop length, isAsciiGraphic b ∧ b ≠ 0x23 ∧ b ≠ 0x5c := by
    intro b member
    have among := List.mem_of_mem_drop member
    obtain ⟨graphic,fragment⟩ := produced.visible b among
    refine ⟨graphic,fragment,?_⟩
    rintro rfl
    exact clean among
  have short : (request.target.drop length).length + 7 ≤ targetLimit := by
    rw [List.length_drop]
    omega
  constructor
  · rcases suffix_cases (request.target.drop length) with ⟨path,-⟩ | ⟨query,path,suffix⟩ | ⟨rest,path,suffix⟩
    · rw [path]
      exact ⟨by decide,by decide +kernel,by decide⟩
    · have within : ∀ b ∈ 0x3f :: query, b ∈ request.target.drop length := by
        rw [← suffix]
        exact fun b member => List.mem_of_mem_drop member
      have size := congrArg List.length suffix
      rw [List.length_drop] at size
      rw [path]
      refine ⟨by simp [startsWith],?_,?_⟩
      · intro b member
        rcases List.mem_cons.mp member with rfl | among
        · decide
        · exact visible b (within b among)
      · simp only [List.length_cons] at size ⊢
        omega
    · have within : ∀ b ∈ 0x2f :: rest, b ∈ request.target.drop length := by
        rw [← suffix]
        exact fun b member => List.mem_of_mem_drop member
      have size := congrArg List.length suffix
      rw [List.length_drop] at size
      rw [path]
      refine ⟨by simp [startsWith],fun b member => visible b (within b member),?_⟩
      simp only [List.length_cons] at size ⊢
      omega
  · intro b member
    exact RequestTarget.graphic_ascii b (visible b (List.mem_of_mem_take member)).1

theorem rules_absolute {remainder : List UInt8} (text : PathText (pathOf remainder)) (scheme : RequestTargetRules.Scheme) :
    RequestTargetRules.normalizeAbsolute scheme remainder = absolute common scheme.name remainder := by
  unfold RequestTargetRules.normalizeAbsolute absolute common
  simp only [rules_authority]
  apply bind_congr_ok
  intro authority _
  have path := rules_path text
  unfold pathOf at path
  rw [path,bind_assoc]
  rfl

theorem scheme_cases (target : List UInt8) :
    (startsAsciiCaseInsensitive target httpPrefix = true ∧ schemeOf target = some (7,ascii "http")) ∨
    (startsAsciiCaseInsensitive target httpPrefix = false ∧ startsAsciiCaseInsensitive target httpsPrefix = true ∧
      schemeOf target = some (8,ascii "https")) ∨
    (startsAsciiCaseInsensitive target httpPrefix = false ∧ startsAsciiCaseInsensitive target httpsPrefix = false ∧
      schemeOf target = none) := by
  unfold schemeOf RequestTargetInvariantOffsets.schemePrefix
  cases startsAsciiCaseInsensitive target httpPrefix with
  | true => exact .inl ⟨rfl,rfl⟩
  | false =>
    cases startsAsciiCaseInsensitive target httpsPrefix with
    | true => exact .inr (.inl ⟨rfl,rfl,rfl⟩)
    | false => exact .inr (.inr ⟨rfl,rfl,rfl⟩)

theorem options_not_connect {method : List UInt8} (options : method == ascii "options") :
    (method == ascii "connect") = false := by
  rw [beq_iff_eq] at options
  rw [options]
  decide

theorem rules_reference {request : RequestLine} (produced : Produced request) (clean : (0x5c : UInt8) ∉ request.target) :
    RequestTargetRules.normalizeRequestTarget request = normalize common request := by
  unfold RequestTargetRules.normalizeRequestTarget RequestTargetRules.checkedBoundary normalize
  rw [envelope_eq produced,if_neg clean]
  simp only [bind_ok,RequestTargetRules.classifySyntax,RequestTargetRules.methodKind,common]
  by_cases options : request.method == ascii "options"
  · have other := options_not_connect options
    simp only [other,options,if_true,Bool.false_eq_true,if_false]
    by_cases star : request.target == ascii "*"
    · simp only [star,if_true]
    · by_cases slashed : startsWith 0x2f request.target
      · simp only [star,slashed,if_true,Bool.false_eq_true,if_false,rules_path (origin_text produced clean slashed),
          bind_assoc,bind_ok]
      · obtain ⟨http,found⟩ | ⟨http,https,found⟩ | ⟨http,https,found⟩ := scheme_cases request.target
        · simp only [star,slashed,http,found,if_true,Bool.false_eq_true,if_false,
            rules_absolute (absolute_text produced clean found).1]
          rfl
        · simp only [star,slashed,http,https,found,if_true,Bool.false_eq_true,if_false,
            rules_absolute (absolute_text produced clean found).1]
          rfl
        · simp only [star,slashed,http,https,found,Bool.false_eq_true,if_false]
  · by_cases connect : request.method == ascii "connect"
    · simp only [connect,options,if_true,Bool.false_eq_true,if_false]
      by_cases star : request.target == ascii "*"
      · simp only [star,if_true]
      · by_cases slashed : startsWith 0x2f request.target
        · simp only [star,slashed,if_true,Bool.false_eq_true,if_false,Bool.true_or]
        · obtain ⟨http,found⟩ | ⟨http,https,found⟩ | ⟨http,https,found⟩ := scheme_cases request.target
          · simp only [star,slashed,http,found,if_true,Bool.false_eq_true,if_false,Option.isSome_some,Bool.or_true]
          · simp only [star,slashed,http,https,found,if_true,Bool.false_eq_true,if_false,Option.isSome_some,
              Bool.or_true]
          · simp only [star,slashed,http,https,found,Bool.false_eq_true,if_false,Option.isSome_none,Bool.or_self,
              rules_authority]
            rfl
    · simp only [connect,options,Bool.false_eq_true,if_false]
      by_cases star : request.target == ascii "*"
      · simp only [star,if_true]
      · by_cases slashed : startsWith 0x2f request.target
        · simp only [star,slashed,if_true,Bool.false_eq_true,if_false,rules_path (origin_text produced clean slashed),
            bind_assoc,bind_ok]
        · obtain ⟨http,found⟩ | ⟨http,https,found⟩ | ⟨http,https,found⟩ := scheme_cases request.target
          · simp only [star,slashed,http,found,if_true,Bool.false_eq_true,if_false,
              rules_absolute (absolute_text produced clean found).1]
            rfl
          · simp only [star,slashed,http,https,found,if_true,Bool.false_eq_true,if_false,
              rules_absolute (absolute_text produced clean found).1]
            rfl
          · simp only [star,slashed,http,https,found,Bool.false_eq_true,if_false]

theorem pipeline_scheme (target : List UInt8) :
    RequestTargetValidatedPipeline.absoluteScheme target = (schemeOf target).map fun found =>
      (if found.1 = 7 then httpPrefix else httpsPrefix,found.2) := by
  unfold RequestTargetValidatedPipeline.absoluteScheme RequestTargetValidatedPipeline.absoluteSchemes
  obtain ⟨http,found⟩ | ⟨http,https,found⟩ | ⟨http,https,found⟩ := scheme_cases target
  · simp [http,found]
  · simp [http,https,found]
  · simp [http,https,found]

/-- A target without a path has the root as its path. -/
def rootTarget (query : Option (List UInt8)) : Result (List UInt8 × List UInt8) :=
  queryTokens query >>= fun parts => .ok (withQuery [0x2f] parts,[0x2f])

theorem root_open : rooted (openSegments (segmentsOf [])) = .ok [[]] := rfl

theorem root_routing : routingPath [] [[]] = [0x2f] := rfl

theorem canonical_root : canonicalTarget (ascii "/") = rootTarget none := rfl

theorem canonical_query (query : List UInt8) : canonicalTarget (0x2f :: 0x3f :: query) = rootTarget (some query) := by
  have split : splitQuery (0x2f :: 0x3f :: query) = ([0x2f],some query) := by
    have once : splitOnce 0x3f ([0x2f] ++ 0x3f :: query) = some ([0x2f],query) := splitOnce_first (by decide) query
    rw [splitQuery,← List.singleton_append,once]
  unfold canonicalTarget rootTarget
  rw [split]
  simp only [List.drop_one,List.tail_cons,tokens_nil,bind_ok,root_open,root_routing]

theorem pipeline_root_path {query : Option (List UInt8)} (small : ∀ text, query = some text → ∀ b ∈ text, isAscii b) :
    (RequestTargetValidatedPipeline.validatePathParts none query >>= fun path =>
      .ok (RequestTargetValidatedPipeline.canonicalPath path)) = rootTarget query := by
  have target (parts : Option (List Token)) (queried : queryTokens query = .ok parts) :
      RequestTargetValidatedPipeline.canonicalPath ⟨none,query⟩ = (withQuery [0x2f] parts,[0x2f]) :=
    pipeline_target .nil (by simp) root_open queried small
  unfold RequestTargetValidatedPipeline.validatePathParts rootTarget
  cases query with
  | none => simp [queryTokens,target none rfl]
  | some query =>
    simp only [Option.any_none,Bool.false_eq_true,if_false,pipeline_checks,queryTokens,bind_assoc,bind_ok]
    apply bind_congr_ok
    intro parts queried
    rw [target (some parts) (by simp [queryTokens,queried])]

theorem query_small {remainder query : List UInt8} (text : PathText (pathOf remainder))
    (path : pathOf remainder = 0x2f :: 0x3f :: query) :
    ∀ text, some query = some text → ∀ b ∈ text, isAscii b := by
  rintro text ⟨⟩ b member
  have visible := text.visible
  rw [path] at visible
  exact RequestTarget.graphic_ascii b (visible b (by simp [member])).1

theorem pipeline_suffix_path {remainder : List UInt8} (text : PathText (pathOf remainder)) :
    (RequestTargetValidatedPipeline.validateSuffix (remainder.drop
        ((position (fun byte => byte == 0x2f || byte == 0x3f) remainder).getD remainder.length)) >>= fun path =>
      .ok (RequestTargetValidatedPipeline.canonicalPath path)) = canonicalTarget (pathOf remainder) := by
  unfold RequestTargetValidatedPipeline.validateSuffix
  rcases suffix_cases remainder with ⟨path,suffix⟩ | ⟨query,path,suffix⟩ | ⟨rest,path,suffix⟩
  · rw [suffix,path,canonical_root,← pipeline_root_path (by simp)]
    rfl
  · rw [suffix,path,canonical_query,← pipeline_root_path (query_small text path)]
    simp [startsWith]
  · rw [path] at text
    rw [suffix,path,← pipeline_path text]
    simp [startsWith]

theorem pipeline_absolute {remainder : List UInt8} (text : PathText (pathOf remainder)) (scheme : List UInt8) :
    (RequestTargetValidatedPipeline.validateAbsolute remainder scheme >>= fun plan =>
      .ok (RequestTargetValidatedPipeline.materialize plan)) = absolute common scheme remainder := by
  unfold RequestTargetValidatedPipeline.validateAbsolute absolute
  simp only [common]
  rw [← pipeline_authority,← pipeline_suffix_path text]
  simp only [bind_assoc,bind_ok,RequestTargetValidatedPipeline.materialize]
  rfl

theorem map_eq_bind {α β : Type} (result : Result α) (f : α → β) : result.map f = (result >>= fun value => .ok (f value)) := by
  cases result <;> rfl

theorem pipeline_reference {request : RequestLine} (produced : Produced request) (clean : (0x5c : UInt8) ∉ request.target) :
    RequestTargetValidatedPipeline.normalizeRequestTarget request = normalize common request := by
  unfold RequestTargetValidatedPipeline.normalizeRequestTarget RequestTargetValidatedPipeline.validatedPlan
    RequestTargetValidatedPipeline.validateTargetBoundary normalize
  rw [envelope_eq produced,if_neg clean,map_eq_bind,bind_ok]
  simp only [common]
  by_cases star : request.target == ascii "*"
  · by_cases options : request.method == ascii "options" <;>
      simp [star,options,RequestTargetValidatedPipeline.materialize]
  · by_cases connect : request.method == ascii "connect"
    · by_cases refused : startsWith 0x2f request.target || (schemeOf request.target).isSome
      · simp [star,connect,refused,pipeline_scheme]
      · simp only [star,connect,refused,pipeline_scheme,Option.isSome_map,if_true,Bool.false_eq_true,if_false,
          map_eq_bind,bind_assoc,bind_ok,← pipeline_authority,RequestTargetValidatedPipeline.materialize]
    · by_cases slashed : startsWith 0x2f request.target
      · simp only [star,connect,slashed,if_true,Bool.false_eq_true,if_false,map_eq_bind,bind_assoc,bind_ok,
          ← pipeline_path (origin_text produced clean slashed),RequestTargetValidatedPipeline.materialize]
      · simp only [star,connect,slashed,Bool.false_eq_true,if_false,pipeline_scheme]
        obtain ⟨http,found⟩ | ⟨http,https,found⟩ | ⟨http,https,found⟩ := scheme_cases request.target
        · simp only [found,Option.map_some]
          exact pipeline_absolute (absolute_text produced clean found).1 _
        · simp only [found,Option.map_some]
          exact pipeline_absolute (absolute_text produced clean found).1 _
        · simp only [found,Option.map_none,invalidTarget_bind]

theorem composable_scheme (target : List UInt8) :
    RequestTargetComposableValidators.recognizedScheme target = schemeOf target := by
  unfold RequestTargetComposableValidators.recognizedScheme RequestTargetComposableValidators.schemeTable
  obtain ⟨http,found⟩ | ⟨http,https,found⟩ | ⟨http,https,found⟩ := scheme_cases target
  · simp [http,found]
    rfl
  · simp [http,https,found]
    rfl
  · simp [http,https,found]

theorem composable_query (query : Option (List UInt8)) :
    RequestTargetComposableValidators.validateQuery query = (queryTokens query >>= fun _ => .ok ()) := by
  cases query with
  | none => rfl
  | some query =>
    rw [RequestTargetComposableValidators.validateQuery,composable_checks,queryTokens,bind_assoc]
    rfl

theorem composable_path {value : List UInt8} (text : PathText value) (form : TargetForm) (other : form ≠ .authority)
    (scheme : Option (List UInt8)) (authority : Option RequestTargetComposableValidators.Authority) :
    (RequestTargetComposableValidators.validatePath (splitQuery value).1 >>= fun _ =>
      RequestTargetComposableValidators.validateQuery (splitQuery value).2 >>= fun _ =>
      RequestTargetComposableValidators.render ⟨form,scheme,authority,some (splitQuery value).1,(splitQuery value).2,none⟩) =
      (canonicalTarget value >>= fun target =>
        .ok ⟨form,scheme,authority.map RequestTargetComposableValidators.renderAuthority,target.1,target.2⟩) := by
  rw [← limit_idle text]
  obtain ⟨path,query,split,pathBytes,queryBytes,-⟩ := text.parts
  have small : ∀ b ∈ path, isAscii b := fun b member => RequestTarget.graphic_ascii b (pathBytes b member).1
  have querySmall : ∀ text, query = some text → ∀ b ∈ text, isAscii b :=
    fun text same b member => RequestTarget.graphic_ascii b (queryBytes text same b member).1
  unfold RequestTargetComposableValidators.validatePath canonicalTarget
  rw [split]
  simp only [List.isEmpty_cons,startsWith,List.head?_cons,beq_self_eq_true,Bool.not_true,Bool.or_self,
    Bool.false_eq_true,if_false,composable_checks,decide_true,tokens_slash,composable_query,bind_assoc,bind_ok,List.drop_one,
    List.tail_cons]
  apply bind_congr_ok
  intro parts reading
  have read := tokens_reads reading
  rw [composable_root read,bind_assoc]
  apply bind_congr_ok
  intro kept walked
  rw [bind_ok]
  apply bind_congr_ok
  intro queryParts queried
  obtain ⟨routing,whole⟩ := composable_target read small walked queried querySmall
  simp only [RequestTargetComposableValidators.render,other,if_false,Option.getD_some,routing,whole]

theorem composable_rootless {value : List UInt8} (text : PathText value) {query : Option (List UInt8)}
    (root : canonicalTarget value = rootTarget query) (small : ∀ text, query = some text → ∀ b ∈ text, isAscii b)
    (scheme : List UInt8) (authority : RequestTargetComposableValidators.Authority) :
    (RequestTargetComposableValidators.validateQuery query >>= fun _ =>
      RequestTargetComposableValidators.render ⟨.absolute,some scheme,some authority,none,query,none⟩) =
      (canonicalTarget value >>= fun target => .ok ⟨.absolute,some scheme,
        some (RequestTargetComposableValidators.renderAuthority authority),target.1,target.2⟩) := by
  rw [← limit_idle text,root,rootTarget,composable_query,bind_assoc,bind_assoc]
  apply bind_congr_ok
  intro parts queried
  obtain ⟨routing,whole⟩ := composable_target .nil (by simp) root_open queried small
  rw [root_routing] at routing whole
  have plain : RequestTargetComposableValidators.renderPath (ascii "/") = [0x2f] := routing
  simp [RequestTargetComposableValidators.render,plain,whole]

theorem composable_absolute {remainder : List UInt8} (text : PathText (pathOf remainder)) (scheme : List UInt8) :
    (RequestTargetComposableValidators.validateAbsolute remainder scheme >>= fun parts =>
      RequestTargetComposableValidators.render parts) = absolute common scheme remainder := by
  unfold RequestTargetComposableValidators.validateAbsolute absolute
  simp only [common]
  rw [← composable_authority]
  simp only [bind_assoc,bind_ok]
  apply bind_congr_ok
  intro authority _
  unfold RequestTargetComposableValidators.splitTail
  rcases suffix_cases remainder with ⟨path,suffix⟩ | ⟨query,path,suffix⟩ | ⟨rest,path,suffix⟩
  · have rendered := composable_rootless text (by rw [path,canonical_root]) (by simp) scheme authority
    rw [suffix,← rendered]
    rfl
  · have rendered := composable_rootless text (by rw [path,canonical_query]) (query_small text path) scheme authority
    rw [suffix,← rendered]
    simp [startsWith,RequestTargetComposableValidators.validateOptionalPath]
  · have rendered := composable_path text .absolute (by decide) (some scheme) (some authority)
    rw [path] at rendered
    rw [suffix,path]
    simpa [startsWith,RequestTargetComposableValidators.validateOptionalPath] using rendered

theorem composable_reference {request : RequestLine} (produced : Produced request)
    (clean : (0x5c : UInt8) ∉ request.target) :
    RequestTargetComposableValidators.normalizeRequestTarget request = normalize common request := by
  unfold RequestTargetComposableValidators.normalizeRequestTarget
    RequestTargetComposableValidators.validateAndDecompose normalize
  rw [composable_envelope produced,if_neg clean,bind_ok]
  simp only [common,composable_scheme]
  by_cases star : request.target == ascii "*"
  · have same : request.target = ascii "*" := by simpa using star
    by_cases options : request.method == ascii "options"
    · simp [options,same,RequestTargetComposableValidators.render]
    · simp [options,same]
  · by_cases connect : request.method == ascii "connect"
    · by_cases refused : startsWith 0x2f request.target || (schemeOf request.target).isSome
      · simp only [star,connect,refused,if_true,Bool.false_eq_true,if_false,invalidTarget_bind]
      · simp only [star,connect,refused,if_true,Bool.false_eq_true,if_false,bind_assoc,bind_ok,
          ← composable_authority,RequestTargetComposableValidators.render,Option.map_some,Option.getD_some]
    · by_cases slashed : startsWith 0x2f request.target
      · have rendered := composable_path (origin_text produced clean slashed) .origin (by decide) none none
        simp only [star,connect,slashed,if_true,Bool.false_eq_true,if_false,bind_assoc,bind_ok]
        exact rendered
      · simp only [star,connect,slashed,Bool.false_eq_true,if_false]
        cases found : schemeOf request.target with
        | none => rfl
        | some scheme => exact composable_absolute (absolute_text produced clean found).1 scheme.2

theorem offsets_absolute {remainder : List UInt8} (text : PathText (pathOf remainder)) (scheme : List UInt8) :
    RequestTargetInvariantOffsets.normalizeAbsolute remainder scheme = absolute eager scheme remainder := by
  unfold RequestTargetInvariantOffsets.normalizeAbsolute absolute
  simp only [offsets_authority,eager]
  apply bind_congr_ok
  intro authority _
  rw [← offsets_path text]
  rcases suffix_cases remainder with ⟨path,suffix⟩ | ⟨query,path,suffix⟩ | ⟨rest,path,suffix⟩
  · rw [path,suffix]
    rfl
  · rw [path,suffix]
    simp [startsWith]
  · rw [path,suffix]
    simp [startsWith]

theorem offsets_scheme (target : List UInt8) : RequestTargetInvariantOffsets.schemePrefix target = schemeOf target := rfl

theorem offsets_reference {request : RequestLine} (produced : Produced request)
    (clean : (0x5c : UInt8) ∉ request.target) :
    RequestTargetInvariantOffsets.normalizeRequestTarget request = normalize eager request := by
  unfold RequestTargetInvariantOffsets.normalizeRequestTarget RequestTargetInvariantOffsets.validateTargetEnvelope
    normalize
  rw [envelope_eq produced,if_neg clean,bind_ok]
  simp only [eager,offsets_scheme]
  by_cases star : request.target == ascii "*"
  · by_cases options : request.method == ascii "options"
    · have same : request.method = ascii "options" := by simpa using options
      simp [star,same]
    · have other : (request.method != ascii "options") = true := by simpa using options
      simp only [star,options,other,if_true,Bool.false_eq_true,if_false]
  · by_cases connect : request.method == ascii "connect"
    · by_cases refused : startsWith 0x2f request.target || (schemeOf request.target).isSome
      · simp only [star,connect,refused,if_true,Bool.false_eq_true,if_false]
      · simp only [star,connect,refused,if_true,Bool.false_eq_true,if_false,offsets_authority]
    · by_cases slashed : startsWith 0x2f request.target
      · simp only [star,connect,slashed,if_true,Bool.false_eq_true,if_false,
          offsets_path (origin_text produced clean slashed)]
      · simp only [star,connect,slashed,Bool.false_eq_true,if_false]
        cases found : schemeOf request.target with
        | none => rfl
        | some scheme => exact offsets_absolute (absolute_text produced clean found).1 scheme.2

theorem typed_absolute {remainder : List UInt8} (text : PathText (pathOf remainder))
    (unfragmented : remainder.contains 0x23 = false) (small : ∀ b ∈ authorityOf remainder, isAscii b)
    (scheme : RequestTargetTypedMatrix.Scheme) :
    RequestTargetTypedMatrix.absoluteResult scheme remainder = absolute terse scheme.text remainder := by
  have tail : RequestTargetTypedMatrix.tailPath (remainder.drop
      ((position (fun byte => byte == 0x2f || byte == 0x3f) remainder).getD remainder.length)) = .ok (pathOf remainder) := by
    unfold RequestTargetTypedMatrix.tailPath
    rcases suffix_cases remainder with ⟨path,suffix⟩ | ⟨query,path,suffix⟩ | ⟨rest,path,suffix⟩
    · rw [path,suffix]
      rfl
    · rw [path,suffix]
      simp [startsWith]
    · rw [path,suffix]
      simp [startsWith]
  unfold RequestTargetTypedMatrix.absoluteResult absolute
  simp only [unfragmented,Bool.false_eq_true,if_false,tail,bind_ok,terse,typed_path text,bind_assoc]
  have authority := typed_authority .optional small
  unfold authorityOf at authority ⊢
  rw [authority]
  rfl

theorem typed_method {request : RequestLine} (produced : Produced request) (word lowered : List UInt8)
    (folded : word.map toAsciiLowercase = lowered) : eqIgnoreAsciiCase request.method word = (request.method == lowered) := by
  rw [eqIgnoreAsciiCase,produced.lowercase,folded]

theorem typed_reference {request : RequestLine} (produced : Produced request) (clean : (0x5c : UInt8) ∉ request.target) :
    RequestTargetTypedMatrix.normalizeRequestTarget request = normalize terse request := by
  have unfragmented (length : Nat) : (request.target.drop length).contains 0x23 = false := by
    rw [List.contains_eq_mem,decide_eq_false_iff_not]
    intro member
    exact (produced.visible 0x23 (List.mem_of_mem_drop member)).2 rfl
  have absolute' {length : Nat} {scheme : List UInt8} (found : schemeOf request.target = some (length,scheme)) :=
    typed_absolute (absolute_text produced clean found).1 (unfragmented length) (absolute_text produced clean found).2
  have small : ∀ b ∈ request.target, isAscii b :=
    fun b member => RequestTarget.graphic_ascii b (produced.visible b member).1
  unfold RequestTargetTypedMatrix.normalizeRequestTarget RequestTargetTypedMatrix.Boundary.check normalize
  rw [if_neg (by have bound := produced.bounded; omega)]
  simp only [bind_ok,RequestTargetTypedMatrix.asciiPrefix,terse,
    typed_method produced (ascii "CONNECT") (ascii "connect") (by decide),
    typed_method produced (ascii "OPTIONS") (ascii "options") (by decide)]
  by_cases connect : request.method == ascii "connect"
  · have other : (request.method == ascii "options") = false := by
      cases options : request.method == ascii "options" with
      | false => rfl
      | true => rw [options_not_connect options] at connect; cases connect
    simp only [connect,other,if_true,Bool.false_eq_true,if_false]
    by_cases star : request.target == ascii "*"
    · simp only [star,if_true]
    · by_cases slashed : startsWith 0x2f request.target
      · simp only [star,slashed,if_true,Bool.false_eq_true,if_false,Bool.true_or]
      · obtain ⟨http,found⟩ | ⟨http,https,found⟩ | ⟨http,https,found⟩ := scheme_cases request.target
        · simp only [star,slashed,http,found,if_true,Bool.false_eq_true,if_false,Option.isSome_some,Bool.or_true]
        · simp only [star,slashed,http,https,found,if_true,Bool.false_eq_true,if_false,Option.isSome_some,
            Bool.or_true]
        · simp only [star,slashed,http,https,found,Bool.false_eq_true,if_false,Option.isSome_none,Bool.or_self,
            RequestTargetTypedMatrix.authorityResult,typed_authority _ small]
          rfl
  · simp only [connect,Bool.false_eq_true,if_false]
    by_cases options : request.method == ascii "options"
    · simp only [options,if_true]
      by_cases star : request.target == ascii "*"
      · simp only [star,if_true]
      · by_cases slashed : startsWith 0x2f request.target
        · simp only [star,slashed,if_true,Bool.false_eq_true,if_false,RequestTargetTypedMatrix.originResult,
            typed_path (origin_text produced clean slashed),bind_assoc,bind_ok]
        · obtain ⟨http,found⟩ | ⟨http,https,found⟩ | ⟨http,https,found⟩ := scheme_cases request.target
          · simp only [star,slashed,http,found,if_true,Bool.false_eq_true,if_false,absolute' found]
            rfl
          · simp only [star,slashed,http,https,found,if_true,Bool.false_eq_true,if_false,absolute' found]
            rfl
          · simp only [star,slashed,http,https,found,Bool.false_eq_true,if_false]
    · simp only [options,Bool.false_eq_true,if_false]
      by_cases star : request.target == ascii "*"
      · simp only [star,if_true]
      · by_cases slashed : startsWith 0x2f request.target
        · simp only [star,slashed,if_true,Bool.false_eq_true,if_false,RequestTargetTypedMatrix.originResult,
            typed_path (origin_text produced clean slashed),bind_assoc,bind_ok]
        · obtain ⟨http,found⟩ | ⟨http,https,found⟩ | ⟨http,https,found⟩ := scheme_cases request.target
          · simp only [star,slashed,http,found,if_true,Bool.false_eq_true,if_false,absolute' found]
            rfl
          · simp only [star,slashed,http,https,found,if_true,Bool.false_eq_true,if_false,absolute' found]
            rfl
          · simp only [star,slashed,http,https,found,Bool.false_eq_true,if_false]

/-- A result other than the refusal of a backslash. -/
def Avoids {α : Type} (result : Result α) : Prop := result ≠ invalidTarget "backslash_not_allowed"

theorem avoids_ok {α : Type} (value : α) : Avoids (.ok value : Result α) := by simp [Avoids,invalidTarget]

theorem avoids_authority {α : Type} : Avoids (invalidAuthority : Result α) := by
  simp [Avoids,invalidTarget,invalidAuthority]

theorem avoids_reason {α : Type} {reason : String} (other : reason ≠ "backslash_not_allowed") :
    Avoids (invalidTarget reason : Result α) := by simpa [Avoids,invalidTarget] using other

theorem avoids_bind {α β : Type} {first : Result α} {next : α → Result β} (head : Avoids first)
    (tail : ∀ value, Avoids (next value)) : Avoids (first >>= next) := by
  cases first with
  | error error =>
    intro same
    apply head
    simpa [invalidTarget] using same
  | ok value => exact tail value

theorem avoids_foldlM {α β : Type} {step : β → α → Result β} (steps : ∀ state item, Avoids (step state item))
    (items : List α) (state : β) : Avoids (items.foldlM step state) := by
  induction items generalizing state with
  | nil => exact avoids_ok state
  | cons item items ih =>
    rw [List.foldlM_cons]
    exact avoids_bind (steps state item) ih

theorem typed_escapes_avoid (context : RequestTargetTypedMatrix.EscapeContext) (output text : List UInt8) :
    Avoids (RequestTargetTypedMatrix.escapesFrom context output text) := by
  fun_induction RequestTargetTypedMatrix.escapesFrom context output text with
  | case1 => exact avoids_ok _
  | case2 => exact avoids_reason (by decide)
  | case3 => exact avoids_reason (by decide)
  | case4 => exact avoids_reason (by decide)
  | case5 output byte _ _ high low source _ _ _ _ _ _ _ _ ih => exact ih
  | case6 output byte _ _ high low source _ _ _ _ _ _ _ _ ih => exact ih
  | case7 => exact avoids_reason (by decide)
  | case8 => exact avoids_reason (by decide)
  | case9 output byte source _ _ ih => exact ih

theorem typed_component_avoids (raw : List UInt8) (context : RequestTargetTypedMatrix.EscapeContext) :
    Avoids (RequestTargetTypedMatrix.canonicalEscapes raw context) := by
  apply avoids_bind (typed_escapes_avoid context [] raw)
  intro output
  cases Utf8.fromUtf8 output with
  | none => exact avoids_reason (by decide)
  | some text => exact avoids_ok text

theorem typed_dots_avoid (path : List UInt8) : Avoids (RequestTargetTypedMatrix.reduceDotSegments path) := by
  have steps (count : Nat) (kept : List (List UInt8)) (indexed : List UInt8 × Nat) :
      Avoids (RequestTargetTypedMatrix.keepSegment count kept indexed) := by
    unfold RequestTargetTypedMatrix.keepSegment
    split
    · exact avoids_ok _
    · split
      · split
        · exact avoids_reason (by decide)
        · exact avoids_ok _
      · exact avoids_ok _
  apply avoids_bind (avoids_foldlM (steps _) _ _)
  intro kept
  exact avoids_ok _

theorem typed_path_avoids (raw : List UInt8) : Avoids (RequestTargetTypedMatrix.canonicalPathQuery raw) := by
  have finish (length : Nat) (path : RequestTargetTypedMatrix.CanonicalPath) :
      Avoids (if length > targetLimit then targetTooLong length else .ok path) := by
    split
    · simp [Avoids,targetTooLong,invalidTarget]
    · exact avoids_ok path
  unfold RequestTargetTypedMatrix.canonicalPathQuery
  split
  · exact avoids_reason (by decide)
  · split
    · exact avoids_reason (by decide)
    · obtain ⟨path,query⟩ := splitQuery raw
      apply avoids_bind (typed_component_avoids path .path)
      intro decoded
      apply avoids_bind (typed_dots_avoid decoded)
      intro routing
      cases query with
      | none => exact finish _ _
      | some value =>
        simp only [bind_ok]
        apply avoids_bind (typed_component_avoids value .query)
        intro query
        exact finish _ _

theorem typed_authority_avoids (raw : List UInt8) (rule : RequestTargetTypedMatrix.AuthorityPort) :
    Avoids (RequestTargetTypedMatrix.canonicalAuthority raw rule) := by
  have host : Avoids (RequestTargetTypedMatrix.parseHost raw) := by
    have hosts := typed_hosts raw
    cases parsed : RequestTargetTypedMatrix.parseHost raw with
    | ok read => exact avoids_ok read
    | error error =>
      cases read : readHost raw with
      | some host => simp [read,parsed] at hosts
      | none =>
        obtain rfl : error = .invalidAuthority := by simpa [read,parsed,invalidAuthority] using hosts
        exact avoids_authority
  have port (port : Option (List UInt8)) : Avoids (RequestTargetTypedMatrix.checkPort rule port) := by
    rw [typed_check]
    split
    · exact avoids_ok ()
    · exact avoids_authority
  unfold RequestTargetTypedMatrix.canonicalAuthority
  split
  · exact avoids_authority
  · apply avoids_bind host
    intro read
    apply avoids_bind (port read.2)
    intro _
    exact avoids_ok _

theorem typed_origin_avoids (raw : List UInt8) : Avoids (RequestTargetTypedMatrix.originResult raw) := by
  apply avoids_bind (typed_path_avoids raw)
  intro path
  exact avoids_ok _

theorem typed_absolute_avoids (scheme : RequestTargetTypedMatrix.Scheme) (remainder : List UInt8) :
    Avoids (RequestTargetTypedMatrix.absoluteResult scheme remainder) := by
  have tail (tail : List UInt8) : Avoids (RequestTargetTypedMatrix.tailPath tail) := by
    unfold RequestTargetTypedMatrix.tailPath
    split_ifs
    · exact avoids_ok _
    · exact avoids_ok _
    · exact avoids_ok _
    · exact avoids_reason (by decide)
  unfold RequestTargetTypedMatrix.absoluteResult
  split
  · exact avoids_reason (by decide)
  · apply avoids_bind (typed_authority_avoids _ _)
    intro authority
    apply avoids_bind (tail _)
    intro path
    apply avoids_bind (typed_path_avoids path)
    intro canonical
    exact avoids_ok _

theorem typed_avoids (request : RequestLine) : Avoids (RequestTargetTypedMatrix.normalizeRequestTarget request) := by
  have boundary : Avoids (RequestTargetTypedMatrix.Boundary.check request) := by
    unfold RequestTargetTypedMatrix.Boundary.check
    split
    · simp [Avoids,targetTooLong,invalidTarget]
    · exact avoids_ok _
  apply avoids_bind boundary
  intro boundary
  obtain ⟨method,target⟩ := boundary
  cases target with
  | asterisk =>
    cases method with
    | options => exact avoids_ok _
    | connect => exact avoids_reason (by decide)
    | other => exact avoids_reason (by decide)
  | origin raw =>
    cases method with
    | connect => exact avoids_reason (by decide)
    | options => exact typed_origin_avoids raw
    | other => exact typed_origin_avoids raw
  | absolute scheme remainder =>
    cases method with
    | connect => exact avoids_reason (by decide)
    | options => exact typed_absolute_avoids scheme remainder
    | other => exact typed_absolute_avoids scheme remainder
  | unclassified raw =>
    cases method with
    | connect =>
      apply avoids_bind (typed_authority_avoids raw .required)
      intro authority
      exact avoids_ok _
    | options => exact avoids_reason (by decide)
    | other => exact avoids_reason (by decide)

theorem tokens_never_climb (path : Bool) (text : List UInt8) : tokens path text ≠ invalidTarget "path_traversal" := by
  induction text using escape_induction with
  | nil => simp [invalidTarget]
  | literal byte bytes plain ih =>
    rw [tokens_literal path bytes plain]
    cases read : tokens path bytes with
    | error error =>
      rw [read] at ih
      simpa [invalidTarget] using ih
    | ok parts => simp [invalidTarget]
  | triplet high low bytes ih =>
    rw [tokens_triplet]
    rcases decodeTriplet_cases path high low with ⟨-,decoded⟩ | ⟨_,_,_,_,⟨-,decoded⟩ | ⟨-,-,decoded⟩ | ⟨-,-,decoded⟩⟩
    · simp [decoded,invalidTarget]
    · simp [decoded,invalidTarget]
    · simp [decoded,invalidTarget]
    · rw [decoded,bind_ok]
      cases read : tokens path bytes with
      | error error =>
        rw [read] at ih
        simpa [invalidTarget] using ih
      | ok parts => simp [invalidTarget]
  | short => simp [invalidTarget]
  | shorter high => simp [invalidTarget]

/-- The escapes of the query, when there is one, are in order. -/
def queryReads (value : List UInt8) : Bool := (queryTokens (splitQuery value).2).isOk

/-- The escapes of the path are in order and its segments climb above the root. -/
def climbs (value : List UInt8) : Bool :=
  match tokens true ((splitQuery value).1.drop 1) with
  | .error _ => false
  | .ok parts => (openSegments (segmentsOf parts)).isNone

/-- The path stays below its root and ends in two dots behind an empty open segment. -/
def losesFinalSlash (value : List UInt8) : Bool :=
  match tokens true ((splitQuery value).1.drop 1) with
  | .error _ => false
  | .ok parts => (openSegments (segmentsOf parts)).any fun kept => losesSlash kept (segmentsOf parts).getLast?

/-- The path is in order, stays below its root, and the query is in order. -/
def pathReads (value : List UInt8) : Bool :=
  match tokens true ((splitQuery value).1.drop 1) with
  | .error _ => false
  | .ok parts => (openSegments (segmentsOf parts)).isSome && queryReads value

theorem eager_agrees (value : List UInt8) :
    eagerTarget value = canonicalTarget value ↔ (climbs value → queryReads value) := by
  unfold eagerTarget canonicalTarget climbs queryReads
  cases tokens true ((splitQuery value).1.drop 1) with
  | error error => simp
  | ok parts =>
    cases opened : openSegments (segmentsOf parts) with
    | some kept => simp [opened]
    | none =>
      cases query : (splitQuery value).2 with
      | none => simp [opened,queryTokens,Except.isOk,Except.toBool]
      | some text =>
        have never := tokens_never_climb false text
        cases read : tokens false text with
        | ok spelled => simp [opened,queryTokens,read,Except.isOk,Except.toBool]
        | error error =>
          rw [read] at never
          simpa [opened,queryTokens,read,Except.isOk,Except.toBool,invalidTarget] using never

theorem terse_agrees (value : List UInt8) :
    terseTarget value = canonicalTarget value ↔ (losesFinalSlash value → queryReads value = false) := by
  unfold terseTarget canonicalTarget losesFinalSlash queryReads
  cases tokens true ((splitQuery value).1.drop 1) with
  | error error => simp
  | ok parts =>
    cases opened : openSegments (segmentsOf parts) with
    | none => simp [opened]
    | some kept =>
      cases queryTokens (splitQuery value).2 with
      | error error => simp [opened,Except.isOk,Except.toBool]
      | ok query =>
        by_cases loses : losesSlash kept (segmentsOf parts).getLast?
        · have differs : joined kept ≠ routingPath parts kept := losesSlash_differs loses
          simp [opened,loses,Except.isOk,Except.toBool,differs]
        · simp [opened,loses]

theorem canonical_reads (value : List UInt8) : (canonicalTarget value).isOk = pathReads value := by
  unfold canonicalTarget pathReads queryReads
  cases tokens true ((splitQuery value).1.drop 1) with
  | error error => rfl
  | ok parts =>
    cases opened : openSegments (segmentsOf parts) with
    | none => simp [opened,Except.isOk,Except.toBool,invalidTarget]
    | some kept =>
      cases queryTokens (splitQuery value).2 with
      | error error => simp [opened,Except.isOk,Except.toBool]
      | ok query => simp [opened,Except.isOk,Except.toBool]

/-- A path that all implementations read alike. -/
def PathAgrees (value : List UInt8) : Prop :=
  (climbs value → queryReads value) ∧ (losesFinalSlash value → queryReads value = false)

/-- The port of an authority, when it is read, has no leading zero. -/
def Unpadded (required : Bool) (text : List UInt8) : Prop :=
  ∀ host digits, readAuthority required text = some (host,some digits) → digits.head? ≠ some 0x30

/-- An absolute target that all implementations read alike: its authority is refused, or its path is read alike
and, where the path is accepted, the port is not padded. -/
def AbsoluteAgrees (remainder : List UInt8) : Prop :=
  readAuthority false (authorityOf remainder) = none ∨
    PathAgrees (pathOf remainder) ∧ (pathReads (pathOf remainder) → Unpadded false (authorityOf remainder))

/-- The targets on which the implementations agree, by method and form. -/
def TargetsAgree (request : RequestLine) : Prop :=
  (0x5c : UInt8) ∉ request.target ∧
  (request.target = ascii "*" ∨
    (request.target ≠ ascii "*" ∧ request.method = ascii "connect" ∧ startsWith 0x2f request.target = false ∧
      schemeOf request.target = none ∧ Unpadded true request.target) ∨
    (request.target ≠ ascii "*" ∧ request.method ≠ ascii "connect" ∧
      (startsWith 0x2f request.target ∧ PathAgrees request.target ∨
        startsWith 0x2f request.target = false ∧ ∃ length scheme, schemeOf request.target = some (length,scheme) ∧
          AbsoluteAgrees (request.target.drop length))))

theorem authority_agrees (required : Bool) (text : List UInt8) :
    keptAuthority required text = spelledAuthority required text ↔ Unpadded required text := by
  unfold Unpadded
  cases read : readAuthority required text with
  | none => simp [keptAuthority,spelledAuthority,read]
  | some authority =>
    obtain ⟨host,port⟩ := authority
    rw [spellings_agree read]
    constructor
    · intro unpadded _ digits same
      cases same
      exact unpadded digits rfl
    · intro unpadded digits same
      subst same
      exact unpadded host digits rfl

theorem bind_injective {α β : Type} {finish : α → β} (injective : Function.Injective finish) (left right : Result α) :
    (left >>= fun value => .ok (finish value)) = (right >>= fun value => .ok (finish value)) ↔ left = right := by
  constructor
  · intro same
    cases left with
    | error error =>
      cases right with
      | error other => simpa using same
      | ok value => simp at same
    | ok value =>
      cases right with
      | error other => simp at same
      | ok other =>
        simp only [bind_ok,Except.ok.injEq] at same
        rw [injective same]
  · rintro rfl
    rfl

theorem absolute_eager (scheme remainder : List UInt8) :
    absolute eager scheme remainder = absolute common scheme remainder ↔
      readAuthority false (authorityOf remainder) = none ∨
        (climbs (pathOf remainder) → queryReads (pathOf remainder)) := by
  rw [← eager_agrees]
  unfold absolute
  simp only [eager,common,spelledAuthority]
  cases readAuthority false (authorityOf remainder) with
  | none => simp
  | some authority =>
    simp only [Option.elim_some,bind_ok,reduceCtorEq,false_or]
    apply bind_injective
    intro left right same
    simpa [Prod.ext_iff] using same

theorem absolute_terse (scheme remainder : List UInt8) :
    absolute terse scheme remainder = absolute common scheme remainder ↔
      readAuthority false (authorityOf remainder) = none ∨
        (losesFinalSlash (pathOf remainder) → queryReads (pathOf remainder) = false) ∧
          (pathReads (pathOf remainder) → Unpadded false (authorityOf remainder)) := by
  rw [← terse_agrees,← canonical_reads,← authority_agrees]
  unfold absolute
  simp only [terse,common,keptAuthority,spelledAuthority]
  cases readAuthority false (authorityOf remainder) with
  | none => simp
  | some authority =>
    simp only [Option.elim_some,bind_ok,reduceCtorEq,false_or]
    cases canonical : canonicalTarget (pathOf remainder) with
    | error error =>
      cases terse : terseTarget (pathOf remainder) with
      | error other => simp [Except.isOk,Except.toBool]
      | ok target => simp
    | ok target =>
      cases terse : terseTarget (pathOf remainder) with
      | error other => simp
      | ok other =>
        simp only [bind_ok,Except.ok.injEq,NormalizedTarget.mk.injEq,true_and,Option.some.injEq,Prod.ext_iff,
          Except.isOk,Except.toBool,forall_const]
        tauto

theorem normalize_eager (request : RequestLine) :
    normalize eager request = normalize common request ↔
      (request.target ≠ ascii "*" → request.method ≠ ascii "connect" →
        (startsWith 0x2f request.target → climbs request.target → queryReads request.target) ∧
        (startsWith 0x2f request.target = false → ∀ length scheme, schemeOf request.target = some (length,scheme) →
          readAuthority false (authorityOf (request.target.drop length)) = none ∨
            (climbs (pathOf (request.target.drop length)) → queryReads (pathOf (request.target.drop length))))) := by
  unfold normalize
  by_cases star : request.target = ascii "*"
  · simp [star]
  · by_cases connect : request.method = ascii "connect"
    · simp [star,connect,eager,common]
    · cases slashed : startsWith 0x2f request.target with
      | true =>
        simp only [beq_iff_eq,star,connect,if_false,if_true,eager,common,ne_eq,not_false_eq_true,forall_const,
          reduceCtorEq,false_implies,and_true,← eager_agrees]
        apply bind_injective
        intro left right same
        simpa [Prod.ext_iff] using same
      | false =>
        simp only [beq_iff_eq,star,connect,if_false,ne_eq,not_false_eq_true,forall_const,Bool.false_eq_true,
          false_implies,true_and]
        cases found : schemeOf request.target with
        | none => simp [eager,common]
        | some scheme =>
          obtain ⟨length,scheme⟩ := scheme
          simp [absolute_eager]

theorem normalize_terse (request : RequestLine) :
    normalize terse request = normalize common request ↔
      (request.target ≠ ascii "*" →
        (request.method = ascii "connect" → startsWith 0x2f request.target = false ∧
          schemeOf request.target = none ∧ Unpadded true request.target) ∧
        (request.method ≠ ascii "connect" →
          (startsWith 0x2f request.target → losesFinalSlash request.target → queryReads request.target = false) ∧
          (startsWith 0x2f request.target = false → ∃ length scheme, schemeOf request.target = some (length,scheme) ∧
            (readAuthority false (authorityOf (request.target.drop length)) = none ∨
              (losesFinalSlash (pathOf (request.target.drop length)) →
                queryReads (pathOf (request.target.drop length)) = false) ∧
              (pathReads (pathOf (request.target.drop length)) →
                Unpadded false (authorityOf (request.target.drop length))))))) := by
  unfold normalize
  by_cases star : request.target = ascii "*"
  · simp [star]
  · by_cases connect : request.method = ascii "connect"
    · simp only [beq_iff_eq,star,connect,if_false,if_true,ne_eq,not_false_eq_true,forall_const,not_true_eq_false,
        false_implies,and_true]
      cases slashed : startsWith 0x2f request.target with
      | true => simp [terse,common,invalidTarget]
      | false =>
        cases found : schemeOf request.target with
        | some scheme => simp [terse,common,invalidTarget]
        | none =>
          simp only [Option.isSome_none,Bool.or_self,Bool.false_eq_true,if_false,true_and,← authority_agrees]
          apply bind_injective
          intro left right same
          simpa [fixedTarget] using same
    · cases slashed : startsWith 0x2f request.target with
      | true =>
        simp only [beq_iff_eq,star,connect,if_false,if_true,terse,common,ne_eq,not_false_eq_true,forall_const,
          reduceCtorEq,false_implies,and_true,true_and,← terse_agrees]
        apply bind_injective
        intro left right same
        simpa [Prod.ext_iff] using same
      | false =>
        simp only [beq_iff_eq,star,connect,if_false,ne_eq,not_false_eq_true,forall_const,Bool.false_eq_true,
          false_implies,true_and]
        cases found : schemeOf request.target with
        | none => simp [terse,common,invalidTarget]
        | some scheme =>
          obtain ⟨length,scheme⟩ := scheme
          simp [absolute_terse]

theorem agree_clean {request : RequestLine} (produced : Produced request) (clean : (0x5c : UInt8) ∉ request.target) :
    Agree requestTargetImplementations request ↔
      normalize eager request = normalize common request ∧ normalize terse request = normalize common request := by
  have rules := rules_reference produced clean
  have pipeline := pipeline_reference produced clean
  have offsets := offsets_reference produced clean
  have typed := typed_reference produced clean
  have composable := composable_reference produced clean
  constructor
  · intro agreed
    rw [← rules,← offsets,← typed]
    exact ⟨agreed _ (by simp [requestTargetImplementations]) _ (by simp [requestTargetImplementations]),
      agreed _ (by simp [requestTargetImplementations]) _ (by simp [requestTargetImplementations])⟩
  · intro ⟨eagerly,tersely⟩
    apply agree_of_reference (normalize common request)
    intro f member
    simp only [requestTargetImplementations,List.mem_cons,List.not_mem_nil,or_false] at member
    rcases member with rfl | rfl | rfl | rfl | rfl
    · exact rules
    · exact pipeline
    · exact offsets.trans eagerly
    · exact typed.trans tersely
    · exact composable

theorem backslash_differs {request : RequestLine} (produced : Produced request)
    (backslash : (0x5c : UInt8) ∈ request.target) : ¬ Agree requestTargetImplementations request := by
  intro agreed
  have same := agreed RequestTargetTypedMatrix.normalizeRequestTarget (by simp [requestTargetImplementations])
    RequestTargetRules.normalizeRequestTarget (by simp [requestTargetImplementations])
  apply typed_avoids request
  rw [same]
  unfold RequestTargetRules.normalizeRequestTarget RequestTargetRules.checkedBoundary
  rw [envelope_eq produced,if_pos backslash]
  rfl

/-- The implementations agree on a parsed request line exactly when its target holds no backslash, names a form its
method allows, writes no padded port and keeps clear of the two corners of a path. -/
theorem request_target_agreement_iff {parse : List UInt8 → Result RequestLine}
    (registered : parse ∈ requestLineImplementations) {input : List UInt8} {request : RequestLine}
    (parsed : parse input = .ok request) : Agree requestTargetImplementations request ↔ TargetsAgree request := by
  have produced := produced_of_parse registered parsed
  by_cases backslash : (0x5c : UInt8) ∈ request.target
  · constructor
    · intro agreed
      exact absurd agreed (backslash_differs produced backslash)
    · intro agrees
      exact absurd backslash agrees.1
  · rw [agree_clean produced backslash,normalize_eager,normalize_terse]
    unfold TargetsAgree AbsoluteAgrees PathAgrees
    by_cases star : request.target = ascii "*"
    · rw [star] at backslash
      simp [star,backslash]
    · by_cases connect : request.method = ascii "connect"
      · simp [star,connect,backslash]
      · cases slashed : startsWith 0x2f request.target with
        | true => simp [star,connect,backslash]
        | false =>
          cases found : schemeOf request.target with
          | none => simp [star,connect]
          | some scheme =>
            obtain ⟨length,scheme⟩ := scheme
            simp [star,connect,backslash]
            tauto

theorem request_target_agreement_doubled :
    RequestLineDirect.parseRequestLine (ascii "GET /a//b HTTP/1.1\r\n") =
        .ok ⟨ascii "get",ascii "/a//b",.http11,20⟩ ∧
      Agree requestTargetImplementations ⟨ascii "get",ascii "/a//b",.http11,20⟩ := by
  have parsed : RequestLineDirect.parseRequestLine (ascii "GET /a//b HTTP/1.1\r\n") =
      .ok ⟨ascii "get",ascii "/a//b",.http11,20⟩ := by decide +kernel
  have path : PathAgrees (ascii "/a//b") := by
    unfold PathAgrees
    decide +kernel
  have agrees := request_target_agreement_iff
    (show RequestLineDirect.parseRequestLine ∈ requestLineImplementations by simp [requestLineImplementations]) parsed
  exact ⟨parsed,agrees.mpr ⟨by decide,.inr (.inr ⟨by decide,by decide,.inl ⟨by decide,path⟩⟩)⟩⟩

/-- Two dots behind a doubled slash: the typed matrix drops the slash the others keep. -/
theorem request_target_disagreement :
    ¬ ∀ parse ∈ requestLineImplementations, ∀ (input : List UInt8) (request : RequestLine),
      parse input = .ok request → Agree requestTargetImplementations request := by
  intro agreement
  have agreed := agreement RequestLineDirect.parseRequestLine (by simp [requestLineImplementations])
    (ascii "GET /a//b/.. HTTP/1.1\r\n") ⟨ascii "get",ascii "/a//b/..",.http11,23⟩ (by decide)
  have same := agreed RequestTargetRules.normalizeRequestTarget (by simp [requestTargetImplementations])
    RequestTargetTypedMatrix.normalizeRequestTarget (by simp [requestTargetImplementations])
  revert same
  decide +kernel

end Polyguard.RequestTargetAgreement
