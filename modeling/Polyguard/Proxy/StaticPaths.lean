import Polyguard.RequestTarget.Ordinary
import Polyguard.Proxy.Ranges
import Polyguard.Proxy.Rewriting

/-! The paths that the static action asks the file system for.
A candidate is the directory with ordinary components behind it. The components are those
of the routing path, so that an alias may only cut the first one short. -/
namespace Polyguard.Proxy
open Ascii Slices RequestTarget RequestTargetAgreement RequestLineAgreement

section Candidates

/-- The components of a path. -/
def components (path : List UInt8) : List (List UInt8) := (path.splitOn 0x2f).filter (!·.isEmpty)

/-- The directory followed by ordinary components. -/
def Below (directory candidate : List UInt8) : Prop :=
  ∃ below : List (List UInt8), candidate = below.foldl joinPath directory ∧
    ∀ component ∈ below, component ≠ [] ∧ (0x2f : UInt8) ∉ component ∧ Ordinary component

theorem ordinary_refusal (component : List UInt8) :
    (component = ascii "." ∨ component = ascii ".." ∨ component.contains 0) ↔ ¬ Ordinary component := by
  rw [← not_iff_not,not_not,not_or,not_or]
  constructor
  · rintro ⟨dot,dots,filled⟩
    refine ⟨?_,by simpa using filled⟩
    rw [isDotSegment,beq_eq_false_iff_ne.mpr dot,beq_eq_false_iff_ne.mpr dots]
    rfl
  · rintro ⟨named,filled⟩
    unfold isDotSegment at named
    rw [Bool.or_eq_false_iff,beq_eq_false_iff_ne,beq_eq_false_iff_ne] at named
    exact ⟨named.1,named.2,by simpa using filled⟩

theorem staticCandidateLoop_iff {below : List (List UInt8)} {start candidate : List UInt8} :
    staticCandidateLoop start below = some candidate ↔
      (∀ component ∈ below, Ordinary component) ∧ candidate = below.foldl joinPath start := by
  induction below generalizing start with
  | nil =>
    rw [staticCandidateLoop,Option.some.injEq]
    exact ⟨fun same => ⟨List.forall_mem_nil _,same.symm⟩,fun both => both.2.symm⟩
  | cons component below ih =>
    rw [staticCandidateLoop]
    by_cases ordinary : Ordinary component
    · rw [if_neg ((ordinary_refusal component).not.mpr (not_not.mpr ordinary)),ih,List.forall_mem_cons,List.foldl_cons]
      exact ⟨fun both => ⟨⟨ordinary,both.1⟩,both.2⟩,fun both => ⟨both.1.2,both.2⟩⟩
    · rw [if_pos ((ordinary_refusal component).mpr ordinary)]
      exact iff_of_false (fun impossible => by cases impossible) fun both => ordinary (both.1 component List.mem_cons_self)

/-- A candidate is given exactly for a path of ordinary segments, and then lies below the directory. -/
theorem staticCandidate_iff {directory relative : List UInt8} :
    (∃ candidate, staticCandidate directory relative = some candidate ∧ Below directory candidate) ↔
      ∀ component ∈ components relative, Ordinary component := by
  constructor
  · rintro ⟨candidate,found,-⟩
    exact (staticCandidateLoop_iff.mp found).1
  · intro ordinary
    refine ⟨_,staticCandidateLoop_iff.mpr ⟨ordinary,rfl⟩,_,rfl,fun component member => ?_⟩
    obtain ⟨among,some⟩ := List.mem_filter.mp member
    exact ⟨by simpa using some,separator_free among,ordinary component member⟩

theorem components_iff {path : List UInt8} :
    (∀ component ∈ components path, Ordinary component) ↔ ∀ segment ∈ path.splitOn 0x2f, Ordinary segment := by
  constructor
  · intro each segment member
    cases segment with
    | nil => exact ⟨rfl,List.not_mem_nil⟩
    | cons byte segment => exact each _ (List.mem_filter.mpr ⟨member,rfl⟩)
  · exact fun each component member => each component (List.mem_filter.mp member).1

theorem components_trim (path : List UInt8) : components (trimStartSlashes path) = components path := by
  induction path with
  | nil => rfl
  | cons byte path ih =>
    by_cases slash : (byte == 0x2f) = true
    · have same : trimStartSlashes (byte :: path) = trimStartSlashes path := List.dropWhile_cons_of_pos slash
      rw [same,ih,components,components,List.splitOn_cons_eq_if_modifyHead,if_pos slash]
      rfl
    · have same : trimStartSlashes (byte :: path) = byte :: path := List.dropWhile_cons_of_neg slash
      rw [same]

theorem rest_ordinary {front rest : List UInt8} (each : ∀ segment ∈ (front ++ rest).splitOn 0x2f, Ordinary segment) :
    (∀ segment ∈ rest.splitOn 0x2f, Ordinary segment) ↔ isDotSegment ((rest.splitOn 0x2f).headD []) = false := by
  have filled : (0 : UInt8) ∉ rest := by
    intro member
    rcases splitOn_mem 0x2f (List.mem_append_right front member) with impossible | ⟨segment,among,inside⟩
    · cases impossible
    · exact (each segment among).filled inside
  have later : ∀ segment ∈ (rest.splitOn 0x2f).tail, Ordinary segment := by
    intro segment member
    rw [splitOn_append] at each
    exact each segment (List.mem_append_right _ (List.mem_cons_of_mem _ member))
  obtain ⟨head,tail,split⟩ := List.exists_cons_of_ne_nil (List.splitOn_ne_nil 0x2f rest)
  rw [split] at later ⊢
  rw [List.forall_mem_cons]
  refine ⟨fun both => both.1.named,fun named => ⟨⟨named,fun inside => filled ?_⟩,later⟩⟩
  exact mem_of_mem_splitOn (split ▸ List.mem_cons_self) inside

theorem configured_ordinary {page : List UInt8} (configured : validConfigPath page) :
    (∀ segment ∈ page.splitOn 0x2f, Ordinary segment) ↔ ∀ segment ∈ page.splitOn 0x2f, isDotSegment segment = false := by
  refine ⟨fun each segment member => (each segment member).named,fun each segment member => ⟨each segment member,fun inside => ?_⟩⟩
  unfold validConfigPath at configured
  rw [Bool.and_eq_true] at configured
  exact absurd (List.all_eq_true.mp configured.2 0 (mem_of_mem_splitOn member inside)) (by decide)

end Candidates

section Confinement
variable {files others : FileSystem} {directory : List UInt8}

/-- Lexically inside of the directory: behind its components, with none that leads out again. -/
def Inside (directory path : List UInt8) : Prop :=
  pathStartsWith path directory ∧ ∀ segment ∈ path.splitOn 0x2f, isDotSegment segment = false

/-- `fs::canonicalize` leaves no component of dots. -/
def Canonicalizes (files : FileSystem) : Prop :=
  ∀ path canonical, files.canonicalize path = some canonical → ∀ segment ∈ canonical.splitOn 0x2f, isDotSegment segment = false

/-- Two file systems that differ in opened files outside of the directory only. -/
structure SameInside (directory : List UInt8) (files others : FileSystem) : Prop where
  canonicalize : files.canonicalize = others.canonicalize
  isDir : files.isDir = others.isDir
  isFile : files.isFile = others.isFile
  openFile : ∀ path, Inside directory path → files.openFile path = others.openFile path

theorem resolveStaticFile_inside (canonicalizes : Canonicalizes files) {candidate file : List UInt8} {indexes : List (List UInt8)}
    {tryFiles : Bool} (found : resolveStaticFile files directory candidate indexes tryFiles = some file) : Inside directory file := by
  unfold resolveStaticFile at found
  obtain ⟨resolved,canonical,found⟩ := Option.bind_eq_some_iff.mp found
  split at found
  · cases found
  · rename_i inside
    rw [Bool.not_eq_true',Bool.not_eq_false] at inside
    split at found
    · split at found
      · cases found
      · obtain ⟨index,-,found⟩ := List.exists_of_findSome?_eq_some found
        obtain ⟨indexed,canonical,found⟩ := Option.bind_eq_some_iff.mp found
        split at found
        · rename_i kept
          cases found
          exact ⟨(Bool.and_eq_true_iff.mp kept).1,canonicalizes _ _ canonical⟩
        · cases found
    · split at found
      · cases found
        exact ⟨inside,canonicalizes _ _ canonical⟩
      · cases found

theorem resolveStaticFile_same (same : SameInside directory files others) :
    resolveStaticFile files = resolveStaticFile others := by
  funext root candidate indexes tryFiles
  unfold resolveStaticFile
  rw [same.canonicalize,same.isDir,same.isFile]

theorem readStaticFile_same (canonicalizes : Canonicalizes files) (same : SameInside directory files others) (candidate : List UInt8)
    (indexes : List (List UInt8)) (tryFiles : Bool) (maxBytes : Nat) (budgets : Nat → Memory.Budget) :
    readStaticFile files directory candidate indexes tryFiles maxBytes budgets =
      readStaticFile others directory candidate indexes tryFiles maxBytes budgets := by
  unfold readStaticFile
  rw [← resolveStaticFile_same same]
  cases found : resolveStaticFile files directory candidate indexes tryFiles with
  | none => rfl
  | some file =>
    dsimp only
    rw [same.openFile file (resolveStaticFile_inside canonicalizes found)]

theorem serveStatic_same {route : RuntimeRoute} {mapping : StaticMapping} {index : List (List UInt8)} {tryFiles : Bool}
    {errorPage404 : Option (List UInt8)} (action : route.action = .files directory mapping index tryFiles errorPage404)
    (canonicalizes : Canonicalizes files) (same : SameInside directory files others) (target : NormalizedTarget) (method : List UInt8)
    (headers : HeaderBlock) (maxBytes : Nat) (budgets : Nat → Memory.Budget) :
    serveStatic files route target method headers maxBytes budgets = serveStatic others route target method headers maxBytes budgets := by
  have read := readStaticFile_same canonicalizes same
  unfold serveStatic
  rw [action]
  dsimp only
  simp only [read,resolveStaticFile_same same]

end Confinement

section Answers

theorem reserve_busy {budgets : Nat → Memory.Budget} {bytes : Nat} {fault : Fault}
    (failed : Account.reserve budgets bytes = .error fault) : fault = .busy := by
  unfold Account.reserve at failed
  split at failed
  · cases failed
  · cases failed
    rfl

theorem fixedResponse_answers (status : Nat) (text : List UInt8) (budgets : Nat → Memory.Budget) :
    fixedResponse status text budgets ≠ .error .internal := by
  unfold fixedResponse
  cases reserved : Account.reserve budgets text.length with
  | error fault =>
    rw [reserve_busy reserved]
    intro impossible
    cases impossible
  | ok account =>
    intro impossible
    cases impossible

theorem readStaticFile_answers (files : FileSystem) (root candidate : List UInt8) (indexes : List (List UInt8)) (tryFiles : Bool)
    (maxBytes : Nat) (budgets : Nat → Memory.Budget) :
    readStaticFile files root candidate indexes tryFiles maxBytes budgets ≠ .error .internal := by
  unfold readStaticFile
  split
  · intro impossible
    cases impossible
  · split
    · intro impossible
      cases impossible
    · split
      · intro impossible
        cases impossible
      · rename_i length content _ _
        cases reserved : Account.reserve budgets length with
        | error fault =>
          rw [reserve_busy reserved]
          intro impossible
          cases impossible
        | ok account =>
          cases content <;> intro impossible <;> cases impossible

theorem missingFile_answers (files : FileSystem) (directory : List UInt8) {errorPage404 : Option (List UInt8)}
    (page : ∀ page ∈ errorPage404, ∃ candidate, staticCandidate directory (trimStartSlashes page) = some candidate)
    (maxBytes : Nat) (budgets : Nat → Memory.Budget) : (match errorPage404 with
      | none => fixedResponse 404 (ascii "not found" ++ [0x0a]) budgets
      | some errorPage =>
        match staticCandidate directory (trimStartSlashes errorPage) with
        | none => .error .internal
        | some candidate => do
          match ← readStaticFile files directory candidate [] false maxBytes budgets with
          | some (path,body,account) => return ⟨404,staticContentType path,body,account,[]⟩
          | none => fixedResponse 404 (ascii "not found" ++ [0x0a]) budgets) ≠ .error .internal := by
  cases errorPage404 with
  | none => exact fixedResponse_answers _ _ _
  | some errorPage =>
    obtain ⟨candidate,placed⟩ := page errorPage rfl
    dsimp only
    rw [placed]
    dsimp only
    have answered := readStaticFile_answers files directory candidate [] false maxBytes budgets
    cases read : readStaticFile files directory candidate [] false maxBytes budgets with
    | error fault =>
      rintro impossible
      cases impossible
      exact answered read
    | ok found =>
      cases found with
      | none => exact fixedResponse_answers _ _ _
      | some file =>
        rintro impossible
        cases impossible

theorem serveStatic_answers (files : FileSystem) {route : RuntimeRoute} {target : NormalizedTarget} {directory : List UInt8}
    {mapping : StaticMapping} {index : List (List UInt8)} {tryFiles : Bool} {errorPage404 : Option (List UInt8)}
    (action : route.action = .files directory mapping index tryFiles errorPage404) {candidate : List UInt8}
    (placed : (staticRelative mapping route target).bind (staticCandidate directory) = some candidate)
    (page : ∀ page ∈ errorPage404, ∃ candidate, staticCandidate directory (trimStartSlashes page) = some candidate)
    (method : List UInt8) (headers : HeaderBlock) (maxBytes : Nat) (budgets : Nat → Memory.Budget) :
    serveStatic files route target method headers maxBytes budgets ≠ .error .internal := by
  unfold serveStatic
  rw [action]
  cases mapping
  all_goals
    dsimp only [staticRelative] at placed ⊢
    rw [placed]
    dsimp only
    split
    · exact fixedResponse_answers _ _ _
    · have answered := readStaticFile_answers files directory candidate index tryFiles maxBytes budgets
      cases read : readStaticFile files directory candidate index tryFiles maxBytes budgets with
      | error fault =>
        rintro impossible
        cases impossible
        exact answered read
      | ok found =>
        cases found with
        | none => exact missingFile_answers files directory page maxBytes budgets
        | some file =>
          rintro impossible
          cases impossible

end Answers

section Static
variable {target : NormalizedTarget} {route : RuntimeRoute} {directory : List UInt8} {mapping : StaticMapping}
  {index : List (List UInt8)} {tryFiles : Bool} {errorPage404 : Option (List UInt8)}

/-- What a static route promises for a target: candidates below the directory for the request and for the error page, an answer
that is no internal fault, and no opened file outside of the directory. -/
structure StaysInside (route : RuntimeRoute) (target : NormalizedTarget) (directory : List UInt8) (mapping : StaticMapping)
    (errorPage404 : Option (List UInt8)) : Prop where
  requested : ∃ relative candidate, staticRelative mapping route target = some relative ∧
    staticCandidate directory relative = some candidate ∧ Below directory candidate
  errorPage : ∀ page ∈ errorPage404, ∃ candidate, staticCandidate directory (trimStartSlashes page) = some candidate ∧
    Below directory candidate
  answered : ∀ files method headers maxBytes budgets, serveStatic files route target method headers maxBytes budgets ≠ .error .internal
  confined : ∀ files others method headers maxBytes budgets, Canonicalizes files → SameInside directory files others →
    serveStatic files route target method headers maxBytes budgets = serveStatic others route target method headers maxBytes budgets

/-- An alias leaves no dots in front of the next slash, and the error page has no segment of dots. -/
structure StaticFits (route : RuntimeRoute) (target : NormalizedTarget) (mapping : StaticMapping)
    (errorPage404 : Option (List UInt8)) : Prop where
  stripped : mapping = .alias → ∃ rest, target.routingPath = route.path ++ rest ∧ isDotSegment ((rest.splitOn 0x2f).headD []) = false
  errorPage : ∀ page ∈ errorPage404, ∀ segment ∈ page.splitOn 0x2f, isDotSegment segment = false

theorem candidate_trimmed {path : List UInt8} :
    (∃ candidate, staticCandidate directory (trimStartSlashes path) = some candidate ∧ Below directory candidate) ↔
      ∀ segment ∈ path.splitOn 0x2f, Ordinary segment := by
  rw [staticCandidate_iff,components_trim,components_iff]

theorem requested_iff (each : ∀ segment ∈ target.routingPath.splitOn 0x2f, Ordinary segment) :
    (∃ relative candidate, staticRelative mapping route target = some relative ∧
      staticCandidate directory relative = some candidate ∧ Below directory candidate) ↔
    (mapping = .alias → ∃ rest, target.routingPath = route.path ++ rest ∧ isDotSegment ((rest.splitOn 0x2f).headD []) = false) := by
  cases mapping
  · refine iff_of_true ?_ fun impossible => by cases impossible
    obtain ⟨candidate,found⟩ := candidate_trimmed.mpr each
    exact ⟨_,candidate,rfl,found⟩
  · constructor
    · rintro ⟨relative,candidate,stripped,found⟩ -
      obtain ⟨rest,same,rfl⟩ := Option.map_eq_some_iff.mp stripped
      unfold stripPrefix at same
      split at same
      · rename_i front
        obtain ⟨back,split⟩ := List.isPrefixOf_iff_prefix.mp front
        rw [← split,List.drop_left] at same
        cases same
        rw [← split] at each
        exact ⟨rest,split.symm,(rest_ordinary each).mp (candidate_trimmed.mp ⟨candidate,found⟩)⟩
      · cases same
    · intro fits
      obtain ⟨rest,split,named⟩ := fits rfl
      rw [split] at each
      obtain ⟨candidate,found⟩ := candidate_trimmed.mpr ((rest_ordinary each).mpr named)
      refine ⟨trimStartSlashes rest,candidate,?_,found⟩
      rw [staticRelative,split,stripPrefix_append]
      rfl

/-- A static route stays inside of its directory and answers exactly when the target and the error page fit it. -/
theorem static_inside_iff {parse : List UInt8 → Result RequestLine} (registered : parse ∈ requestLineImplementations)
    {input : List UInt8} {request : RequestLine} (parsed : parse input = .ok request)
    {normalizer : RequestLine → Result NormalizedTarget} (implemented : normalizer ∈ requestTargetImplementations)
    (accepted : normalizer request = .ok target) (action : route.action = .files directory mapping index tryFiles errorPage404)
    (configured : ∀ page ∈ errorPage404, validConfigPath page) :
    StaysInside route target directory mapping errorPage404 ↔ StaticFits route target mapping errorPage404 := by
  have each := normalized_ordinary implemented (produced_of_parse registered parsed) accepted
  have pages (page : List UInt8) (member : page ∈ errorPage404) :
      (∃ candidate, staticCandidate directory (trimStartSlashes page) = some candidate ∧ Below directory candidate) ↔
        ∀ segment ∈ page.splitOn 0x2f, isDotSegment segment = false := by
    rw [candidate_trimmed,configured_ordinary (configured page member)]
  constructor
  · intro inside
    exact ⟨(requested_iff each).mp inside.requested,fun page member => (pages page member).mp (inside.errorPage page member)⟩
  · intro fits
    have requested := (@requested_iff target route directory mapping each).mpr fits.stripped
    have errorPage := fun page member => (pages page member).mpr (fits.errorPage page member)
    refine ⟨requested,errorPage,?_,fun files others method headers maxBytes budgets canonicalizes same =>
      serveStatic_same action canonicalizes same target method headers maxBytes budgets⟩
    intro files method headers maxBytes budgets
    obtain ⟨relative,candidate,placed,found,-⟩ := requested
    refine @serveStatic_answers files route target directory mapping index tryFiles errorPage404 action candidate ?_ (fun page member => ?_) method headers maxBytes budgets
    · rw [placed,Option.bind_some,found]
    · obtain ⟨candidate,found,-⟩ := errorPage page member
      exact ⟨candidate,found⟩

def sampleAlias : RuntimeRoute :=
  ⟨actionId 0,ascii "*",ascii "/a",.pathPrefix,[],[],0,[],[],[],.files (ascii "/srv") .alias [ascii "index.html"] true
    (some (ascii "/404.html")),0⟩

theorem static_inside_nested : StaysInside sampleAlias ⟨.origin,none,none,ascii "/a/b",ascii "/a/b"⟩ (ascii "/srv") .alias
    (some (ascii "/404.html")) := by
  refine (@static_inside_iff ⟨.origin,none,none,ascii "/a/b",ascii "/a/b"⟩ sampleAlias (ascii "/srv") .alias [ascii "index.html"] true
    (some (ascii "/404.html")) RequestLineDirect.parseRequestLine (by simp [requestLineImplementations])
    (ascii "GET /a/b HTTP/1.1\r\n") ⟨ascii "get",ascii "/a/b",.http11,19⟩ (by decide +kernel)
    RequestTargetRules.normalizeRequestTarget (by simp [requestTargetImplementations]) (by decide +kernel) rfl (by decide +kernel)).mpr ?_
  exact ⟨fun _ => ⟨ascii "/b",by decide,by decide +kernel⟩,by decide +kernel⟩

def noFiles : FileSystem := ⟨fun _ => none,fun _ => false,fun _ => false,fun _ => none⟩

/-- The prefix of the alias ends inside of a segment, and dots are left of the path; an error page may climb out as well. -/
theorem static_alias_fails :
    RequestLineDirect.parseRequestLine (ascii "GET /a.. HTTP/1.1\r\n") = .ok ⟨ascii "get",ascii "/a..",.http11,19⟩ ∧
      RequestTargetRules.normalizeRequestTarget ⟨ascii "get",ascii "/a..",.http11,19⟩ = .ok ⟨.origin,none,none,ascii "/a..",ascii "/a.."⟩ ∧
      runtimePathMatches sampleAlias (ascii "/a..") ∧
      serveStatic noFiles sampleAlias ⟨.origin,none,none,ascii "/a..",ascii "/a.."⟩ (ascii "get") ⟨[],0⟩ 0 (fun _ => ⟨0,0⟩) =
        .error .internal ∧
      validConfigPath (ascii "/../secret") ∧ staticCandidate (ascii "/srv") (trimStartSlashes (ascii "/../secret")) = none ∧
      ¬ StaysInside sampleAlias ⟨.origin,none,none,ascii "/a..",ascii "/a.."⟩ (ascii "/srv") .alias (some (ascii "/404.html")) := by
  have failed : serveStatic noFiles sampleAlias ⟨.origin,none,none,ascii "/a..",ascii "/a.."⟩ (ascii "get") ⟨[],0⟩ 0
      (fun _ => ⟨0,0⟩) = .error .internal := by
    have dots : ((stripPrefix (ascii "/a") (ascii "/a..")).map trimStartSlashes).bind (staticCandidate (ascii "/srv")) = none := by
      decide +kernel
    unfold serveStatic sampleAlias
    dsimp only
    rw [dots]
  exact ⟨by decide +kernel,by decide +kernel,by decide +kernel,failed,by decide +kernel,by decide +kernel,
    fun inside => inside.answered _ _ _ _ _ failed⟩

end Static
end Polyguard.Proxy
