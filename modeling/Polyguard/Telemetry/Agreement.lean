import Polyguard.Telemetry.Implementations

/-! Agreement and exactness of the telemetry classifiers.
Nine codes name their category; five categories are decided before an upstream is
reached. Outside the nine codes every classifier refuses for its own reason: no
rule, no symbol, no length, no fingerprint with that literal, no two words. -/
namespace Polyguard.TelemetryAgreement
open Ascii

def codeOf : OutcomeCategory → List UInt8
  | .accepted => ascii "accepted"
  | .clientSyntax => ascii "client_syntax"
  | .ambiguousFraming => ascii "ambiguous_framing"
  | .policyRejected => ascii "policy_rejected"
  | .routeMissing => ascii "route_missing"
  | .upstreamFailure => ascii "upstream_failure"
  | .timeout => ascii "timeout"
  | .implementationDisagreement => ascii "implementation_disagreement"
  | .internalFailure => ascii "internal_failure"

/-- The categories that are decided before an upstream is reached. -/
def beforeUpstream : OutcomeCategory → Bool
  | .clientSyntax => true
  | .ambiguousFraming => true
  | .policyRejected => true
  | .routeMissing => true
  | .implementationDisagreement => true
  | _ => false

/-- The outcome of a code of this category. -/
def outcomeOf (category : OutcomeCategory) (upstreamReached : Bool) : Result TelemetryOutcome :=
  if upstreamReached && beforeUpstream category then serializationInvariant else .ok ⟨category,category == .accepted⟩

def Specified (code : List UInt8) : Prop := ∃ category, code = codeOf category

theorem codeOf_injective {left right : OutcomeCategory} (same : codeOf left = codeOf right) : left = right := by
  revert same
  cases left <;> cases right <;> decide

theorem foreign_cases {code : List UInt8} (other : ¬ Specified code) :
    code ≠ ascii "accepted" ∧ code ≠ ascii "client_syntax" ∧ code ≠ ascii "ambiguous_framing" ∧
      code ≠ ascii "policy_rejected" ∧ code ≠ ascii "route_missing" ∧ code ≠ ascii "upstream_failure" ∧
      code ≠ ascii "timeout" ∧ code ≠ ascii "implementation_disagreement" ∧ code ≠ ascii "internal_failure" := by
  have differs (category : OutcomeCategory) : code ≠ codeOf category := by
    rintro rfl
    exact other ⟨category,rfl⟩
  exact ⟨differs .accepted,differs .clientSyntax,differs .ambiguousFraming,differs .policyRejected,
    differs .routeMissing,differs .upstreamFailure,differs .timeout,differs .implementationDisagreement,
    differs .internalFailure⟩

/-- A classifier that knows the nine codes and refuses the rest. -/
def Classifies (classify : List UInt8 → Bool → Result TelemetryOutcome) : Prop :=
  (∀ category reached, classify (codeOf category) reached = outcomeOf category reached) ∧
    ∀ code reached, ¬ Specified code → classify code reached = serializationInvariant

theorem table_codes : TelemetryRuleTable.rules.all fun rule => rule.code == codeOf rule.category := by decide

theorem table_classifies : Classifies TelemetryRuleTable.classifyTelemetryOutcome := by
  constructor
  · intro category reached
    cases category <;> cases reached <;> rfl
  · intro code reached other
    have missing : TelemetryRuleTable.rules.find? (·.code == code) = none := by
      rw [List.find?_eq_none]
      intro rule member
      rw [beq_iff_eq]
      rintro rfl
      exact other ⟨rule.category,beq_iff_eq.mp (List.all_eq_true.mp table_codes rule member)⟩
    unfold TelemetryRuleTable.classifyTelemetryOutcome TelemetryRuleTable.parse
    rw [missing]
    split <;> rfl

theorem symbols_classify : Classifies TelemetrySymbolPhases.classifyTelemetryOutcome := by
  constructor
  · intro category reached
    cases category <;> cases reached <;> rfl
  · intro code reached other
    have refused : TelemetrySymbolPhases.decodeBoundary code = serializationInvariant := by
      simp only [TelemetrySymbolPhases.decodeBoundary,foreign_cases other,if_false]
    unfold TelemetrySymbolPhases.classifyTelemetryOutcome
    rw [refused]
    rfl

theorem lengths_classify : Classifies TelemetryLengthDispatch.classifyTelemetryOutcome := by
  constructor
  · intro category reached
    cases category <;> cases reached <;> rfl
  · intro code reached other
    obtain ⟨accepted,client,ambiguous,policy,route,upstream,timeout,implementation,internal⟩ := foreign_cases other
    have refused : ∀ rule ∈ TelemetryLengthDispatch.lengthRules, rule.2 code = none := by
      intro rule member
      simp only [TelemetryLengthDispatch.lengthRules,List.mem_cons,List.not_mem_nil,or_false] at member
      rcases member with rfl | rfl | rfl | rfl | rfl | rfl | rfl
      · exact if_neg timeout
      · exact if_neg accepted
      · exact (if_neg client).trans (if_neg route)
      · exact if_neg policy
      · exact (if_neg upstream).trans (if_neg internal)
      · exact if_neg ambiguous
      · exact if_neg implementation
    unfold TelemetryLengthDispatch.classifyTelemetryOutcome
    split
    · rfl
    · cases found : TelemetryLengthDispatch.lengthRules.find? (·.1 == code.length) with
      | none => rfl
      | some rule =>
        dsimp only
        rw [refused rule (List.mem_of_find?_eq_some found)]

theorem fingerprint_codes :
    TelemetryFingerprintIndex.rules.all fun rule => rule.literal == codeOf rule.category.emit.category := by decide

theorem fingerprints_classify : Classifies TelemetryFingerprintIndex.classifyTelemetryOutcome := by
  constructor
  · intro category reached
    cases category <;> cases reached <;> decide
  · intro code reached other
    have refused : TelemetryFingerprintIndex.locate code = serializationInvariant := by
      unfold TelemetryFingerprintIndex.locate
      split
      · rfl
      · rename_i rule found
        obtain ⟨index,-,here⟩ := Option.bind_eq_some_iff.mp found
        have member := List.mem_of_getElem? here
        have differs : code ≠ rule.literal := by
          rintro rfl
          exact other ⟨_,beq_iff_eq.mp (List.all_eq_true.mp fingerprint_codes rule member)⟩
        rw [if_pos differs]
    unfold TelemetryFingerprintIndex.classifyTelemetryOutcome
    rw [refused]
    split <;> rfl

/-- The text of a word. -/
def textOf : TelemetryWordComposition.Word → List UInt8
  | .accepted => ascii "accepted"
  | .ambiguous => ascii "ambiguous"
  | .client => ascii "client"
  | .disagreement => ascii "disagreement"
  | .failure => ascii "failure"
  | .framing => ascii "framing"
  | .implementation => ascii "implementation"
  | .internal => ascii "internal"
  | .missing => ascii "missing"
  | .policy => ascii "policy"
  | .rejected => ascii "rejected"
  | .route => ascii "route"
  | .grammar => ascii "syntax"
  | .timeout => ascii "timeout"
  | .upstream => ascii "upstream"

theorem arm_text {text key : List UInt8} {value word : TelemetryWordComposition.Word}
    {rest : Result TelemetryWordComposition.Word} (here : key = textOf value)
    (later : rest = .ok word → text = textOf word) (parsed : (if text = key then .ok value else rest) = .ok word) :
    text = textOf word := by
  split at parsed
  · rename_i same
    cases parsed
    exact same.trans here
  · exact later parsed

theorem parseWord_text {text : List UInt8} {word : TelemetryWordComposition.Word}
    (parsed : TelemetryWordComposition.parseWord text = .ok word) : text = textOf word := by
  revert parsed
  unfold TelemetryWordComposition.parseWord
  iterate 15 refine arm_text (by rfl) ?_
  intro parsed
  cases parsed

theorem arm_error {text key : List UInt8} {value : TelemetryWordComposition.Word} {error : PolyguardError}
    {rest : Result TelemetryWordComposition.Word} (later : rest = .error error → error = .serializationInvariant)
    (refused : (if text = key then .ok value else rest) = .error error) : error = .serializationInvariant := by
  split at refused
  · cases refused
  · exact later refused

theorem parseWord_error {text : List UInt8} {error : PolyguardError}
    (refused : TelemetryWordComposition.parseWord text = .error error) : error = .serializationInvariant := by
  revert refused
  unfold TelemetryWordComposition.parseWord
  iterate 15 refine arm_error ?_
  intro refused
  cases refused
  rfl

/-- The words of a code joined again. -/
def joinWords (words : TelemetryWordComposition.Words) : List UInt8 :=
  match words.second with
  | none => textOf words.first
  | some second => textOf words.first ++ 0x5f :: textOf second

theorem splitWords_join {code : List UInt8} {words : TelemetryWordComposition.Words}
    (split : TelemetryWordComposition.splitWords code = .ok words) : code = joinWords words := by
  unfold TelemetryWordComposition.splitWords at split
  split at split
  · cases split
  · obtain ⟨first,firstParsed,split⟩ := bind_success split
    obtain ⟨second,secondParsed,split⟩ := bind_success split
    have whole : [(0x5f : UInt8)].intercalate (code.splitOn 0x5f) = code := List.intercalate_splitOn 0x5f
    have some := List.splitOn_ne_nil (0x5f : UInt8) code
    rcases pieces : code.splitOn 0x5f with _ | ⟨one,_ | ⟨two,_ | ⟨three,more⟩⟩⟩
    · exact absurd pieces some
    · rw [pieces] at split firstParsed secondParsed whole
      cases secondParsed
      cases split
      rw [← whole]
      simpa [joinWords] using parseWord_text firstParsed
    · rw [pieces] at split firstParsed secondParsed whole
      obtain ⟨word,parsed,secondParsed⟩ := bind_success secondParsed
      cases secondParsed
      cases split
      rw [← whole]
      have left := parseWord_text firstParsed
      have right := parseWord_text parsed
      rw [List.headD_cons] at left
      simp [joinWords,left,right]
    · rw [pieces] at split
      cases split

theorem parseSecond_error {piece : Option (List UInt8)} {error : PolyguardError}
    (refused : TelemetryWordComposition.parseSecond piece = .error error) : error = .serializationInvariant := by
  cases piece with
  | none => cases refused
  | some text =>
    cases parsed : TelemetryWordComposition.parseWord text with
    | ok word => simp [TelemetryWordComposition.parseSecond,parsed] at refused
    | error raised =>
      obtain rfl : raised = error := by simpa [TelemetryWordComposition.parseSecond,parsed] using refused
      exact parseWord_error parsed

theorem splitWords_error {code : List UInt8} {error : PolyguardError}
    (refused : TelemetryWordComposition.splitWords code = .error error) : error = .serializationInvariant := by
  unfold TelemetryWordComposition.splitWords at refused
  split at refused
  · cases refused
    rfl
  · dsimp only at refused
    cases first : TelemetryWordComposition.parseWord ((code.splitOn 0x5f).headD []) with
    | error raised =>
      rw [first] at refused
      cases refused
      exact parseWord_error first
    | ok word =>
      rw [first,bind_ok] at refused
      cases second : TelemetryWordComposition.parseSecond (code.splitOn 0x5f)[1]? with
      | error raised =>
        rw [second] at refused
        cases refused
        exact parseSecond_error second
      | ok other =>
        rw [second,bind_ok] at refused
        split at refused
        · cases refused
          rfl
        · cases refused

theorem compose_code (words : TelemetryWordComposition.Words) :
    Specified (joinWords words) ∨ TelemetryWordComposition.compose words = serializationInvariant := by
  have joined (first : TelemetryWordComposition.Word) (second : Option TelemetryWordComposition.Word)
      (category : OutcomeCategory) (left : words.first = first) (right : words.second = second)
      (spelled : joinWords ⟨first,second⟩ = codeOf category) : Specified (joinWords words) := by
    subst left
    subst right
    exact ⟨category,spelled⟩
  unfold TelemetryWordComposition.compose
  split
  · rename_i left right
    exact .inl (joined _ _ .accepted left right rfl)
  · rename_i left right
    exact .inl (joined _ _ .clientSyntax left right rfl)
  · rename_i left right
    exact .inl (joined _ _ .ambiguousFraming left right rfl)
  · rename_i left right
    exact .inl (joined _ _ .policyRejected left right rfl)
  · rename_i left right
    exact .inl (joined _ _ .routeMissing left right rfl)
  · rename_i left right
    exact .inl (joined _ _ .upstreamFailure left right rfl)
  · rename_i left right
    exact .inl (joined _ _ .timeout left right rfl)
  · rename_i left right
    exact .inl (joined _ _ .implementationDisagreement left right rfl)
  · rename_i left right
    exact .inl (joined _ _ .internalFailure left right rfl)
  · exact .inr rfl

theorem words_classify : Classifies TelemetryWordComposition.classifyTelemetryOutcome := by
  constructor
  · intro category reached
    cases category <;> cases reached <;> decide
  · intro code reached other
    unfold TelemetryWordComposition.classifyTelemetryOutcome
    cases split : TelemetryWordComposition.splitWords code with
    | error error =>
      rw [splitWords_error split]
      rfl
    | ok words =>
      rw [splitWords_join split] at other
      rcases compose_code words with specified | refused
      · exact absurd specified other
      · rw [bind_ok,refused]
        rfl

theorem registered_classifies (classify : List UInt8 → Bool → Result TelemetryOutcome)
    (registered : classify ∈ telemetryImplementations) : Classifies classify := by
  simp only [telemetryImplementations,List.mem_cons,List.not_mem_nil,or_false] at registered
  rcases registered with rfl | rfl | rfl | rfl | rfl
  · exact table_classifies
  · exact symbols_classify
  · exact lengths_classify
  · exact fingerprints_classify
  · exact words_classify

theorem outcomeOf_ok (category : OutcomeCategory) (reached : Bool) (outcome : TelemetryOutcome) :
    outcomeOf category reached = .ok outcome ↔ codeOf category = codeOf outcome.category ∧
      (reached → beforeUpstream outcome.category = false) ∧ (outcome.success ↔ outcome.category = .accepted) := by
  unfold outcomeOf
  constructor
  · intro accepted
    split at accepted
    · cases accepted
    · rename_i allowed
      cases accepted
      exact ⟨rfl,fun late => by simpa [late] using allowed,by simp⟩
  · rintro ⟨same,allowed,success⟩
    obtain ⟨named,flag⟩ := outcome
    obtain rfl := codeOf_injective same
    have free : (reached && beforeUpstream category) = false := by
      cases reached with
      | false => rfl
      | true => exact allowed rfl
    rw [free]
    cases flag with
    | true =>
      obtain rfl := success.mp rfl
      rfl
    | false =>
      have other : (category == .accepted) = false := by
        rw [beq_eq_false_iff_ne]
        intro accepted
        cases success.mpr accepted
      simp [other]

theorem outcomeOf_error (category : OutcomeCategory) (reached : Bool) (error : PolyguardError)
    (refused : outcomeOf category reached = .error error) : error = .serializationInvariant := by
  unfold outcomeOf at refused
  split at refused
  · cases refused
    rfl
  · cases refused

/-- The classifiers return the same result on every text. They accept a code exactly when it names the category of the
outcome and that category may still be reached, call only `accepted` a success, and refuse with one error. -/
theorem telemetry_agreement (code : List UInt8) (reached : Bool) :
    (∀ classify ∈ telemetryImplementations, ∀ other ∈ telemetryImplementations,
      classify code reached = other code reached) ∧
    ∀ classify ∈ telemetryImplementations,
      (∀ outcome, classify code reached = .ok outcome ↔ code = codeOf outcome.category ∧
        (reached → beforeUpstream outcome.category = false) ∧
        (outcome.success ↔ outcome.category = .accepted)) ∧
      ∀ error, classify code reached = .error error → error = .serializationInvariant := by
  by_cases specified : Specified code
  · obtain ⟨category,rfl⟩ := specified
    constructor
    · intro classify registered other among
      rw [(registered_classifies classify registered).1,(registered_classifies other among).1]
    · intro classify registered
      rw [(registered_classifies classify registered).1]
      exact ⟨outcomeOf_ok category reached,outcomeOf_error category reached⟩
  · constructor
    · intro classify registered other among
      rw [(registered_classifies classify registered).2 code reached specified,
        (registered_classifies other among).2 code reached specified]
    · intro classify registered
      rw [(registered_classifies classify registered).2 code reached specified]
      constructor
      · intro outcome
        constructor
        · intro accepted
          cases accepted
        · rintro ⟨same,-⟩
          exact absurd ⟨outcome.category,same⟩ specified
      · intro error refused
        cases refused
        rfl

end Polyguard.TelemetryAgreement
