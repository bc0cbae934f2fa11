import Polyguard.RequestTarget.Agreement

/-! The routing path of a normalized target.
An accepted target in origin or absolute form has a path that starts with a slash,
whichever implementation normalized it. -/
namespace Polyguard.RequestTargetAgreement
open Ascii Slices TargetBytes RequestTarget

/-- In the forms that carry a path, the routing path starts with a slash. -/
def Routed (target : NormalizedTarget) : Prop :=
  target.form = .origin ∨ target.form = .absolute → startsWith 0x2f target.routingPath

theorem joined_slashed {segments : List (List UInt8)} (some : segments ≠ []) : startsWith 0x2f (joined segments) := by
  rw [joined_intercalate some]
  simp [startsWith]

theorem routingPath_slashed {parts : List Token} {kept : List (List UInt8)}
    (rooted : openSegments (segmentsOf parts) = some kept) : startsWith 0x2f (routingPath parts kept) :=
  joined_slashed (settle_ne_nil (segmentsOf_ne_nil parts) [] rooted)

theorem rooted_ok {α : Type} {found : Option α} {value : α} (ok : rooted found = .ok value) : found = some value := by
  cases found with
  | none => cases ok
  | some other =>
    cases ok
    rfl

/-- A path of a dialect that is accepted starts with a slash. -/
def Slashes (path : List UInt8 → Result (List UInt8 × List UInt8)) : Prop :=
  ∀ value target, path value = .ok target → startsWith 0x2f target.2

theorem canonical_slashes : Slashes canonicalTarget := by
  intro value target accepted
  obtain ⟨parts,-,accepted⟩ := bind_success accepted
  obtain ⟨kept,open',accepted⟩ := bind_success accepted
  obtain ⟨query,-,accepted⟩ := bind_success accepted
  cases accepted
  exact routingPath_slashed (rooted_ok open')

theorem eager_slashes : Slashes eagerTarget := by
  intro value target accepted
  obtain ⟨parts,-,accepted⟩ := bind_success accepted
  obtain ⟨query,-,accepted⟩ := bind_success accepted
  obtain ⟨kept,open',accepted⟩ := bind_success accepted
  cases accepted
  exact routingPath_slashed (rooted_ok open')

theorem normalize_routed {dialect : Dialect} (slashes : Slashes dialect.path) {request : RequestLine}
    {target : NormalizedTarget} (accepted : normalize dialect request = .ok target) : Routed target := by
  unfold normalize at accepted
  split at accepted
  · split at accepted
    · cases accepted
      rintro (impossible | impossible) <;> cases impossible
    · cases accepted
  · split at accepted
    · split at accepted
      · cases accepted
      · obtain ⟨authority,-,accepted⟩ := bind_success accepted
        cases accepted
        rintro (impossible | impossible) <;> cases impossible
    · split at accepted
      · obtain ⟨path,found,accepted⟩ := bind_success accepted
        cases accepted
        exact fun _ => slashes _ path found
      · split at accepted
        · cases accepted
        · obtain ⟨authority,-,accepted⟩ := bind_success accepted
          obtain ⟨path,found,accepted⟩ := bind_success accepted
          cases accepted
          exact fun _ => slashes _ path found

/-- The stack of the typed fold has the empty text before the first slash at its bottom. -/
theorem keepSegment_bottom {count : Nat} {kept next : List (List UInt8)} {indexed : List UInt8 × Nat}
    (bottom : ∃ rest, kept = [] :: rest) (stepped : RequestTargetTypedMatrix.keepSegment count kept indexed = .ok next) :
    ∃ rest, next = [] :: rest := by
  obtain ⟨rest,rfl⟩ := bottom
  unfold RequestTargetTypedMatrix.keepSegment at stepped
  dsimp only at stepped
  split at stepped
  · cases stepped
    split
    · exact ⟨rest ++ [[]],rfl⟩
    · exact ⟨rest,rfl⟩
  · split at stepped
    · split at stepped
      · cases stepped
      · rename_i more
        cases rest with
        | nil => exact absurd rfl more
        | cons first rest =>
          cases stepped
          rw [List.dropLast_cons_cons]
          split
          · exact ⟨_,rfl⟩
          · exact ⟨_,rfl⟩
    · cases stepped
      exact ⟨rest ++ [indexed.1],rfl⟩

theorem foldlM_bottom {count : Nat} (segments : List (List UInt8 × Nat)) : ∀ {kept final : List (List UInt8)},
    (∃ rest, kept = [] :: rest) → segments.foldlM (RequestTargetTypedMatrix.keepSegment count) kept = .ok final →
    ∃ rest, final = [] :: rest := by
  induction segments with
  | nil =>
    intro kept final bottom folded
    cases folded
    exact bottom
  | cons segment segments ih =>
    intro kept final bottom folded
    rw [List.foldlM_cons] at folded
    obtain ⟨next,stepped,folded⟩ := bind_success folded
    exact ih (keepSegment_bottom bottom stepped) folded

theorem reduced_slashed {path routing : List UInt8}
    (reduced : RequestTargetTypedMatrix.reduceDotSegments path = .ok routing) : startsWith 0x2f routing := by
  obtain ⟨kept,folded,reduced⟩ := bind_success reduced
  obtain ⟨rest,rfl⟩ := foldlM_bottom _ ⟨[],rfl⟩ folded
  cases reduced
  cases rest with
  | nil => rfl
  | cons first rest => simp [List.intercalate,startsWith]

theorem typed_slashed {raw : List UInt8} {path : RequestTargetTypedMatrix.CanonicalPath}
    (accepted : RequestTargetTypedMatrix.canonicalPathQuery raw = .ok path) : startsWith 0x2f path.routingPath := by
  have finish {routing whole : List UInt8} (slashed : startsWith 0x2f routing)
      (finished : (if whole.length > targetLimit then targetTooLong whole.length
        else .ok (RequestTargetTypedMatrix.CanonicalPath.mk whole routing)) = .ok path) : startsWith 0x2f path.routingPath := by
    split at finished
    · cases finished
    · cases finished
      exact slashed
  unfold RequestTargetTypedMatrix.canonicalPathQuery at accepted
  split at accepted
  · cases accepted
  · split at accepted
    · cases accepted
    · dsimp only at accepted
      obtain ⟨decoded,-,accepted⟩ := bind_success accepted
      obtain ⟨routing,reduced,accepted⟩ := bind_success accepted
      split at accepted
      · obtain ⟨query,-,accepted⟩ := bind_success accepted
        exact finish (reduced_slashed reduced) accepted
      · exact finish (reduced_slashed reduced) accepted

theorem typed_routed {request : RequestLine} {target : NormalizedTarget}
    (accepted : RequestTargetTypedMatrix.normalizeRequestTarget request = .ok target) : Routed target := by
  obtain ⟨boundary,-,accepted⟩ := bind_success accepted
  split at accepted
  · cases accepted
    rintro (impossible | impossible) <;> cases impossible
  · cases accepted
  · obtain ⟨authority,-,accepted⟩ := bind_success accepted
    cases accepted
    rintro (impossible | impossible) <;> cases impossible
  · cases accepted
  · obtain ⟨path,found,accepted⟩ := bind_success accepted
    cases accepted
    exact fun _ => typed_slashed found
  · unfold RequestTargetTypedMatrix.absoluteResult at accepted
    split at accepted
    · cases accepted
    · obtain ⟨authority,-,accepted⟩ := bind_success accepted
      obtain ⟨tail,-,accepted⟩ := bind_success accepted
      obtain ⟨path,found,accepted⟩ := bind_success accepted
      cases accepted
      exact fun _ => typed_slashed found
  · cases accepted

theorem enveloped_clean {normalizer : RequestLine → Result NormalizedTarget}
    (registered : normalizer ∈ [RequestTargetRules.normalizeRequestTarget,RequestTargetValidatedPipeline.normalizeRequestTarget,
      RequestTargetInvariantOffsets.normalizeRequestTarget,RequestTargetComposableValidators.normalizeRequestTarget])
    {request : RequestLine} (produced : Produced request) {target : NormalizedTarget}
    (accepted : normalizer request = .ok target) : (0x5c : UInt8) ∉ request.target := by
  intro backslash
  have refused := envelope_eq produced
  have refused' := composable_envelope produced
  rw [if_pos backslash] at refused refused'
  simp only [List.mem_cons,List.not_mem_nil,or_false] at registered
  rcases registered with rfl | rfl | rfl | rfl
  · unfold RequestTargetRules.normalizeRequestTarget RequestTargetRules.checkedBoundary at accepted
    rw [refused] at accepted
    cases accepted
  · unfold RequestTargetValidatedPipeline.normalizeRequestTarget RequestTargetValidatedPipeline.validatedPlan
      RequestTargetValidatedPipeline.validateTargetBoundary at accepted
    rw [refused] at accepted
    cases accepted
  · unfold RequestTargetInvariantOffsets.normalizeRequestTarget
      RequestTargetInvariantOffsets.validateTargetEnvelope at accepted
    rw [refused] at accepted
    cases accepted
  · unfold RequestTargetComposableValidators.normalizeRequestTarget at accepted
    rw [refused'] at accepted
    cases accepted

theorem normalized_routed {normalize : RequestLine → Result NormalizedTarget}
    (registered : normalize ∈ requestTargetImplementations) {request : RequestLine} (produced : Produced request)
    {target : NormalizedTarget} (accepted : normalize request = .ok target) : Routed target := by
  by_cases typed : normalize = RequestTargetTypedMatrix.normalizeRequestTarget
  · subst typed
    exact typed_routed accepted
  · have others : normalize ∈ [RequestTargetRules.normalizeRequestTarget,RequestTargetValidatedPipeline.normalizeRequestTarget,
        RequestTargetInvariantOffsets.normalizeRequestTarget,RequestTargetComposableValidators.normalizeRequestTarget] := by
      simp only [requestTargetImplementations,List.mem_cons,List.not_mem_nil,or_false] at registered ⊢
      tauto
    have clean := enveloped_clean others produced accepted
    simp only [List.mem_cons,List.not_mem_nil,or_false] at others
    rcases others with rfl | rfl | rfl | rfl
    · rw [rules_reference produced clean] at accepted
      exact normalize_routed canonical_slashes accepted
    · rw [pipeline_reference produced clean] at accepted
      exact normalize_routed canonical_slashes accepted
    · rw [offsets_reference produced clean] at accepted
      exact normalize_routed eager_slashes accepted
    · rw [composable_reference produced clean] at accepted
      exact normalize_routed canonical_slashes accepted

end Polyguard.RequestTargetAgreement
