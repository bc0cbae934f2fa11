import Polyguard.CanonicalHead.Clean

/-! Where the builders of a canonical head agree.
The four of one judge and the double sink share every check but those on the target and on
the forwarding lists, and they build the same head where both pass. What the two judges make
of a target differs by the escaped separators and by the authority in an absolute target. -/
namespace Polyguard.CanonicalHead
open Ascii Slices TargetBytes

section Escapes

/-- The digits stand for a byte that separates the segments of a path. -/
def separates (high low : UInt8) : Bool := joinNibbles (hex high) (hex low) == 0x2f || joinNibbles (hex high) (hex low) == 0x5c

/-- The text has a separator in the form of an escape. -/
def EscapesSeparator (text : List UInt8) : Prop :=
  ∃ front high low rest, text = front ++ 0x25 :: high :: low :: rest ∧ separates high low

theorem escapesSeparator_cons (byte : UInt8) (text : List UInt8) : EscapesSeparator (byte :: text) ↔
    (byte = 0x25 ∧ ∃ high low rest, text = high :: low :: rest ∧ separates high low) ∨ EscapesSeparator text := by
  constructor
  · rintro ⟨front,high,low,rest,same,here⟩
    cases front with
    | nil =>
      obtain ⟨rfl,rfl⟩ := List.cons.inj same
      exact .inl ⟨rfl,high,low,rest,rfl,here⟩
    | cons first front =>
      obtain ⟨rfl,rfl⟩ := List.cons.inj same
      exact .inr ⟨front,high,low,rest,rfl,here⟩
  · rintro (⟨rfl,high,low,rest,rfl,here⟩ | ⟨front,high,low,rest,rfl,here⟩)
    · exact ⟨[],high,low,rest,rfl,here⟩
    · exact ⟨byte :: front,high,low,rest,rfl,here⟩

theorem escapesSeparator_plain {byte : UInt8} (plain : byte ≠ 0x25) (text : List UInt8) :
    EscapesSeparator (byte :: text) ↔ EscapesSeparator text := by
  rw [escapesSeparator_cons]
  exact or_iff_right fun escaped => plain escaped.1

theorem escapesSeparator_escape {high low : UInt8} (digits : isUpperHex high ∧ isUpperHex low) (rest : List UInt8) :
    EscapesSeparator (0x25 :: high :: low :: rest) ↔ separates high low ∨ EscapesSeparator rest := by
  have digit := forall_byte (p := fun b => isUpperHex b → b ≠ 0x25) (by decide)
  rw [escapesSeparator_cons,escapesSeparator_plain (digit high digits.1),escapesSeparator_plain (digit low digits.2)]
  apply or_congr_left
  constructor
  · rintro ⟨-,_,_,_,same,here⟩
    cases same
    exact here
  · intro here
    exact ⟨rfl,high,low,rest,rfl,here⟩

variable {queryAt limit index : Nat}

theorem canonicalEscapes_plain {byte : UInt8} (plain : byte ≠ 0x25) (bytes : List UInt8) :
    canonicalEscapes queryAt index (byte :: bytes) = canonicalEscapes queryAt (index + 1) bytes := by
  rcases bytes with _ | ⟨high,_ | ⟨low,rest⟩⟩ <;> simp [canonicalEscapes,plain]

/-- An escape at this place is canonical. -/
def isEscape (queryAt index : Nat) (high low : UInt8) : Bool :=
  let decoded := joinNibbles (hex high) (hex low)
  isUpperHex high && isUpperHex low &&
    !(decide (decoded ≤ 31) || decoded == 127 || isUnreserved decoded || (decide (index < queryAt) && separates high low))

theorem canonicalEscapes_escape (high low : UInt8) (rest : List UInt8) : canonicalEscapes queryAt index (0x25 :: high :: low :: rest) =
    (isEscape queryAt index high low && canonicalEscapes queryAt (index + 3) rest) := by
  rw [canonicalEscapes]
  simp only [bne_self_eq_false,Bool.false_eq_true,if_false]
  unfold isEscape separates
  cases isUpperHex high <;> cases isUpperHex low <;> simp only [Bool.not_false,Bool.not_true,Bool.or_true,Bool.or_false,
    if_true,Bool.false_eq_true,if_false,Bool.and_false,Bool.false_and,Bool.true_and]
  split
  · rename_i refused
    rw [refused]
    rfl
  · rename_i allowed
    rw [Bool.not_eq_true] at allowed
    rw [allowed]
    rfl

theorem isEscape_digits {high low : UInt8} (canonical : isEscape queryAt index high low) : isUpperHex high ∧ isUpperHex low := by
  simp only [isEscape,Bool.and_eq_true] at canonical
  exact canonical.1

theorem canonicalEscapes_short {bytes : List UInt8} (short : bytes.length < 2) : canonicalEscapes queryAt index (0x25 :: bytes) = false := by
  rcases bytes with _ | ⟨high,_ | ⟨low,rest⟩⟩
  · rfl
  · rfl
  · simp only [List.length_cons] at short
    omega

/-- An escape is canonical in the path when it is canonical where it stands and separates nothing. -/
theorem isEscape_strict (early : index < limit) (high low : UInt8) :
    isEscape limit index high low = (isEscape queryAt index high low && !separates high low) := by
  unfold isEscape
  rw [decide_eq_true early]
  cases separates high low <;> simp

theorem isEscape_path (early : index < limit) {high low : UInt8} (digits : ¬(!isUpperHex high || !isUpperHex low) = true) :
    isEscape limit index high low =
      let decoded := joinNibbles (hex high) (hex low)
      !(isUnreserved decoded || decoded == 0x2f || decoded == 0x5c || decide (decoded ≤ 31) || decoded == 127) := by
  simp only [Bool.or_eq_true,Bool.not_eq_true',not_or,Bool.not_eq_false] at digits
  unfold isEscape separates
  dsimp only
  rw [digits.1,digits.2,decide_eq_true early,Bool.true_and,Bool.true_and,Bool.true_and]
  ac_rfl

theorem short_two {bytes : List UInt8} (short : ∀ high low rest, bytes = high :: low :: rest → False) : bytes.length < 2 := by
  rcases bytes with _ | ⟨high,_ | ⟨low,rest⟩⟩
  · decide
  · simp
  · exact (short high low rest rfl).elim

theorem canonicalEscapes_strict (queryAt index limit : Nat) (text : List UInt8) (inside : index + text.length ≤ limit) :
    canonicalEscapes limit index text ↔ canonicalEscapes queryAt index text ∧ ¬EscapesSeparator text := by
  match text with
  | [] => simp [canonicalEscapes,EscapesSeparator]
  | [byte] =>
    rcases eq_or_ne byte 0x25 with rfl | plain
    · simp [canonicalEscapes_short]
    · rw [canonicalEscapes_plain plain,canonicalEscapes_plain plain,escapesSeparator_plain plain]
      simp [canonicalEscapes,EscapesSeparator]
  | byte :: high :: [] =>
    rcases eq_or_ne byte 0x25 with rfl | plain
    · simp [canonicalEscapes_short]
    · rw [canonicalEscapes_plain plain,canonicalEscapes_plain plain,escapesSeparator_plain plain]
      apply canonicalEscapes_strict
      simp only [List.length_cons] at inside ⊢
      omega
  | byte :: high :: low :: rest =>
    simp only [List.length_cons] at inside
    rcases eq_or_ne byte 0x25 with rfl | plain
    · have later := canonicalEscapes_strict queryAt (index + 3) limit rest (by omega)
      rw [canonicalEscapes_escape,canonicalEscapes_escape,isEscape_strict (by omega)]
      cases canonical : isEscape queryAt index high low with
      | false => simp
      | true =>
        rw [escapesSeparator_escape (isEscape_digits canonical)]
        simp only [Bool.true_and,Bool.and_eq_true,Bool.not_eq_true',not_or,Bool.not_eq_true,later]
        exact and_left_comm
    · rw [canonicalEscapes_plain plain,canonicalEscapes_plain plain,escapesSeparator_plain plain]
      apply canonicalEscapes_strict
      simp only [List.length_cons]
      omega
termination_by text.length

theorem targetBytes_strict (limit index : Nat) (text : List UInt8) (inside : index + text.length ≤ limit) :
    CanonicalHeadDualSink.validCanonicalTargetBytes text = (text.all isTargetByte && canonicalEscapes limit index text) := by
  have digit := forall_byte (p := fun b => isUpperHex b → isTargetByte b) (by decide)
  have target := forall_byte (p := fun b => isTargetByte b =
    !(!(0x21 ≤ b && b ≤ 0x7e) || b == 0x5c || b == 0x23)) (by decide)
  fun_induction CanonicalHeadDualSink.validCanonicalTargetBytes text generalizing index with
  | case1 => rfl
  | case2 byte escaped high low rest odd =>
    have refused : isEscape limit index high low = false := by
      rw [isEscape,← Bool.not_not (isUpperHex high && isUpperHex low),Bool.not_and,odd]
      rfl
    rw [beq_iff_eq.mp escaped,canonicalEscapes_escape,refused,Bool.false_and,Bool.and_false]
  | case3 byte escaped high low rest digits decoded refused =>
    have early : index < limit := by
      simp only [List.length_cons] at inside
      omega
    have refused : isEscape limit index high low = false := (isEscape_path early digits).trans (congrArg Bool.not refused)
    rw [beq_iff_eq.mp escaped,canonicalEscapes_escape,refused,Bool.false_and,Bool.and_false]
  | case4 byte escaped high low rest digits decoded allowed ih =>
    simp only [List.length_cons] at inside
    have early : index < limit := by omega
    have shown : isTargetByte high ∧ isTargetByte low := by
      simp only [Bool.or_eq_true,Bool.not_eq_true',not_or,Bool.not_eq_false] at digits
      exact ⟨digit high digits.1,digit low digits.2⟩
    rw [Bool.not_eq_true] at allowed
    have canonical : isEscape limit index high low = true := (isEscape_path early digits).trans (congrArg Bool.not allowed)
    rw [beq_iff_eq.mp escaped,canonicalEscapes_escape,canonical,ih (index + 3) (by omega),List.all_cons,List.all_cons,List.all_cons,
      shown.1,shown.2]
    rfl
  | case5 byte bytes escaped short =>
    rw [beq_iff_eq.mp escaped,canonicalEscapes_short (short_two short),Bool.and_false]
  | case6 byte bytes plain odd =>
    rw [List.all_cons,target byte,odd]
    rfl
  | case7 byte bytes plain fine ih =>
    rw [canonicalEscapes_plain (by simpa using plain),ih (index + 1) (by simp only [List.length_cons] at inside; omega),List.all_cons,
      target byte]
    rw [Bool.not_eq_true] at fine
    rw [fine]
    rfl

end Escapes

section Targets

theorem quotedTarget_verdict (target : NormalizedTarget) (endpoint : Endpoint) : Verdict (quotedJudge.target target endpoint) := by
  have form : Verdict (CanonicalHeadDualSink.validateTargetForm target) := by
    unfold CanonicalHeadDualSink.validateTargetForm
    split
    · exact .ite .invariant (.ok _)
    · exact .ite .invariant (.ok _)
    · exact .invariant
    · exact .invariant
  exact form.bind fun _ => .ite .invariant (.ite .invariant (.ok _))

theorem plainTarget_verdict (target : NormalizedTarget) (endpoint : Endpoint) : Verdict (plainJudge.target target endpoint) :=
  (validateForm_verdict target endpoint).bind fun _ => validatePath_verdict _ _

theorem hasDotSegment_rooted (path : List UInt8) : hasDotSegment (0x2f :: path) = hasDotSegment path := by
  unfold hasDotSegment
  rw [List.splitOn_cons_eq_if_modifyHead]
  rfl

theorem hasDotSegment_path {text : List UInt8} (rooted : startsWith 0x2f text) (stop : Nat) :
    hasDotSegment (slice text 1 stop) = hasDotSegment (text.take stop) := by
  cases text with
  | nil => cases rooted
  | cons byte rest =>
    obtain rfl : byte = 0x2f := by simpa [startsWith] using rooted
    cases stop with
    | zero => rfl
    | succ stop => exact (hasDotSegment_rooted (rest.take stop)).symm

/-- The double sink asks of a path what the others ask of it, and that no separator is escaped behind it either. -/
theorem quotedPath_ok (path routing : List UInt8) :
    ((if path.isEmpty || path.length > targetLimit || !startsWith 0x2f path then invariant
      else if routing != path.take (queryStart path) || !CanonicalHeadDualSink.validCanonicalTargetBytes path || hasDotSegment routing then
        invariant
      else .ok () : Result Unit) = .ok ()) ↔ validatePath path routing = .ok () ∧ ¬EscapesSeparator path := by
  have strict := canonicalEscapes_strict (queryStart path) 0 path.length path (Nat.zero_add _).le
  have refused : (invariant : Result Unit) ≠ .ok () := by rintro ⟨⟩
  unfold validatePath
  dsimp only
  rw [targetBytes_strict path.length 0 path (Nat.zero_add _).le]
  cases shaped : path.isEmpty || path.length > targetLimit || !startsWith 0x2f path with
  | true => simp [refused]
  | false =>
    simp only [Bool.or_eq_false_iff,Bool.not_eq_false'] at shaped
    rcases eq_or_ne routing (path.take (queryStart path)) with rfl | apart
    · rw [hasDotSegment_path shaped.2,bne_self_eq_false,Bool.false_or,Bool.false_or,Bool.false_or]
      cases path.all isTargetByte <;> cases hasDotSegment (path.take (queryStart path)) <;>
        cases separated : canonicalEscapes path.length 0 path <;> simp_all [ensure]
    · simp [apart,refused]

theorem then_ok (first next : Result Unit) : (first >>= fun _ => next) = .ok () ↔ first = .ok () ∧ next = .ok () := by
  cases first with
  | error error => simp [bind,Except.bind]
  | ok => simp [bind,Except.bind]

theorem quotedTarget_ok (target : NormalizedTarget) (endpoint : Endpoint) : quotedJudge.target target endpoint = .ok () ↔
    CanonicalHeadDualSink.validateTargetForm target = .ok () ∧ validatePath target.pathAndQuery target.routingPath = .ok () ∧
      ¬EscapesSeparator target.pathAndQuery := by
  rw [← quotedPath_ok]
  exact then_ok _ _

theorem plainTarget_ok (target : NormalizedTarget) (endpoint : Endpoint) : plainJudge.target target endpoint = .ok () ↔
    validateForm checkDns target endpoint = .ok () ∧ validatePath target.pathAndQuery target.routingPath = .ok () := by
  exact then_ok _ _

end Targets

section Judgements
variable {judge : Judge} {method : List UInt8} {target : NormalizedTarget} {authority : EffectiveAuthority} {headers : SanitizedHeaders}
variable {framing : BodyFraming} {forwarding : ForwardingResult} {host : Host}

/-- The checks that every builder makes, whatever it thinks of targets and lists. -/
structure Shared (method : List UInt8) (target : NormalizedTarget) (authority : EffectiveAuthority) (headers : SanitizedHeaders)
    (framing : BodyFraming) (host : Host) : Prop where
  method : isMethod method
  host : effectiveHost checkDns authority = .ok host
  headers : isSanitized headers
  framing : isFramed framing
  path : validatePath target.pathAndQuery target.routingPath = .ok ()

/-- What a judge of its own kind asks for on top. -/
structure Passes (judge : Judge) (target : NormalizedTarget) (endpoint : Endpoint) (forwarding : ForwardingResult) : Prop where
  target : judge.target target endpoint = .ok ()
  lists : (forwardingValues forwarding).all judge.list

/-- A judge whose targets fail with the error of the invariant, and only on a path that the others take too. -/
structure Judges (judge : Judge) : Prop where
  verdict : ∀ target endpoint, Verdict (judge.target target endpoint)
  path : ∀ {target endpoint}, judge.target target endpoint = .ok () → validatePath target.pathAndQuery target.routingPath = .ok ()

theorem plain_judges : Judges plainJudge := ⟨plainTarget_verdict,fun accepted => ((plainTarget_ok _ _).mp accepted).2⟩

theorem quoted_judges : Judges quotedJudge := ⟨quotedTarget_verdict,fun accepted => ((quotedTarget_ok _ _).mp accepted).2.1⟩

theorem construct_passes (shared : Shared method target authority headers framing host)
    (passes : Passes judge target ⟨host,authority.port⟩ forwarding) :
    construct judge method target authority headers framing forwarding =
      boundedHead (wireHead (requestLine method target.pathAndQuery) (headFields ⟨host,authority.port⟩ headers framing forwarding)) framing := by
  unfold construct
  rw [shared.host,shared.method,shared.headers,shared.framing,passes.lists]
  change (judge.target target ⟨host,authority.port⟩ >>= fun _ => _) = _
  rw [passes.target]
  rfl

/-- Everything else is the one error of the invariant. -/
theorem construct_fails (judges : Judges judge)
    (fails : ∀ host, Shared method target authority headers framing host → ¬Passes judge target ⟨host,authority.port⟩ forwarding) :
    construct judge method target authority headers framing forwarding = invariant := by
  unfold construct
  cases tokens : isMethod method with
  | false => rfl
  | true =>
    change (effectiveHost checkDns authority >>= fun _ => _) = _
    cases hosted : effectiveHost checkDns authority with
    | error error =>
      rw [effectiveHost_verdict authority error hosted]
      rfl
    | ok host =>
      change (judge.target target ⟨host,authority.port⟩ >>= fun _ => _) = _
      cases aimed : judge.target target ⟨host,authority.port⟩ with
      | error error =>
        rw [judges.verdict target _ error aimed]
        rfl
      | ok =>
        change (ensure (isSanitized headers) >>= fun _ => ensure (isFramed framing) >>= fun _ => _ >>= fun _ => _) = _
        rw [ensure_then,ensure_then,ensure_then]
        split_ifs with clean framed listed
        · exact absurd ⟨aimed,listed⟩ (fails host ⟨tokens,hosted,clean,framed,judges.path aimed⟩)
        · rfl
        · rfl
        · rfl

theorem boundedHead_apart (bytes : List UInt8) : boundedHead bytes framing ≠ invariant := by
  unfold boundedHead
  split <;> rintro ⟨⟩

theorem hosts_same {other : Host} (left : Shared method target authority headers framing host)
    (right : Shared method target authority headers framing other) : host = other :=
  Except.ok.inj (left.host.symm.trans right.host)

theorem constructs_agree {other : Judge} (judges : Judges judge) (others : Judges other) :
    construct judge method target authority headers framing forwarding = construct other method target authority headers framing forwarding ↔
      ∀ host, Shared method target authority headers framing host →
        (Passes judge target ⟨host,authority.port⟩ forwarding ↔ Passes other target ⟨host,authority.port⟩ forwarding) := by
  have apart {judge other : Judge} (others : Judges other)
      (same : construct judge method target authority headers framing forwarding = construct other method target authority headers framing forwarding)
      {host : Host} (shared : Shared method target authority headers framing host)
      (passes : Passes judge target ⟨host,authority.port⟩ forwarding) : Passes other target ⟨host,authority.port⟩ forwarding := by
    by_contra refused
    rw [construct_passes shared passes,construct_fails others] at same
    · exact boundedHead_apart _ same
    · intro found again
      rwa [← hosts_same shared again]
  constructor
  · intro same host shared
    exact ⟨apart others same shared,apart judges same.symm shared⟩
  · intro same
    by_cases built : ∃ host, Shared method target authority headers framing host ∧ Passes judge target ⟨host,authority.port⟩ forwarding
    · obtain ⟨host,shared,passes⟩ := built
      rw [construct_passes shared passes,construct_passes shared ((same host shared).mp passes)]
    · have refused (host : Host) (shared : Shared method target authority headers framing host) :
          ¬Passes judge target ⟨host,authority.port⟩ forwarding := fun passes => built ⟨host,shared,passes⟩
      rw [construct_fails judges refused,construct_fails others]
      intro host shared
      rw [← same host shared]
      exact refused host shared

/-- The five builders of a canonical head agree on an input exactly when, once all the checks
that they share pass, the four's own checks pass if and only if the double sink's do: the form
of the target against the effective authority and plain lists there, and here the form on its
own, no separator escaped anywhere in the target, and lists that may be quoted. -/
theorem canonical_heads_agree_iff (method : List UInt8) (target : NormalizedTarget) (authority : EffectiveAuthority)
    (headers : SanitizedHeaders) (framing : BodyFraming) (forwarding : ForwardingResult) :
    (∀ left ∈ canonicalHeadImplementations, ∀ right ∈ canonicalHeadImplementations,
      left method target authority headers framing forwarding = right method target authority headers framing forwarding) ↔
    ∀ host, Shared method target authority headers framing host →
      (validateForm checkDns target ⟨host,authority.port⟩ = .ok () ∧ (forwardingValues forwarding).all validForwardingValue ↔
        CanonicalHeadDualSink.validateTargetForm target = .ok () ∧ ¬EscapesSeparator target.pathAndQuery ∧
          (forwardingValues forwarding).all CanonicalHeadDualSink.validForwardingValue) := by
  have both : (∀ left ∈ canonicalHeadImplementations, ∀ right ∈ canonicalHeadImplementations,
      left method target authority headers framing forwarding = right method target authority headers framing forwarding) ↔
      construct plainJudge method target authority headers framing forwarding =
        construct quotedJudge method target authority headers framing forwarding := by
    constructor
    · intro agree
      rw [← rulePhases_construct,← dualSink_construct]
      exact agree _ (by simp [canonicalHeadImplementations]) _ (by simp [canonicalHeadImplementations])
    · intro same left among right within
      rcases implementations_judge left among with rfl | rfl <;> rcases implementations_judge right within with rfl | rfl
      · rfl
      · exact same
      · exact same.symm
      · rfl
  rw [both,constructs_agree plain_judges quoted_judges]
  apply forall_congr'
  intro host
  apply imp_congr_right
  intro shared
  apply iff_congr
  · constructor
    · rintro ⟨aimed,lists⟩
      exact ⟨((plainTarget_ok _ _).mp aimed).1,lists⟩
    · rintro ⟨formed,lists⟩
      exact ⟨(plainTarget_ok _ _).mpr ⟨formed,shared.path⟩,lists⟩
  · constructor
    · rintro ⟨aimed,lists⟩
      obtain ⟨formed,-,separated⟩ := (quotedTarget_ok _ _).mp aimed
      exact ⟨formed,separated,lists⟩
    · rintro ⟨formed,separated,lists⟩
      exact ⟨(quotedTarget_ok _ _).mpr ⟨formed,shared.path,separated⟩,lists⟩

end Judgements
end Polyguard.CanonicalHead
