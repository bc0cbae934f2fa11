import Polyguard.CanonicalHead.Sinks

/-! No byte of an accepted input starts a line of its own.
Every head that is built is one request line and one line for each of its fields, and the
lines can be read back from the bytes in one way only. -/
namespace Polyguard.CanonicalHead
open Ascii Slices Decimal Address TargetBytes HeaderFraming

section Judges

theorem implementations_judge : ∀ construct ∈ canonicalHeadImplementations,
    construct = CanonicalHead.construct plainJudge ∨ construct = CanonicalHead.construct quotedJudge := by
  intro construct registered
  simp only [canonicalHeadImplementations,List.mem_cons,List.not_mem_nil,or_false] at registered
  rcases registered with rfl | rfl | rfl | rfl | rfl
  · exact .inl rulePhases_construct
  · exact .inl composableTable_construct
  · exact .inl compiledPlan_construct
  · exact .inr dualSink_construct
  · exact .inl reverseFill_construct

/-- What both judges know of the bytes of an accepted target and an accepted list. -/
structure Careful (judge : Judge) : Prop where
  target : ∀ {target endpoint}, judge.target target endpoint = .ok () → ∀ b ∈ target.pathAndQuery, isTargetByte b
  list : ∀ {value}, judge.list value → ∀ b ∈ value, isValueByte b

theorem plain_careful : Careful plainJudge where
  target := by
    intro target endpoint accepted
    obtain ⟨_,-,accepted⟩ := bind_success accepted
    unfold validatePath at accepted
    split at accepted
    · cases accepted
    · rename_i clean
      simp only [Bool.or_eq_true,not_or,Bool.not_eq_true,Bool.not_eq_false'] at clean
      exact List.all_eq_true.mp clean.2
  list := by
    intro value accepted b member
    change validForwardingValue value = true at accepted
    simp only [validForwardingValue,Bool.and_eq_true] at accepted
    have printable := List.all_eq_true.mp accepted.1.1.1.2 b member
    simp only [isValueByte,Bool.or_eq_true]
    exact .inl (.inr printable)

theorem targetBytes_visible (bytes : List UInt8) (accepted : CanonicalHeadDualSink.validCanonicalTargetBytes bytes) :
    ∀ b ∈ bytes, isTargetByte b := by
  have digit := forall_byte (p := fun b => isUpperHex b → isTargetByte b) (by decide)
  fun_induction CanonicalHeadDualSink.validCanonicalTargetBytes bytes with
  | case1 => simp
  | case2 byte escaped high low rest odd => cases accepted
  | case3 byte escaped high low rest digits decoded refused => cases accepted
  | case4 byte escaped high low rest digits decoded allowed ih =>
    simp only [Bool.or_eq_true,Bool.not_eq_true',not_or,Bool.not_eq_false] at digits
    obtain rfl := beq_iff_eq.mp escaped
    simp only [List.forall_mem_cons]
    exact ⟨by decide,digit high digits.1,digit low digits.2,ih accepted⟩
  | case5 byte bytes escaped short => cases accepted
  | case6 byte bytes plain odd => cases accepted
  | case7 byte bytes plain shown ih =>
    simp only [Bool.or_eq_true,Bool.not_eq_true',not_or,Bool.not_eq_false,beq_iff_eq] at shown
    simp only [List.forall_mem_cons]
    refine ⟨?_,ih accepted⟩
    simp [isTargetByte,shown]

theorem quoted_careful : Careful quotedJudge where
  target := by
    intro target endpoint accepted
    obtain ⟨_,-,accepted⟩ := bind_success accepted
    dsimp only at accepted
    split at accepted
    · cases accepted
    · split at accepted
      · cases accepted
      · rename_i clean
        simp only [Bool.or_eq_true,not_or,Bool.not_eq_true,Bool.not_eq_false'] at clean
        exact targetBytes_visible _ clean.1.2
  list := by
    intro value accepted b member
    change CanonicalHeadDualSink.validForwardingValue value = true at accepted
    unfold CanonicalHeadDualSink.validForwardingValue at accepted
    split at accepted
    · cases accepted
    · rename_i clean
      simp only [Bool.or_eq_true,not_or,Bool.not_eq_true,Bool.not_eq_false'] at clean
      have printable := List.all_eq_true.mp clean.1.2 b member
      simp only [isValueByte,Bool.or_eq_true]
      exact .inl (.inr printable)

theorem implementations_careful {construct} (registered : construct ∈ canonicalHeadImplementations) :
    ∃ judge, Careful judge ∧ construct = CanonicalHead.construct judge := by
  rcases implementations_judge construct registered with same | same
  · exact ⟨plainJudge,plain_careful,same⟩
  · exact ⟨quotedJudge,quoted_careful,same⟩

end Judges

section Lines

/-- A field that a head may carry: its name is a token and its value is printable. -/
structure OnLine (field : HeaderField) : Prop where
  named : ∀ b ∈ field.name, isTchar b
  valued : ∀ b ∈ field.value, isValueByte b

theorem isValueByte_inner {byte : UInt8} (value : isValueByte byte) : Inner byte := by
  have apart := forall_byte (p := fun b => isValueByte b → b ≠ 0x0d ∧ b ≠ 0x0a) (by decide) byte
  exact apart value

theorem isTchar_value {byte : UInt8} (token : isTchar byte) : isValueByte byte ∧ byte ≠ 0x3a := by
  have apart := forall_byte (p := fun b => isTchar b → isValueByte b ∧ b ≠ 0x3a) (by decide) byte
  exact apart token

/-- A field that takes one line, with its name before the first colon. -/
structure OneLine (field : HeaderField) : Prop where
  named : ∀ b ∈ field.name, isTchar b
  inner : ∀ b ∈ field.value, Inner b

theorem OneLine.whole {field : HeaderField} (line : OneLine field) : Whole (fieldLine field) := by
  refine ⟨by simp [fieldLine],?_⟩
  intro b member
  rcases List.mem_append.mp member with inside | inside
  · exact isValueByte_inner (isTchar_value (line.named b inside)).1
  · rcases List.mem_cons.mp inside with rfl | inside
    · exact isValueByte_inner (by decide)
    · rcases List.mem_cons.mp inside with rfl | inside
      · exact isValueByte_inner (by decide)
      · exact line.inner b inside

theorem OnLine.oneLine {field : HeaderField} (line : OnLine field) : OneLine field :=
  ⟨line.named,fun b member => isValueByte_inner (line.valued b member)⟩

/-- A head that carries these fields, each on a line of its own behind the request line. -/
def Carries (bytes : List UInt8) (fields : List HeaderField) : Prop :=
  ∃ request, Whole request ∧ (∀ field ∈ fields, OnLine field) ∧ bytes = wireHead request fields

theorem wire_unique {left right : List (List UInt8)} (leftWhole : ∀ line ∈ left, Whole line) (rightWhole : ∀ line ∈ right, Whole line)
    {leftRest rightRest : List UInt8} (same : wire left ++ 0x0d :: 0x0a :: leftRest = wire right ++ 0x0d :: 0x0a :: rightRest) :
    left = right := by
  have ended {line rest : List UInt8} (whole : Whole line) : (line ++ 0x0d :: rest).takeWhile (· != 0x0d) = line :=
    takeWhile_append_hit rest (fun b member => bne_iff_ne.mpr (whole.2 b member).1) (by decide)
  induction left generalizing right with
  | nil =>
    cases right with
    | nil => rfl
    | cons line lines =>
      have whole := rightWhole line List.mem_cons_self
      have cut := congrArg (List.takeWhile (· != 0x0d)) same
      rw [wire_cons,List.append_assoc,List.cons_append,ended whole] at cut
      exact absurd cut.symm whole.1
  | cons line lines ih =>
    have whole := leftWhole line List.mem_cons_self
    have cut := congrArg (List.takeWhile (· != 0x0d)) same
    rw [wire_cons,List.append_assoc,List.cons_append,ended whole] at cut
    cases right with
    | nil => exact absurd cut whole.1
    | cons other others =>
      rw [wire_cons,List.append_assoc,List.cons_append,ended (rightWhole other List.mem_cons_self)] at cut
      subst cut
      rw [wire_cons,wire_cons,List.append_assoc,List.append_assoc] at same
      have later := List.append_cancel_left same
      simp only [List.cons_append,List.cons.injEq,true_and] at later
      rw [ih (fun line member => leftWhole line (List.mem_cons_of_mem _ member))
        (fun line member => rightWhole line (List.mem_cons_of_mem _ member)) later]

theorem fieldLine_unique {left right : HeaderField} (leftLine : OneLine left) (rightLine : OneLine right)
    (same : fieldLine left = fieldLine right) : left = right := by
  have ended {field : HeaderField} (line : OneLine field) : (fieldLine field).takeWhile (· != 0x3a) = field.name :=
    takeWhile_append_hit _ (fun b member => bne_iff_ne.mpr (isTchar_value (line.named b member)).2) (by decide)
  have names := congrArg (List.takeWhile (· != 0x3a)) same
  rw [ended leftLine,ended rightLine] at names
  obtain ⟨name,value⟩ := left
  obtain ⟨other,text⟩ := right
  dsimp only at names
  subst names
  have values := List.append_cancel_left same
  simp only [List.cons.injEq,true_and] at values
  rw [values]

theorem fieldLines_unique {left right : List HeaderField} (lines : ∀ field ∈ left, OneLine field) (others : ∀ field ∈ right, OneLine field)
    (same : left.map fieldLine = right.map fieldLine) : left = right := by
  induction left generalizing right with
  | nil =>
    cases right with
    | nil => rfl
    | cons field fields => cases same
  | cons field fields ih =>
    cases right with
    | nil => cases same
    | cons next rest =>
      obtain ⟨first,later⟩ := List.cons.inj same
      obtain ⟨line,lines⟩ := List.forall_mem_cons.mp lines
      obtain ⟨other,others⟩ := List.forall_mem_cons.mp others
      rw [fieldLine_unique line other first,ih lines others later]

/-- The start line and the fields of a head are determined by its bytes, whatever follows them. -/
theorem wireHead_unique {request other leftRest rightRest : List UInt8} {left right : List HeaderField} (whole : Whole request)
    (otherWhole : Whole other) (lines : ∀ field ∈ left, OneLine field) (otherLines : ∀ field ∈ right, OneLine field)
    (same : wireHead request left ++ leftRest = wireHead other right ++ rightRest) : request = other ∧ left = right := by
  have wholes {start : List UInt8} {fields : List HeaderField} (whole : Whole start) (lines : ∀ field ∈ fields, OneLine field) :
      ∀ line ∈ start :: fields.map fieldLine, Whole line := by
    intro line member
    rcases List.mem_cons.mp member with rfl | inside
    · exact whole
    · obtain ⟨field,among,rfl⟩ := List.mem_map.mp inside
      exact (lines field among).whole
  simp only [wireHead,List.append_assoc,List.cons_append,List.nil_append] at same
  obtain ⟨first,later⟩ := List.cons.inj (wire_unique (wholes whole lines) (wholes otherWhole otherLines) same)
  exact ⟨first,fieldLines_unique lines otherLines later⟩

theorem carries_unique {bytes : List UInt8} {left right : List HeaderField} (leftCarried : Carries bytes left)
    (rightCarried : Carries bytes right) : left = right := by
  obtain ⟨request,whole,lines,rfl⟩ := leftCarried
  obtain ⟨other,otherWhole,otherLines,same⟩ := rightCarried
  exact (wireHead_unique whole otherWhole (fun field member => (lines field member).oneLine)
    (fun field member => (otherLines field member).oneLine) (congrArg (· ++ []) same)).2

end Lines

section Built

theorem effectiveHost_bytes {authority : EffectiveAuthority} {host : Host} (accepted : effectiveHost checkDns authority = .ok host) :
    ∀ b ∈ renderHost host, isValueByte b := by
  have dns := forall_byte (p := fun b => isDnsByte b → isValueByte b) (by decide)
  have digit := forall_byte (p := fun b => isAddressByte b → isValueByte b) (by decide)
  have address {text : List UInt8} (checked : validateIpv6 text = .ok ()) : ∀ b ∈ text, isValueByte b := by
    unfold validateIpv6 at checked
    split at checked
    · cases checked
    · rename_i clean
      simp only [Bool.or_eq_true,not_or,Bool.not_eq_true,Bool.not_eq_false'] at clean
      exact fun b member => digit b (isIpv6_bytes clean.2 b member)
  have bracketed {text : List UInt8} (inside : ∀ b ∈ text, isValueByte b) : ∀ b ∈ renderHost (.ipv6 text), isValueByte b := by
    intro b member
    rcases List.mem_cons.mp member with rfl | member
    · decide
    · rcases List.mem_append.mp member with member | member
      · exact inside b member
      · rw [List.mem_singleton.mp member]
        decide
  unfold effectiveHost at accepted
  split at accepted
  · cases accepted
  · split at accepted
    · obtain ⟨_,checked,same⟩ := bind_success accepted
      cases same
      exact bracketed (address checked)
    · split at accepted
      · obtain ⟨_,checked,same⟩ := bind_success accepted
        cases same
        exact bracketed (address checked)
      · obtain ⟨_,checked,same⟩ := bind_success accepted
        cases same
        unfold checkDns ensure at checked
        split at checked
        · rename_i named
          simp only [isDnsName,Bool.and_eq_true] at named
          intro b member
          rcases labels_bytes named.2 b member with label | rfl
          · exact dns b label
          · decide
        · cases checked

theorem renderEndpoint_bytes {authority : EffectiveAuthority} {host : Host} (accepted : effectiveHost checkDns authority = .ok host)
    (port : Option Nat) : ∀ b ∈ renderEndpoint ⟨host,port⟩, isValueByte b := by
  have inHost := effectiveHost_bytes accepted
  have digit := forall_byte (p := fun b => isAsciiDigit b → isValueByte b) (by decide)
  cases port with
  | none => exact inHost
  | some port =>
    intro b member
    rcases List.mem_append.mp member with member | member
    · exact inHost b member
    · rcases List.mem_cons.mp member with rfl | member
      · decide
      · exact digit b (decimal_digits port b member)

theorem requestLine_whole {method path : List UInt8} (tokens : isMethod method) (visible : ∀ b ∈ path, isTargetByte b) :
    Whole (requestLine method path) := by
  have upper := forall_byte (p := fun b => isLowerToken b → isValueByte (toAsciiUppercase b)) (by decide)
  have shown := forall_byte (p := fun b => isTargetByte b → isValueByte b) (by decide)
  have version : (ascii " HTTP/1.1").all isValueByte := by decide +kernel
  simp only [isMethod,Bool.and_eq_true] at tokens
  refine ⟨by simp [requestLine],fun b member => isValueByte_inner ?_⟩
  rcases List.mem_append.mp member with member | member
  · obtain ⟨c,inside,rfl⟩ := List.mem_map.mp member
    exact upper c (List.all_eq_true.mp tokens.2 c inside)
  · rcases List.mem_cons.mp member with rfl | member
    · decide
    · rcases List.mem_append.mp member with member | member
      · exact shown b (visible b member)
      · exact List.all_eq_true.mp version b member

theorem isEndToEnd_line {field : HeaderField} (clean : isEndToEnd field) : OnLine field := by
  simp only [isEndToEnd,isCanonicalName,Bool.and_eq_true] at clean
  constructor
  · intro b member
    have token := List.all_eq_true.mp clean.1.1.1.1.2 b member
    simp only [isLowerToken,Bool.and_eq_true] at token
    exact token.1
  · exact List.all_eq_true.mp clean.1.1.2

/-- What is known of a head that an implementation returned. -/
structure Built (method : List UInt8) (target : NormalizedTarget) (authority : EffectiveAuthority) (headers : SanitizedHeaders)
    (framing : BodyFraming) (forwarding : ForwardingResult) (head : CanonicalRequestHead) (host : Host) : Prop where
  hosted : effectiveHost checkDns authority = .ok host
  clean : isSanitized headers
  bytes : head.bytes = wireHead (requestLine method target.pathAndQuery) (headFields ⟨host,authority.port⟩ headers framing forwarding)
  bounded : head.bytes.length ≤ headLimit
  framed : head.bodyFraming = framing
  carries : Carries head.bytes (headFields ⟨host,authority.port⟩ headers framing forwarding)

theorem written_texts : (∀ name ∈ forwardingNames ++ [ascii "Host",ascii "Content-Length",ascii "Transfer-Encoding",ascii "Connection"],
    name.all isTchar) ∧ ∀ value ∈ [ascii "chunked",ascii "close"], value.all isValueByte := by
  decide +kernel

theorem headFields_lines {judge : Judge} (careful : Careful judge) {authority : EffectiveAuthority} {headers : SanitizedHeaders}
    {framing : BodyFraming} {forwarding : ForwardingResult} {host : Host} (hosted : effectiveHost checkDns authority = .ok host)
    (clean : isSanitized headers) (listed : (forwardingValues forwarding).all judge.list) :
    ∀ field ∈ headFields ⟨host,authority.port⟩ headers framing forwarding, OnLine field := by
  simp only [isSanitized,Bool.and_eq_true] at clean
  have digit := forall_byte (p := fun b => isAsciiDigit b → isValueByte b) (by decide)
  have values : ∀ value ∈ forwardingValues forwarding, ∀ b ∈ value, isValueByte b :=
    fun value member => careful.list (List.all_eq_true.mp listed value member)
  have names (name : List UInt8) (listed : name ∈ forwardingNames ++ [ascii "Host",ascii "Content-Length",ascii "Transfer-Encoding",
      ascii "Connection"]) : ∀ b ∈ name, isTchar b := List.all_eq_true.mp (written_texts.1 name listed)
  have texts (value : List UInt8) (listed : value ∈ [ascii "chunked",ascii "close"]) : ∀ b ∈ value, isValueByte b :=
    List.all_eq_true.mp (written_texts.2 value listed)
  intro field member
  rcases List.mem_cons.mp member with rfl | member
  · exact ⟨names _ (by simp),renderEndpoint_bytes hosted authority.port⟩
  · rcases List.mem_append.mp member with kept | member
    · exact isEndToEnd_line (List.all_eq_true.mp clean.1.2 field (List.mem_of_mem_filter kept))
    · rcases List.mem_append.mp member with forwarded | member
      · obtain ⟨⟨name,value⟩,zipped,rfl⟩ := List.mem_map.mp forwarded
        exact ⟨names name (List.mem_append_left _ (List.of_mem_zip zipped).1),values value (List.of_mem_zip zipped).2⟩
      · rcases List.mem_append.mp member with framed | closing
        · cases framing with
          | none => cases framed
          | contentLength length =>
            obtain rfl := List.mem_singleton.mp framed
            exact ⟨names _ (by simp),fun b inside => digit b (decimal_digits length b inside)⟩
          | chunked =>
            obtain rfl := List.mem_singleton.mp framed
            exact ⟨names _ (by simp),texts _ (by simp)⟩
        · obtain rfl := List.mem_singleton.mp closing
          exact ⟨names _ (by simp),texts _ (by simp)⟩

theorem ensure_ok {held : Bool} {result : Unit} (ok : ensure held = .ok result) : held = true := by
  unfold ensure at ok
  split at ok
  · assumption
  · cases ok

theorem implementation_built {construct} (registered : construct ∈ canonicalHeadImplementations) {method : List UInt8}
    {target : NormalizedTarget} {authority : EffectiveAuthority} {headers : SanitizedHeaders} {framing : BodyFraming}
    {forwarding : ForwardingResult} {head : CanonicalRequestHead}
    (returned : construct method target authority headers framing forwarding = .ok head) :
    ∃ host, Built method target authority headers framing forwarding head host := by
  obtain ⟨judge,careful,rfl⟩ := implementations_careful registered
  obtain ⟨_,tokens,returned⟩ := bind_success returned
  obtain ⟨host,hosted,returned⟩ := bind_success returned
  obtain ⟨_,accepted,returned⟩ := bind_success returned
  obtain ⟨_,clean,returned⟩ := bind_success returned
  obtain ⟨_,-,returned⟩ := bind_success returned
  obtain ⟨_,listed,returned⟩ := bind_success returned
  unfold boundedHead at returned
  split at returned
  · cases returned
  · rename_i short
    cases returned
    refine ⟨host,hosted,ensure_ok clean,rfl,Nat.not_lt.mp short,rfl,?_⟩
    exact ⟨_,requestLine_whole (ensure_ok tokens) (careful.target accepted),
      headFields_lines careful hosted (ensure_ok clean) (ensure_ok listed),rfl⟩

end Built
end Polyguard.CanonicalHead
