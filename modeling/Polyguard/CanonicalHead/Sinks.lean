import Polyguard.CanonicalHead.Masks

/-! The implementation that runs one writer over two sinks.
The first sink counts the bytes and the second one stores them. Both take every text, so
that one run of the writer says what it does to either. -/
namespace Polyguard.CanonicalHead
open Ascii Slices Decimal Address TargetBytes HeaderFraming

section Sinks
open CanonicalHeadDualSink

/-- A sink that takes every text and grows by it. -/
structure Lawful {S : Type} (sink : HeadSink S) (grow : S → List UInt8 → S) : Prop where
  bytes : ∀ state chunk, sink.bytes state chunk = some (grow state chunk)
  upper : ∀ state chunk, sink.upperAscii state chunk = some (grow state (chunk.map toAsciiUppercase))
  nothing : ∀ state, grow state [] = state
  joined : ∀ state front back, grow (grow state front) back = grow state (front ++ back)

theorem counter_lawful : Lawful counter fun count chunk => count + chunk.length where
  bytes _ _ := rfl
  upper _ _ := by rw [List.length_map]; rfl
  nothing _ := rfl
  joined _ _ _ := by rw [List.length_append,Nat.add_assoc]

theorem vector_lawful : Lawful vector fun output chunk => output ++ chunk where
  bytes _ _ := rfl
  upper output chunk := by
    induction chunk generalizing output with
    | nil => exact congrArg some (List.append_nil output).symm
    | cons byte chunk ih =>
      refine (ih (output ++ [toAsciiUppercase byte])).trans ?_
      rw [List.append_assoc]
      rfl
  nothing output := List.append_nil output
  joined _ _ _ := List.append_assoc _ _ _

variable {S : Type} {sink : HeadSink S} {grow : S → List UInt8 → S}

theorem Lawful.field (lawful : Lawful sink grow) (state : S) (name value : List UInt8) :
    emitField sink state name value = some (grow state (wire [fieldLine ⟨name,value⟩])) := by
  have text : wire [fieldLine ⟨name,value⟩] = name ++ (ascii ": " ++ (value ++ ascii "\r\n")) := by
    simp [wire,fieldLine,text_colon,text_crlf]
  unfold emitField
  simp only [lawful.bytes,Option.bind_eq_bind,Option.bind_some,lawful.joined,text]

theorem Lawful.fields (lawful : Lawful sink grow) (keep : HeaderField → Bool) (fields : List HeaderField) (state : S) :
    fields.foldlM (fun state field => if keep field then emitField sink state field.name field.value else some state) state =
      some (grow state (wire ((fields.filter keep).map fieldLine))) := by
  induction fields generalizing state with
  | nil => exact congrArg some (lawful.nothing state).symm
  | cons field fields ih =>
    rw [List.foldlM_cons,List.filter_cons]
    cases keep field with
    | false => exact ih state
    | true =>
      rw [if_pos rfl,if_pos rfl,lawful.field,List.map_cons,← List.singleton_append (l := (fields.filter keep).map fieldLine),wire_append,
        ← lawful.joined]
      exact ih _

theorem dualSink_keeps {headers : SanitizedHeaders} (clean : headers.fields.all isEndToEnd) :
    ∀ field ∈ headers.fields, (headerRule field.name == .keep) = !isReplaced field.name := by
  intro field member
  rw [dualSink_rule,isForbidden_clean clean field member]
  cases isReplaced field.name <;> rfl

def hostView : Host → List UInt8 × Bool
  | .name text => (text,false)
  | .ipv6 address => (address,true)

theorem Lawful.forwarded (lawful : Lawful sink grow) (forwarding : ForwardingResult) (state : S) :
    (forwardingNames.zip (forwardingValues forwarding)).foldlM (fun state (name,value) => emitField sink state name value) state =
      some (grow state (wire ((forwardingFields forwarding).map fieldLine))) := by
  have all := lawful.fields (fun _ => true) (forwardingFields forwarding) state
  rw [List.filter_true] at all
  exact all

theorem Lawful.head (lawful : Lawful sink grow) {headers : SanitizedHeaders} (clean : headers.fields.all isEndToEnd) (state : S)
    (method path : List UInt8) (authority : EffectiveAuthority) (host : Host) (framing : BodyFraming) (forwarding : ForwardingResult) :
    emitHead sink state ⟨method,path,(hostView host).1,(hostView host).2⟩ authority headers framing forwarding =
      some (grow state (wireHead (requestLine method path) (headFields ⟨host,authority.port⟩ headers framing forwarding))) := by
  have kept : headers.fields.filter (fun field => headerRule field.name == .keep) = keptFields headers :=
    List.filter_congr (dualSink_keeps clean)
  have opening : ascii " HTTP/1.1\r\nHost: " = ascii " HTTP/1.1" ++ [0x0d,0x0a] ++ ascii "Host" ++ [0x3a,0x20] := rfl
  have space : ascii " " = [0x20] := rfl
  have left : ascii "[" = [0x5b] := rfl
  have right : ascii "]" = [0x5d] := rfl
  have colon : ascii ":" = [0x3a] := rfl
  have coding : ascii "Transfer-Encoding: chunked\r\n" = wire [fieldLine ⟨ascii "Transfer-Encoding",ascii "chunked"⟩] := text_chunked
  unfold emitHead HeadSink.decimal
  rw [wireHead_parts]
  cases host <;> cases port : authority.port <;> cases framing <;>
    simp only [hostView,lawful.bytes,lawful.upper,lawful.fields,lawful.joined,kept,lawful.forwarded,Option.bind_eq_bind,Option.bind_some,
      if_true,Bool.false_eq_true,if_false,renderDecimal_eq] <;>
    simp [requestLine,renderEndpoint,renderHost,framingFields,wire,fieldLine,opening,space,left,right,colon,coding,text_length,text_crlf]

theorem isLowerTokenByte_eq : isLowerTokenByte = isLowerToken := by
  funext byte
  exact forall_byte (p := fun b => isLowerTokenByte b = isLowerToken b) (by decide) byte

theorem validIpv6_ensure (value : List UInt8) : validateIpv6 value = ensure (validCanonicalIpv6 value) := by
  unfold validateIpv6 validCanonicalIpv6 ensure
  cases value.isEmpty <;> cases value.any isAsciiUppercase <;> cases value.contains 0x25 <;> cases isIpv6 value <;> rfl

theorem bracket_refused {host : List UInt8} {bracket : UInt8} (inside : bracket ∈ host) (address : isAddressByte bracket = false)
    (label : isDnsByte bracket = false) (dot : bracket ≠ 0x2e) : validCanonicalIpv6 host = false ∧ isDnsName host = false := by
  constructor
  · rw [Bool.eq_false_iff]
    intro valid
    simp only [validCanonicalIpv6,Bool.and_eq_true] at valid
    rw [isIpv6_bytes valid.2 bracket inside] at address
    cases address
  · rw [Bool.eq_false_iff]
    intro named
    simp only [isDnsName,Bool.and_eq_true] at named
    rcases labels_bytes named.2 bracket inside with dns | same
    · rw [dns] at label
      cases label
    · exact dot same

theorem dualSink_authority (authority : EffectiveAuthority) :
    validateEffectiveAuthority authority = (effectiveHost checkDns authority).map hostView := by
  obtain ⟨host,port⟩ := authority
  unfold validateEffectiveAuthority effectiveHost checkDns
  rw [dualSink_dns]
  simp only [validIpv6_ensure,ensure_then]
  by_cases zero : port = some 0
  · rw [if_pos zero,if_pos zero]
    rfl
  · rw [if_neg zero,if_neg zero]
    cases found : bracketed host with
    | some inner =>
      have starts : startsWith 0x5b host = true := by
        unfold bracketed at found
        split at found
        · assumption
        · cases found
      rw [starts,Bool.true_or,if_pos rfl]
      dsimp only
      cases validCanonicalIpv6 inner <;> rfl
    | none =>
      dsimp only
      by_cases edge : startsWith 0x5b host || endsWith 0x5d host
      · have refused : validCanonicalIpv6 host = false ∧ isDnsName host = false := by
          rcases Bool.or_eq_true_iff.mp edge with starts | ends
          · exact bracket_refused (List.mem_of_mem_head? (beq_iff_eq.mp starts)) (by decide) (by decide) (by decide)
          · exact bracket_refused (List.mem_of_mem_getLast? (beq_iff_eq.mp ends)) (by decide) (by decide) (by decide)
        rw [if_pos edge,refused.1,refused.2]
        cases host.contains 0x3a <;> rfl
      · rw [if_neg edge]
        cases host.contains 0x3a <;> cases validCanonicalIpv6 host <;> cases isDnsName host <;> rfl

theorem dualSink_fields (headers : SanitizedHeaders) :
    (headers.fields.any fun field =>
      !(!field.name.isEmpty && decide (field.name.length ≤ fieldNameLimit) && field.name.all isLowerTokenByte) ||
        decide (field.value.length > fieldValueLimit) || !field.value.all isValueByte || hasEdgeOws field.value ||
        headerRule field.name == .forbidden) = !headers.fields.all isEndToEnd := by
  have refused (field : HeaderField) :
      (!(!field.name.isEmpty && decide (field.name.length ≤ fieldNameLimit) && field.name.all isLowerTokenByte) ||
        decide (field.value.length > fieldValueLimit) || !field.value.all isValueByte || hasEdgeOws field.value ||
        headerRule field.name == .forbidden) = !isEndToEnd field := by
    have apart := @forbidden_unreplaced field.name
    have rejected : (headerRule field.name == .forbidden) = isForbidden field.name := by
      rw [dualSink_rule]
      cases replaced : isReplaced field.name <;> cases forbidden : isForbidden field.name <;> simp_all
    rw [isLowerTokenByte_eq,← field_refused field _ rejected,hasEdgeOws]
    simp only [isCanonicalName,Bool.or_assoc]
  rw [List.not_all_eq_any_not]
  simp only [refused]

theorem dualSink_target_verdict (target : NormalizedTarget) : Verdict (CanonicalHeadDualSink.validateTarget target) := by
  unfold CanonicalHeadDualSink.validateTarget CanonicalHeadDualSink.validateTargetForm
  refine Verdict.bind ?_ fun _ => .ite .invariant (.ite .invariant (.ok _))
  split
  · exact .ite .invariant (.ok _)
  · exact .ite .invariant (.ok _)
  · exact .invariant
  · exact .invariant

theorem dualSink_construct : constructCanonicalUpstreamHead = construct quotedJudge := by
  funext method target authority headers framing forwarding
  have methods : (method.isEmpty || decide (method.length > methodLimit) || !method.all isLowerTokenByte) = !isMethod method := by
    rw [isLowerTokenByte_eq,isMethod]
    simp only [Bool.not_and,Bool.not_not,← Nat.not_lt,decide_not,gt_iff_lt]
  have names : (fun name : List UInt8 => !name.isEmpty && decide (name.length ≤ fieldNameLimit) && name.all isLowerTokenByte) =
      isCanonicalName := by
    rw [isLowerTokenByte_eq]
    rfl
  unfold constructCanonicalUpstreamHead validateBoundary construct
  dsimp only
  rw [methods,dualSink_fields,dualSink_authority,names,exceedsLength_framed,← List.not_all_eq_any_not]
  cases isMethod method with
  | false => rfl
  | true =>
    cases judged : CanonicalHeadDualSink.validateTarget target with
    | error error =>
      rw [dualSink_target_verdict target error judged]
      cases found : effectiveHost checkDns authority with
      | error error =>
        rw [effectiveHost_verdict authority error found]
        rfl
      | ok host =>
        simp only [quotedJudge,judged]
        rw [dualSink_target_verdict target error judged]
        rfl
    | ok _ =>
      cases found : effectiveHost checkDns authority with
      | error error => rfl
      | ok host =>
        simp only [quotedJudge,judged,bind_ok,ensure_then,Except.map]
        have clean : isSanitized headers = (decide (headers.fields.length ≤ fieldLimit) && headers.fields.all isEndToEnd &&
          increasingNames isCanonicalName none headers.removedNames) := rfl
        by_cases few : headers.fields.length ≤ fieldLimit
        · rw [decide_eq_true few,Bool.true_and] at clean
          rw [if_neg (Nat.not_lt.mpr few),clean]
          cases good : headers.fields.all isEndToEnd with
          | false => rfl
          | true =>
            cases increasingNames isCanonicalName none headers.removedNames with
            | false => rfl
            | true =>
              cases isFramed framing with
              | false => rfl
              | true =>
                cases (forwardingValues forwarding).all CanonicalHeadDualSink.validForwardingValue with
                | false => rfl
                | true =>
                  have counted := counter_lawful.head good 0 method target.pathAndQuery authority host framing forwarding
                  have written := vector_lawful.head good [] method target.pathAndQuery authority host framing forwarding
                  rw [Nat.zero_add] at counted
                  simp only [Bool.not_true,Bool.false_eq_true,if_false,if_true,bind_ok,Bool.true_and,counted,written,List.nil_append]
                  rfl
        · rw [decide_eq_false few] at clean
          rw [if_pos (Nat.lt_of_not_le few),clean]
          rfl

end Sinks
end Polyguard.CanonicalHead
