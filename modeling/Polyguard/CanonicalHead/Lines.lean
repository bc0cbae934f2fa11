import Polyguard.CanonicalHead.Checks

/-! The implementations that append one line behind the other.
The rules of the phases and the table of decisions give the head of `construct`, under the
judge that compares an absolute target with the host. -/
namespace Polyguard.CanonicalHead
open Ascii Slices Decimal Address TargetBytes HeaderFraming

section Fields

theorem canonicalName_plain (name : List UInt8) :
    (!name.isEmpty && decide (name.length ≤ fieldNameLimit) && name.all isTchar && !name.any isAsciiUppercase) = isCanonicalName name := by
  rw [isCanonicalName,all_lowerToken,Bool.and_assoc _ (name.all isTchar)]

theorem canonicalName_counted (name : List UInt8) :
    (decide (1 ≤ name.length) && decide (name.length ≤ fieldNameLimit) && name.all isTchar && !name.any isAsciiUppercase) =
      isCanonicalName name := by
  rw [positive_length,canonicalName_plain]

theorem field_refused (field : HeaderField) (rejected : Bool) (same : rejected = isForbidden field.name) :
    (!isCanonicalName field.name || decide (field.value.length > fieldValueLimit) || !field.value.all isValueByte ||
      field.value.head?.any isOws || field.value.getLast?.any isOws || rejected) = !isEndToEnd field := by
  subst same
  simp only [isEndToEnd,hasBlankEdge,Bool.not_and,Bool.not_or,Bool.not_not,← Nat.not_lt,decide_not,Bool.or_assoc,gt_iff_lt]

end Fields

section RulePhases
open CanonicalHeadRulePhases

theorem rulePhases_rejects (name : List UInt8) : (fieldAction name == .reject) = isForbidden name := by
  have apart := @forbidden_unreplaced name
  rw [rulePhases_action]
  cases replaced : isReplaced name <;> cases forbidden : isForbidden name <;> simp_all

theorem rulePhases_preserves {name : List UInt8} (allowed : isForbidden name = false) :
    (fieldAction name == .preserve) = !isReplaced name := by
  rw [rulePhases_action,allowed]
  cases isReplaced name <;> rfl

theorem rulePhases_headers (headers : SanitizedHeaders) : validateHeaders headers = ensure (isSanitized headers) := by
  unfold validateHeaders isSanitized
  simp only [canonicalName_plain,field_refused _ _ (rulePhases_rejects _)]
  rw [← List.not_all_eq_any_not]
  cases headers.fields.all isEndToEnd <;> by_cases few : headers.fields.length ≤ fieldLimit <;> simp [few,ensure,Nat.not_lt.mpr,Nat.not_le.mp]

theorem rulePhases_form (target : NormalizedTarget) {authority : EffectiveAuthority} {host : Host}
    (found : effectiveHost checkDns authority = .ok host) :
    validateTargetForm target authority = validateForm checkDns target ⟨host,authority.port⟩ := by
  unfold validateTargetForm validateForm validateEffectiveAuthority
  rw [rulePhases_dns,found]
  rcases target with ⟨form,scheme,raw,path,routing⟩
  cases form with
  | origin => cases scheme <;> cases raw <;> rfl
  | absolute =>
    cases raw with
    | none => cases schemePort scheme <;> rfl
    | some raw =>
      dsimp only
      cases schemePort scheme with
      | none => rfl
      | some defaultPort =>
        refine bind_congr_ok fun source _ => ?_
        simp [sameHost,or_assoc]
  | authority => rfl
  | asterisk => rfl

theorem rulePhases_path (value routing : List UInt8) :
    (if value.isEmpty || value.length > targetLimit || !startsWith 0x2f value then invariant
    else if !value.all isTargetByte then invariant
    else
      let queryAt := queryStart value
      let path := value.take queryAt
      if routing != path || !canonicalEscapes queryAt 0 value then invariant
      else if hasDotSegment (path.drop 1) then invariant
      else .ok ()) = validatePath value routing := by
  unfold validatePath ensure slice
  dsimp only
  cases value.all isTargetByte <;> cases canonicalEscapes (queryStart value) 0 value <;>
    cases hasDotSegment ((value.take (queryStart value)).drop 1) <;> simp

theorem rulePhases_target (target : NormalizedTarget) {authority : EffectiveAuthority} {host : Host}
    (found : effectiveHost checkDns authority = .ok host) :
    validateTarget target authority = plainJudge.target target ⟨host,authority.port⟩ := by
  unfold validateTarget plainJudge
  rw [rulePhases_form target found]
  simp only [rulePhases_path]

theorem rulePhases_target_verdict (target : NormalizedTarget) (authority : EffectiveAuthority) :
    Verdict (validateTarget target authority) := by
  have form : Verdict (validateTargetForm target authority) := by
    unfold validateTargetForm validateEffectiveAuthority
    rw [rulePhases_dns]
    split
    · exact .ite (.ok _) .invariant
    · split
      · exact .invariant
      · exact .invariant
      · exact (parseTargetAuthority_verdict _).bind fun _ => (effectiveHost_verdict _).bind fun _ => .ite .invariant (.ok _)
    · exact .invariant
  exact form.bind fun _ => .ite .invariant (.ite .invariant (.ite .invariant (.ite .invariant (.ok _))))

theorem rulePhases_digits (fuel value digits : Nat) (within : value ≤ fuel) :
    decimalLenFrom fuel value digits = digits + Nat.log 10 value := by
  induction fuel generalizing value digits with
  | zero =>
    obtain rfl := Nat.le_zero.mp within
    rfl
  | succ fuel ih =>
    unfold decimalLenFrom
    split
    · rename_i large
      rw [ih _ _ (by omega),Nat.log_of_one_lt_of_le (by decide) large]
      omega
    · rw [Nat.log_of_lt (by omega)]
      rfl

@[simp] theorem rulePhases_decimalLen (value : Nat) :
    CanonicalHeadRulePhases.decimalLen value = (decimal value).length := by
  rw [CanonicalHeadRulePhases.decimalLen,rulePhases_digits _ _ _ (Nat.le_refl value),← decimalLen_eq,CanonicalHead.decimalLen]
  split
  · rename_i zero
    subst zero
    rfl
  · omega

theorem rulePhases_host (output : List UInt8) (authority : EffectiveAuthority) (host : Host) :
    emitHost output authority host = output ++ wire [fieldLine ⟨ascii "Host",renderEndpoint ⟨host,authority.port⟩⟩] := by
  unfold emitHost renderEndpoint renderHost
  cases host <;> cases authority.port <;> simp [wire,fieldLine,text_host,text_crlf]

theorem rulePhases_framing (output : List UInt8) (framing : BodyFraming) :
    emitFraming output framing = output ++ wire ((framingFields framing).map fieldLine) := by
  unfold emitFraming framingFields
  cases framing with
  | none => simp [wire]
  | contentLength length => simp [wire,fieldLine,text_length,text_crlf]
  | chunked => rw [text_chunked,List.map_cons,List.map_nil]

theorem rulePhases_keeps {headers : SanitizedHeaders} (clean : headers.fields.all isEndToEnd) :
    ∀ field ∈ headers.fields, (fieldAction field.name == .preserve) = !isReplaced field.name := by
  intro field member
  have allowed := List.all_eq_true.mp clean field member
  simp only [isEndToEnd,Bool.and_eq_true,Bool.not_eq_true'] at allowed
  exact rulePhases_preserves allowed.2

theorem forwarded_length (forwarding : ForwardingResult) (total : Nat) :
    (forwardingNames.zip (forwardingValues forwarding)).foldl (fun size (name,value) => size + (name.length + 2 + value.length + 2)) total =
      total + (wire ((forwardingFields forwarding).map fieldLine)).length :=
  fieldLength_fold (forwardingFields forwarding) total

theorem rulePhases_size {headers : SanitizedHeaders} (clean : headers.fields.all isEndToEnd) (method : List UInt8)
    (target : NormalizedTarget) (authority : EffectiveAuthority) (host : Host) (framing : BodyFraming)
    (forwarding : ForwardingResult) {size : Nat}
    (same : size = (wireHead (requestLine method target.pathAndQuery)
      (headFields ⟨host,authority.port⟩ headers framing forwarding)).length) :
    serializedSize method target authority host headers framing forwarding =
      if size > headLimit then headTooLong size else .ok size := by
  obtain ⟨version,host',-,length,chunked,closing⟩ := text_lengths
  have endpoint : renderedHostLen host + renderedPortLen authority.port = (renderEndpoint ⟨host,authority.port⟩).length := by
    rw [renderEndpoint_length]
    unfold renderedHostLen renderedPortLen hostLength
    cases host <;> cases authority.port <;> simp
  have framed : framingLen framing = (wire ((framingFields framing).map fieldLine)).length := by
    rw [framing_length]
    unfold framingLen
    cases framing <;> simp [length,chunked]
  unfold serializedSize
  dsimp only
  rw [kept_fold (rulePhases_keeps clean) fun size field => size + (field.name.length + 2 + field.value.length + 2),
    fieldLength_fold,forwarded_length,framed]
  have total := same.trans (wireHead_length _ _ _ _ _ _)
  rw [← endpoint] at total
  rw [version,host',closing]
  congr 2 <;> omega

theorem rulePhases_bytes {headers : SanitizedHeaders} (clean : headers.fields.all isEndToEnd) (method : List UInt8)
    (target : NormalizedTarget) (authority : EffectiveAuthority) (host : Host) (framing : BodyFraming)
    (forwarding : ForwardingResult) :
    emitFraming (appendField (appendField (appendField (appendField (headers.fields.foldl (fun bytes field =>
        if fieldAction field.name == .preserve then appendField bytes field.name field.value else bytes)
      (emitHost (emitRequestLine [] method target.pathAndQuery) authority host)) (ascii "Forwarded") forwarding.forwarded)
      (ascii "X-Forwarded-For") forwarding.xForwardedFor) (ascii "X-Forwarded-Proto") forwarding.xForwardedProto)
      (ascii "X-Forwarded-Host") forwarding.xForwardedHost) framing ++ ascii "Connection: close\r\n\r\n" =
    wireHead (requestLine method target.pathAndQuery) (headFields ⟨host,authority.port⟩ headers framing forwarding) := by
  have forwarded (bytes : List UInt8) : appendField (appendField (appendField (appendField bytes (ascii "Forwarded")
      forwarding.forwarded) (ascii "X-Forwarded-For") forwarding.xForwardedFor) (ascii "X-Forwarded-Proto")
      forwarding.xForwardedProto) (ascii "X-Forwarded-Host") forwarding.xForwardedHost =
        bytes ++ wire ((forwardingFields forwarding).map fieldLine) := appendField_fold (forwardingFields forwarding) bytes
  have opened : emitRequestLine [] method target.pathAndQuery = requestLine method target.pathAndQuery ++ [0x0d,0x0a] := by
    have version : ascii " HTTP/1.1\r\n" = ascii " HTTP/1.1" ++ [0x0d,0x0a] := rfl
    simp [emitRequestLine,requestLine,version]
  rw [kept_fold (rulePhases_keeps clean) fun bytes field => appendField bytes field.name field.value,appendField_fold,
    forwarded,rulePhases_framing,rulePhases_host,opened,wireHead_parts]

theorem rulePhases_method (method : List UInt8) : validateMethod method = ensure (isMethod method) := by
  unfold validateMethod isMethod ensure
  rw [all_lowerToken]
  cases method.all isTchar <;> cases method.any isAsciiUppercase <;> by_cases short : method.length ≤ methodLimit <;>
    simp [short,Nat.not_lt.mpr,Nat.not_le.mp]

theorem exceedsLength_framed (framing : BodyFraming) : exceedsLength framing = !isFramed framing := by
  cases framing with
  | none => rfl
  | contentLength length => simp only [exceedsLength,isFramed,← Nat.not_le,decide_not,gt_iff_lt]
  | chunked => rfl

theorem rulePhases_framed (framing : BodyFraming) : validateFraming framing = ensure (isFramed framing) := by
  unfold validateFraming
  rw [exceedsLength_framed]
  cases isFramed framing <;> rfl

theorem rulePhases_construct : constructCanonicalUpstreamHead = construct plainJudge := by
  funext method target authority headers framing forwarding
  unfold constructCanonicalUpstreamHead construct validateForwarding
  rw [rulePhases_method,rulePhases_headers,rulePhases_framed]
  refine bind_congr_ok fun _ _ => ?_
  unfold validateEffectiveAuthority
  rw [rulePhases_dns]
  cases found : effectiveHost checkDns authority with
  | error error =>
    rw [effectiveHost_verdict authority error found]
    cases judged : validateTarget target authority with
    | error error =>
      rw [rulePhases_target_verdict target authority error judged]
      rfl
    | ok _ => rfl
  | ok host =>
    rw [rulePhases_target target found]
    refine bind_congr_ok fun _ _ => ?_
    simp only [bind_ok]
    cases clean : isSanitized headers with
    | false => rfl
    | true =>
      simp only [isSanitized,Bool.and_eq_true] at clean
      refine bind_congr_ok fun _ _ => bind_congr_ok fun _ _ => bind_congr_ok fun _ _ => ?_
      rw [rulePhases_size clean.1.2 method target authority host framing forwarding rfl,rulePhases_bytes clean.1.2,boundedHead]
      split <;> rfl

end RulePhases

section ComposableTable
open CanonicalHeadComposableTable

theorem composableTable_rejects (name : List UInt8) : (inputFieldDecision name == .invalid) = isForbidden name := by
  have apart := @forbidden_unreplaced name
  rw [composableTable_decision]
  cases replaced : isReplaced name <;> cases forbidden : isForbidden name <;> simp_all

theorem composableTable_forwards {headers : SanitizedHeaders} (clean : headers.fields.all isEndToEnd) :
    ∀ field ∈ headers.fields, (inputFieldDecision field.name == .forward) = !isReplaced field.name := by
  intro field member
  have allowed := List.all_eq_true.mp clean field member
  simp only [isEndToEnd,Bool.and_eq_true,Bool.not_eq_true'] at allowed
  rw [composableTable_decision,allowed.2]
  cases isReplaced field.name <;> rfl

theorem composableTable_name : validCanonicalName = isCanonicalName := funext canonicalName_counted

theorem composableTable_fields (headers : SanitizedHeaders) :
    EndToEndFields.new headers = ensure (isSanitized headers) >>= fun _ => .ok headers := by
  unfold EndToEndFields.new isSanitized
  simp only [composableTable_name,field_refused _ _ (composableTable_rejects _)]
  rw [← List.not_all_eq_any_not]
  cases headers.fields.all isEndToEnd <;> by_cases few : headers.fields.length ≤ fieldLimit <;>
    simp [few,ensure,Nat.not_lt.mpr,Nat.not_le.mp]

theorem composableTable_method (method : List UInt8) :
    CanonicalMethod.new method = ensure (isMethod method) >>= fun _ => .ok method := by
  unfold CanonicalMethod.new isMethod
  rw [positive_length,Bool.and_assoc _ (method.all isTchar),← all_lowerToken,ensure_then]

theorem composableTable_target (target : NormalizedTarget) (endpoint : Endpoint) :
    OriginTarget.new target endpoint = plainJudge.target target endpoint >>= fun _ => .ok target.pathAndQuery := by
  unfold OriginTarget.new plainJudge
  rw [composableTable_dns]
  simp only [bind_assoc]

theorem composableTable_forwarding (forwarding : ForwardingResult) : ForwardingValues.new forwarding =
    ensure ((forwardingValues forwarding).all validForwardingValue) >>= fun _ => .ok (forwardingValues forwarding) := by
  unfold ForwardingValues.new
  rw [← List.not_all_eq_any_not]
  cases (forwardingValues forwarding).all validForwardingValue <;> rfl

def framingLine : BodyFraming → FramingLine
  | .none => .absent
  | .contentLength value => .length value
  | .chunked => .chunked

theorem composableTable_framing (framing : BodyFraming) :
    FramingLine.new framing = ensure (isFramed framing) >>= fun _ => .ok (framingLine framing) := by
  cases framing with
  | none => rfl
  | contentLength value =>
    rw [ensure_then]
    by_cases short : value ≤ bodyLimit <;> simp [FramingLine.new,isFramed,framingLine,short]
  | chunked => rfl

theorem appendAuthority_text (output : List UInt8) (authority : Endpoint) :
    appendAuthority output authority = output ++ renderEndpoint authority := by
  obtain ⟨host,port⟩ := authority
  unfold appendAuthority renderEndpoint renderHost
  cases host <;> cases port <;> simp

theorem renderedLen_text (authority : Endpoint) : renderedLen authority = (renderEndpoint authority).length := by
  obtain ⟨host,port⟩ := authority
  rw [renderEndpoint_length]
  unfold renderedLen hostLength
  cases host <;> cases port <;> simp <;> omega

/-- The text of a line as the visitor that appends writes it. -/
def lineText : WireLine → List UInt8 := WireLine.appendTo []

theorem appendTo_text (output : List UInt8) (line : WireLine) : line.appendTo output = output ++ lineText line := by
  cases line with
  | request method target => simp [lineText,WireLine.appendTo]
  | host authority => simp [lineText,WireLine.appendTo,appendAuthority_text]
  | bytes name value => simp [lineText,WireLine.appendTo,appendField]
  | decimal name value => simp [lineText,WireLine.appendTo]
  | empty => simp [lineText,WireLine.appendTo]

theorem encodedLen_text (line : WireLine) : line.encodedLen = (lineText line).length := by
  obtain ⟨version,host,whole,-,-,-⟩ := text_lengths
  have colon : (ascii ": ").length = 2 := rfl
  have ending : (ascii "\r\n").length = 2 := rfl
  cases line with
  | request method target =>
    simp [lineText,WireLine.appendTo,WireLine.encodedLen]
    omega
  | host authority =>
    simp [lineText,WireLine.appendTo,WireLine.encodedLen,appendAuthority_text,renderedLen_text,host,whole,ending]
    omega
  | bytes name value =>
    simp [lineText,WireLine.appendTo,WireLine.encodedLen,appendField,colon,ending]
    omega
  | decimal name value =>
    simp [lineText,WireLine.appendTo,WireLine.encodedLen,colon,ending]
    omega
  | empty => rfl

theorem append_lines (lines : List WireLine) (output : List UInt8) :
    lines.foldl WireLine.appendTo output = output ++ lines.flatMap lineText := by
  induction lines generalizing output with
  | nil => exact (List.append_nil output).symm
  | cons line lines ih => rw [List.foldl_cons,ih,appendTo_text,List.flatMap_cons,List.append_assoc]

theorem measure_lines (lines : List WireLine) (total : Nat) :
    lines.foldl (fun total line => total + line.encodedLen) total = total + (lines.flatMap lineText).length := by
  induction lines generalizing total with
  | nil => rfl
  | cons line lines ih =>
    rw [List.foldl_cons,ih,encodedLen_text,List.flatMap_cons,List.length_append]
    omega

theorem bytes_text (fields : List HeaderField) :
    (fields.map fun field => WireLine.bytes field.name field.value).flatMap lineText = wire (fields.map fieldLine) := by
  induction fields with
  | nil => rfl
  | cons field fields ih =>
    rw [List.map_cons,List.flatMap_cons,ih,List.map_cons,← List.singleton_append,wire_append]
    exact congrArg (· ++ _) ((appendField_wire [] field.name field.value).trans (List.nil_append _))

theorem forwarded_text (forwarding : ForwardingResult) :
    ((forwardingNames.zip (forwardingValues forwarding)).map fun (name,value) => WireLine.bytes name value).flatMap lineText =
      wire ((forwardingFields forwarding).map fieldLine) := bytes_text (forwardingFields forwarding)

theorem composableTable_lines {headers : SanitizedHeaders} (clean : headers.fields.all isEndToEnd) (method : List UInt8)
    (target : NormalizedTarget) (endpoint : Endpoint) (framing : BodyFraming) (forwarding : ForwardingResult) :
    (ValidatedHead.visitLines ⟨method,target.pathAndQuery,endpoint,headers,forwardingValues forwarding,framingLine framing⟩).flatMap
      lineText = wireHead (requestLine method target.pathAndQuery) (headFields endpoint headers framing forwarding) := by
  have opened : lineText (.request method target.pathAndQuery) = requestLine method target.pathAndQuery ++ [0x0d,0x0a] := by
    have version : ascii " HTTP/1.1\r\n" = ascii " HTTP/1.1" ++ [0x0d,0x0a] := rfl
    simp [lineText,WireLine.appendTo,requestLine,version]
  have host : lineText (.host endpoint) = wire [fieldLine ⟨ascii "Host",renderEndpoint endpoint⟩] := by
    simp [lineText,WireLine.appendTo,appendAuthority_text,wire,fieldLine,text_host,text_crlf]
  have kept : headers.fields.filter (fun field => inputFieldDecision field.name == .forward) = keptFields headers :=
    List.filter_congr (composableTable_forwards clean)
  have framed : (framingLine framing).lines.flatMap lineText = wire ((framingFields framing).map fieldLine) := by
    cases framing with
    | none => rfl
    | contentLength value =>
      simp [framingLine,FramingLine.lines,framingFields,lineText,WireLine.appendTo,wire,fieldLine,text_colon,text_crlf]
    | chunked => rfl
  have closing : [WireLine.bytes (ascii "Connection") (ascii "close"),.empty].flatMap lineText =
      ascii "Connection: close\r\n\r\n" := by decide
  unfold ValidatedHead.visitLines
  dsimp only
  rw [kept,List.flatMap_append,List.flatMap_append,List.flatMap_append,List.flatMap_cons,List.flatMap_cons,bytes_text,forwarded_text,
    framed,closing,opened,host,wireHead_parts]
  simp only [List.append_assoc]

theorem composableTable_construct : constructCanonicalUpstreamHead = construct plainJudge := by
  funext method target authority headers framing forwarding
  unfold constructCanonicalUpstreamHead construct ValidatedHead.new CanonicalAuthority.new
  rw [composableTable_method,composableTable_fields,composableTable_forwarding,composableTable_framing,composableTable_dns]
  simp only [composableTable_target,bind_assoc,bind_ok]
  refine bind_congr_ok fun _ _ => ?_
  cases found : effectiveHost checkDns authority with
  | error error => rfl
  | ok host =>
    simp only [Except.map,bind_ok]
    refine bind_congr_ok fun _ _ => ?_
    simp only [ensure_then]
    by_cases clean : isSanitized headers
    · rw [if_pos clean,if_pos clean]
      simp only [isSanitized,Bool.and_eq_true] at clean
      rw [append_lines,measure_lines,composableTable_lines clean.1.2 method target ⟨host,authority.port⟩ framing forwarding,
        List.nil_append,Nat.zero_add,show plainJudge.list = validForwardingValue from rfl]
      cases isFramed framing <;> cases (forwardingValues forwarding).all validForwardingValue <;> rfl
    · rw [if_neg clean,if_neg clean]

end ComposableTable
end Polyguard.CanonicalHead
