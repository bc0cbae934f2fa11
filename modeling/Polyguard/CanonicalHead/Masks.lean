import Polyguard.CanonicalHead.Lines
import Polyguard.Collections.Mask

/-! The implementations that choose the fields first and write them later.
The reverse fill and the compiled plan keep the chosen fields in a mask of bits. The one
writes from the end of a buffer of the final size, the other replays the plan. -/
namespace Polyguard.CanonicalHead
open Ascii Slices Decimal Address TargetBytes HeaderFraming

section Masks

theorem isForbidden_clean {headers : SanitizedHeaders} (clean : headers.fields.all isEndToEnd) :
    ∀ field ∈ headers.fields, isForbidden field.name = false := by
  intro field member
  have allowed := List.all_eq_true.mp clean field member
  simp only [isEndToEnd,Bool.and_eq_true,Bool.not_eq_true'] at allowed
  exact allowed.2

def isKept (field : HeaderField) : Bool := !isReplaced field.name

/-- A loop over checked fields, each of which changes the state in its own way. -/
theorem checked_fold {S A : Type} {round : S → A → Result S} {good : A → Bool} {step : S → A → S}
    (rounds : ∀ state entry, round state entry = if good entry then .ok (step state entry) else invariant)
    (entries : List A) (state : S) :
    entries.foldlM round state = if entries.all good then .ok (entries.foldl step state) else invariant := by
  induction entries generalizing state with
  | nil => rfl
  | cons entry entries ih =>
    rw [List.foldlM_cons,rounds,List.all_cons,List.foldl_cons]
    cases good entry with
    | false => rfl
    | true => exact ih (step state entry)

theorem all_indexed (fields : List HeaderField) (good : HeaderField → Bool) :
    fields.zipIdx.all (fun entry => good entry.1) = fields.all good := by
  conv_rhs => rw [← List.zipIdx_map_fst 0 fields,List.all_map]
  rfl

end Masks

section ReverseFill
open CanonicalHeadReverseFill

theorem reverseFill_name : canonicalName = isCanonicalName := funext canonicalName_counted

theorem retainField_round (retained : BitVec 128) (entry : HeaderField × Nat) :
    retainField retained entry = if isEndToEnd entry.1 then .ok (Mask.mark isKept retained entry) else invariant := by
  obtain ⟨field,index⟩ := entry
  have apart := @forbidden_unreplaced field.name
  have refused : (!canonicalName field.name || decide (field.value.length > fieldValueLimit) || !field.value.all isValueByte ||
      hasEdgeOws field.value || isForbidden field.name) = !isEndToEnd field := by
    rw [← field_refused field _ rfl,reverseFill_name,hasEdgeOws]
    simp only [Bool.or_assoc]
  have decided := reverseFill_decision field.name
  unfold retainField Mask.mark isKept
  dsimp only
  rw [decided]
  cases good : isEndToEnd field with
  | true =>
    rw [good] at refused
    simp only [Bool.not_true,Bool.or_eq_false_iff] at refused
    obtain ⟨⟨⟨⟨named,short⟩,valued⟩,edged⟩,allowed⟩ := refused
    rw [named,short,valued,edged,allowed]
    cases isReplaced field.name <;> rfl
  | false =>
    rw [good] at refused
    cases replaced : isReplaced field.name <;> cases forbidden : isForbidden field.name <;> simp_all

theorem reverseFill_fields (headers : SanitizedHeaders) : EndToEnd.validate headers =
    ensure (isSanitized headers) >>= fun _ => .ok ⟨headers,headers.fields.zipIdx.foldl (Mask.mark isKept) 0⟩ := by
  unfold EndToEnd.validate isSanitized
  rw [checked_fold retainField_round,all_indexed headers.fields isEndToEnd,reverseFill_name]
  by_cases few : headers.fields.length ≤ fieldLimit <;> cases headers.fields.all isEndToEnd <;>
    simp [few,ensure,Nat.not_lt.mpr,Nat.not_le.mp]

theorem isRetained_kept {headers : SanitizedHeaders} (few : headers.fields.length ≤ fieldLimit) :
    ∀ entry ∈ headers.fields.zipIdx,
      isRetained ⟨headers,headers.fields.zipIdx.foldl (Mask.mark isKept) 0⟩ entry.2 = isKept entry.1 :=
  Mask.marked_entries isKept few

theorem reverseFill_method (method : List UInt8) :
    Method.validate method = ensure (isMethod method) >>= fun _ => .ok method := by
  unfold Method.validate isMethod
  rw [ensure_then,positive_length,all_lowerToken,← Bool.and_assoc]
  cases (!method.isEmpty && decide (method.length ≤ methodLimit)) <;> cases method.all isTchar <;>
    cases method.any isAsciiUppercase <;> rfl

theorem reverseFill_target (target : NormalizedTarget) (endpoint : Endpoint) :
    OriginRoute.validate target endpoint = plainJudge.target target endpoint >>= fun _ => .ok target.pathAndQuery := by
  unfold OriginRoute.validate plainJudge
  rw [reverseFill_dns]
  simp only [bind_assoc]

theorem reverseFill_list : validForwarding = validForwardingValue := by
  funext value
  unfold validForwarding validForwardingValue hasEdgeOws
  by_cases printable : (value.all fun byte => 0x20 ≤ byte && byte ≤ 0x7e) = true
  · have plain : ∀ b ∈ value, isOws b = (b == 0x20) := by
      intro b member
      have shown := List.all_eq_true.mp printable b member
      revert shown
      exact forall_byte (p := fun b => (decide (0x20 ≤ b) && decide (b ≤ 0x7e)) = true → isOws b = (b == 0x20)) (by decide) b
    have front : value.head?.any isOws = startsWith 0x20 value := by
      unfold startsWith
      cases head : value.head? with
      | none => rfl
      | some b =>
        rw [Option.any_some,plain b (List.mem_of_mem_head? head)]
        rfl
    have back : value.getLast?.any isOws = endsWith 0x20 value := by
      unfold endsWith
      cases last : value.getLast? with
      | none => rfl
      | some b =>
        rw [Option.any_some,plain b (List.mem_of_mem_getLast? last)]
        rfl
    rw [front,back]
    simp only [Bool.not_or,Bool.and_assoc]
  · rw [Bool.not_eq_true] at printable
    simp [printable]

theorem reverseFill_forwarding (forwarding : ForwardingResult) : Forwarding.validate forwarding =
    ensure ((forwardingValues forwarding).all validForwardingValue) >>= fun _ => .ok (forwardingValues forwarding) := by
  unfold Forwarding.validate
  rw [reverseFill_list,← List.not_all_eq_any_not]
  cases (forwardingValues forwarding).all validForwardingValue <;> rfl

def fillFraming : BodyFraming → Framing
  | .none => .absent
  | .contentLength value => .length value
  | .chunked => .chunked

theorem reverseFill_framing (framing : BodyFraming) :
    Framing.validate framing = ensure (isFramed framing) >>= fun _ => .ok (fillFraming framing) := by
  cases framing with
  | none => rfl
  | contentLength value =>
    rw [ensure_then]
    by_cases short : value ≤ bodyLimit <;> simp [Framing.validate,isFramed,fillFraming,short]
  | chunked => rfl

/-- A buffer with room before the bytes that are written. -/
def opened (room : Nat) (written : List UInt8) : ReverseWriter := ⟨List.replicate room 0 ++ written,room⟩

/-- A step that writes a text before what is written, when there is room for it. -/
def Writes (step : ReverseWriter → ReverseWriter) (text : List UInt8) : Prop :=
  ∀ room written, step (opened (room + text.length) written) = opened room (text ++ written)

theorem Writes.prepend (value : List UInt8) : Writes (ReverseWriter.prepend value) value := by
  intro room written
  unfold ReverseWriter.prepend opened
  dsimp only
  rw [Nat.add_sub_cancel,List.replicate_add,← List.append_assoc,List.drop_left' (by simp),List.append_assoc,List.append_assoc,
    List.take_left' List.length_replicate,List.append_assoc]

theorem Writes.after {first second : ReverseWriter → ReverseWriter} {back front : List UInt8} (later : Writes first back)
    (earlier : Writes second front) : Writes (fun writer => second (first writer)) (front ++ back) := by
  intro room written
  have split : room + (front ++ back).length = room + front.length + back.length := by
    rw [List.length_append]
    omega
  dsimp only
  rw [split,later,earlier,List.append_assoc]

theorem Writes.idle : Writes (fun writer => writer) [] := fun _ _ => rfl

theorem Writes.field (name value : List UInt8) : Writes (ReverseWriter.prependField name value) (wire [fieldLine ⟨name,value⟩]) := by
  have text : wire [fieldLine ⟨name,value⟩] = name ++ (ascii ": " ++ (value ++ ascii "\r\n")) := by
    simp [wire,fieldLine,text_colon,text_crlf]
  rw [text]
  exact (((Writes.prepend (ascii "\r\n")).after (.prepend value)).after (.prepend (ascii ": "))).after (.prepend name)

theorem Writes.fields (fields : List HeaderField) :
    Writes (fun writer => fields.reverse.foldl (fun writer field => writer.prependField field.name field.value) writer)
      (wire (fields.map fieldLine)) := by
  induction fields with
  | nil => exact .idle
  | cons field fields ih =>
    have both := ih.after (Writes.field field.name field.value)
    rw [← wire_append] at both
    simp only [List.reverse_cons,List.foldl_append,List.foldl_cons,List.foldl_nil]
    exact both

theorem Writes.framing (framing : BodyFraming) :
    Writes (fun writer => match fillFraming framing with
      | .absent => writer
      | .length value => writer.prependDecimalField (ascii "Content-Length") value
      | .chunked => writer.prependField (ascii "Transfer-Encoding") (ascii "chunked")) (wire ((framingFields framing).map fieldLine)) := by
  cases framing with
  | none => exact .idle
  | contentLength value =>
    have text : wire ((framingFields (.contentLength value)).map fieldLine) =
        wire [fieldLine ⟨ascii "Content-Length",renderDecimal value⟩] := by
      rw [renderDecimal_eq]
      rfl
    rw [text]
    exact .field _ _
  | chunked => exact .field _ _

theorem Writes.port (port : Option Nat) : Writes (fun writer => match port with
    | some port => ((writer.prepend (ascii "\r\n")).prepend (renderDecimal port)).prepend (ascii ":")
    | none => writer.prepend (ascii "\r\n")) ((port.elim [] fun port => 0x3a :: decimal port) ++ ascii "\r\n") := by
  have ending := Writes.prepend (ascii "\r\n")
  cases port with
  | none => exact ending
  | some port =>
    have text : ((some port).elim [] fun port => 0x3a :: decimal port) ++ ascii "\r\n" =
        ascii ":" ++ (renderDecimal port ++ ascii "\r\n") := by
      rw [renderDecimal_eq]
      rfl
    rw [text]
    exact (ending.after (.prepend (renderDecimal port))).after (.prepend (ascii ":"))

theorem Writes.host (endpoint : Endpoint) :
    Writes (ReverseWriter.prependHost endpoint) (wire [fieldLine ⟨ascii "Host",renderEndpoint endpoint⟩]) := by
  obtain ⟨host,port⟩ := endpoint
  have ported := Writes.port port
  have text : wire [fieldLine ⟨ascii "Host",renderEndpoint ⟨host,port⟩⟩] =
      ascii "Host: " ++ (renderEndpoint ⟨host,port⟩ ++ ascii "\r\n") := by
    simp [wire,fieldLine,text_host,text_crlf]
  rw [text]
  cases host with
  | name value =>
    have parts : renderEndpoint ⟨.name value,port⟩ = value ++ port.elim [] fun port => 0x3a :: decimal port := by
      cases port <;> simp [renderEndpoint,renderHost]
    rw [parts,List.append_assoc]
    exact (ported.after (.prepend value)).after (.prepend (ascii "Host: "))
  | ipv6 value =>
    have parts : renderEndpoint ⟨.ipv6 value,port⟩ =
        ascii "[" ++ (value ++ (ascii "]" ++ port.elim [] fun port => 0x3a :: decimal port)) := by
      have left : ascii "[" = [0x5b] := rfl
      have right : ascii "]" = [0x5d] := rfl
      cases port <;> simp [renderEndpoint,renderHost,left,right]
    rw [parts,List.append_assoc,List.append_assoc,List.append_assoc]
    exact (((ported.after (.prepend (ascii "]"))).after (.prepend value)).after (.prepend (ascii "["))).after
      (.prepend (ascii "Host: "))

theorem Writes.request (method path : List UInt8) :
    Writes (ReverseWriter.prependRequest method path) (requestLine method path ++ [0x0d,0x0a]) := by
  have text : requestLine method path ++ [0x0d,0x0a] =
      method.map toAsciiUppercase ++ (ascii " " ++ (path ++ ascii " HTTP/1.1\r\n")) := by
    have version : ascii " HTTP/1.1\r\n" = ascii " HTTP/1.1" ++ [0x0d,0x0a] := rfl
    have space : ascii " " = [0x20] := rfl
    simp [requestLine,version,space]
  rw [text]
  exact (((Writes.prepend (ascii " HTTP/1.1\r\n")).after (.prepend path)).after (.prepend (ascii " "))).after
    (.prepend (method.map toAsciiUppercase))

theorem Writes.forwarded (forwarding : ForwardingResult) :
    Writes (fun writer => (forwardingNames.zip (forwardingValues forwarding)).reverse.foldl
      (fun writer (name,value) => writer.prependField name value) writer) (wire ((forwardingFields forwarding).map fieldLine)) :=
  Writes.fields (forwardingFields forwarding)

theorem Writes.kept {headers : SanitizedHeaders} (few : headers.fields.length ≤ fieldLimit) :
    Writes (fun writer => headers.fields.zipIdx.reverse.foldl (fun writer (field,index) =>
      if isRetained ⟨headers,headers.fields.zipIdx.foldl (Mask.mark isKept) 0⟩ index then writer.prependField field.name field.value
      else writer) writer) (wire ((keptFields headers).map fieldLine)) := by
  have same := fun entry (member : entry ∈ headers.fields.zipIdx.reverse) => isRetained_kept few entry (List.mem_reverse.mp member)
  simp only [Mask.marked_fold same fun writer field => ReverseWriter.prependField field.name field.value writer]
  rw [List.map_reverse,List.zipIdx_map_fst,List.filter_reverse]
  exact Writes.fields (keptFields headers)

theorem reverseFill_writes {headers : SanitizedHeaders} (few : headers.fields.length ≤ fieldLimit) (method path : List UInt8)
    (endpoint : Endpoint) (framing : BodyFraming) (forwarding : ForwardingResult) :
    Writes (filled ⟨method,path,endpoint,⟨headers,headers.fields.zipIdx.foldl (Mask.mark isKept) 0⟩,forwardingValues forwarding,
      fillFraming framing⟩) (wireHead (requestLine method path) (headFields endpoint headers framing forwarding)) := by
  have closing : ascii "Connection: close\r\n\r\n" = wire [fieldLine ⟨ascii "Connection",ascii "close"⟩] ++ ascii "\r\n" := by decide
  rw [wireHead_parts,closing]
  simp only [List.append_assoc]
  rw [← List.append_assoc (requestLine method path)]
  exact ((((((Writes.prepend (ascii "\r\n")).after (.field _ _)).after (.framing framing)).after (.forwarded forwarding)).after (.kept few)).after
    (.host endpoint)).after (.request method path)

theorem kept_length {headers : SanitizedHeaders} (few : headers.fields.length ≤ fieldLimit) :
    (headers.fields.zipIdx.filter fun (_,index) => isRetained ⟨headers,headers.fields.zipIdx.foldl (Mask.mark isKept) 0⟩ index).foldl
      (fun total (field,_) => total + fieldLineLen field.name.length field.value.length) 0 =
        (wire ((keptFields headers).map fieldLine)).length := by
  rw [List.foldl_filter]
  refine (Mask.marked_fold (isRetained_kept few) (fun total field => total + fieldLineLen field.name.length field.value.length)
    0).trans ?_
  rw [List.zipIdx_map_fst]
  exact (fieldLength_fold (keptFields headers) 0).trans (Nat.zero_add _)

theorem forwarded_counted (forwarding : ForwardingResult) : (forwardingNames.zip (forwardingValues forwarding)).foldl
    (fun total (name,value) => total + fieldLineLen name.length value.length) 0 =
      (wire ((forwardingFields forwarding).map fieldLine)).length :=
  (fieldLength_fold (forwardingFields forwarding) 0).trans (Nat.zero_add _)

theorem reverseFill_length {headers : SanitizedHeaders} (few : headers.fields.length ≤ fieldLimit) (method path : List UInt8)
    (endpoint : Endpoint) (framing : BodyFraming) (forwarding : ForwardingResult) :
    Validated.wireLen ⟨method,path,endpoint,⟨headers,headers.fields.zipIdx.foldl (Mask.mark isKept) 0⟩,forwardingValues forwarding,
      fillFraming framing⟩ = (wireHead (requestLine method path) (headFields endpoint headers framing forwarding)).length := by
  obtain ⟨version,-,host,length,chunked,closing⟩ := text_lengths
  have rendered : CanonicalHeadReverseFill.renderedLen endpoint = (renderEndpoint endpoint).length := by
    obtain ⟨host,port⟩ := endpoint
    rw [renderEndpoint_length]
    unfold CanonicalHeadReverseFill.renderedLen hostLength
    cases host <;> cases port <;> simp
  have framed : (fillFraming framing).lineLen = (wire ((framingFields framing).map fieldLine)).length := by
    cases framing with
    | none => rfl
    | contentLength value =>
      dsimp only [fillFraming,Framing.lineLen,framingFields]
      rw [decimalLen_eq,List.map_cons,List.map_nil,fieldLine_length]
      rfl
    | chunked => rfl
  unfold Validated.wireLen
  dsimp only
  rw [kept_length few,forwarded_counted,rendered,version,host,closing,wireHead_length]
  simp only [List.foldl_cons,List.foldl_nil]
  rw [← framed]
  omega

theorem reverseFill_construct : constructCanonicalUpstreamHead = construct plainJudge := by
  funext method target authority headers framing forwarding
  unfold constructCanonicalUpstreamHead construct Validated.fromModels Authority.validateEffective
  rw [reverseFill_method,reverseFill_fields,reverseFill_forwarding,reverseFill_framing,reverseFill_dns]
  simp only [reverseFill_target,bind_assoc,bind_ok]
  refine bind_congr_ok fun _ _ => ?_
  cases found : effectiveHost checkDns authority with
  | error error => rfl
  | ok host =>
    simp only [Except.map,bind_ok]
    refine bind_congr_ok fun _ _ => ?_
    simp only [ensure_then]
    by_cases clean : isSanitized headers
    · rw [if_pos clean,if_pos clean]
      simp only [isSanitized,Bool.and_eq_true,decide_eq_true_eq] at clean
      have few := clean.1.1
      have written := reverseFill_writes few method target.pathAndQuery ⟨host,authority.port⟩ framing forwarding 0 []
      rw [Nat.zero_add,List.append_nil] at written
      rw [reverseFill_length few,show ∀ size, ReverseWriter.new size = opened size [] from fun _ => by simp [ReverseWriter.new,opened],
        written,show plainJudge.list = validForwardingValue from rfl]
      cases isFramed framing <;> cases (forwardingValues forwarding).all validForwardingValue <;> rfl
    · rw [if_neg clean,if_neg clean]

end ReverseFill

section CompiledPlan
open CanonicalHeadCompiledPlan

theorem compiledPlan_escapes (queryAt : Nat) (bytes : List UInt8) (cursor : Nat) :
    CanonicalHeadCompiledPlan.canonicalEscapes queryAt cursor bytes = CanonicalHead.canonicalEscapes queryAt cursor bytes := by
  fun_induction CanonicalHead.canonicalEscapes queryAt cursor bytes with
  | case1 => rfl
  | case2 cursor byte bytes plain ih =>
    unfold CanonicalHeadCompiledPlan.canonicalEscapes
    rw [if_pos plain]
    exact ih
  | case3 cursor byte escaped high low rest odd =>
    rw [CanonicalHeadCompiledPlan.canonicalEscapes,if_neg escaped]
    simp only [List.any_cons,List.any_nil,(byteRule_misses _).2.2.1,Bool.or_false]
    rw [if_pos odd]
  | case4 cursor byte escaped high low rest digits decoded refused =>
    rw [CanonicalHeadCompiledPlan.canonicalEscapes,if_neg escaped]
    simp only [List.any_cons,List.any_nil,(byteRule_misses _).2.2.1,(byteRule_classes _).2.2.2.1,Bool.or_false]
    rw [if_neg digits,if_pos refused]
  | case5 cursor byte escaped high low rest digits decoded allowed ih =>
    rw [CanonicalHeadCompiledPlan.canonicalEscapes,if_neg escaped]
    simp only [List.any_cons,List.any_nil,(byteRule_misses _).2.2.1,(byteRule_classes _).2.2.2.1,Bool.or_false]
    rw [if_neg digits,if_neg allowed]
    exact ih
  | case6 cursor byte bytes escaped short =>
    unfold CanonicalHeadCompiledPlan.canonicalEscapes
    rw [if_neg escaped]
    split
    · rename_i high low rest
      exact absurd rfl (short high low rest)
    · rfl

theorem parsedAuthority_apart (left right : Endpoint) :
    ((parsedAuthority left).ipv6 != (parsedAuthority right).ipv6 || (parsedAuthority left).host != (parsedAuthority right).host) =
      decide (right.host ≠ left.host) := by
  obtain ⟨left,_⟩ := left
  obtain ⟨right,_⟩ := right
  cases left <;> cases right <;> simp [parsedAuthority,eq_comm,bne,beq_eq_decide]

theorem parsedAuthority_port (endpoint : Endpoint) : (parsedAuthority endpoint).port = endpoint.port := by
  obtain ⟨host,port⟩ := endpoint
  cases host <;> rfl

theorem compiledPlan_form (target : NormalizedTarget) (endpoint : Endpoint) :
    CanonicalHeadCompiledPlan.validateForm target (parsedAuthority endpoint) = CanonicalHead.validateForm checkDns target endpoint := by
  unfold CanonicalHeadCompiledPlan.validateForm CanonicalHead.validateForm CanonicalHeadCompiledPlan.parseTargetAuthority
  rw [compiledPlan_dns]
  rcases target with ⟨form,scheme,raw,path,routing⟩
  cases form with
  | origin => cases scheme <;> cases raw <;> rfl
  | absolute =>
    cases raw with
    | none => rfl
    | some raw =>
      dsimp only
      cases schemePort scheme with
      | none => rfl
      | some defaultPort =>
        cases CanonicalHead.parseTargetAuthority checkDns raw with
        | error error => rfl
        | ok source =>
          have apart := parsedAuthority_apart endpoint source
          have ports : (endpoint.port.getD defaultPort != source.port.getD defaultPort) =
              decide (source.port.getD defaultPort ≠ endpoint.port.getD defaultPort) := by
            simp [bne,beq_eq_decide,eq_comm]
          simp only [Except.map,bind_ok,parsedAuthority_port,Bool.or_assoc]
          rw [← Bool.or_assoc (_ != _),apart,ports]
          simp only [Bool.or_eq_true,decide_eq_true_eq]
  | authority => rfl
  | asterisk => rfl

theorem compiledPlan_target (target : NormalizedTarget) (endpoint : Endpoint) :
    validateTarget target (parsedAuthority endpoint) = plainJudge.target target endpoint := by
  unfold validateTarget plainJudge validatePath
  simp only [compiledPlan_form,compiledPlan_escapes,← List.not_all_eq_any_not]

theorem compiledPlan_name : CanonicalHeadCompiledPlan.canonicalName = isCanonicalName := by
  funext name
  unfold CanonicalHeadCompiledPlan.canonicalName isCanonicalName
  simp only [(byteRule_classes _).1,positive_length]
  rfl

def keptLength (total : Nat) (field : HeaderField) : Nat :=
  if isKept field then total + (field.name.length + 2 + field.value.length + 2) else total

theorem planField_round (plan : BitVec 128 × Nat) (entry : HeaderField × Nat) :
    planField plan entry = if isEndToEnd entry.1 then .ok (Mask.mark isKept plan.1 entry,keptLength plan.2 entry.1) else invariant := by
  obtain ⟨field,index⟩ := entry
  have decided := compiledPlan_rule field.name
  have misses : (field.value.any fun byte => byteRule byte &&& byteFieldValue == 0) = !field.value.all isValueByte := by
    rw [List.not_all_eq_any_not]
    simp only [(byteRule_misses _).2.1]
  have refused := field_refused field _ rfl
  unfold planField Mask.mark keptLength isKept
  dsimp only
  rw [compiledPlan_name,misses,decided]
  cases good : isEndToEnd field with
  | true =>
    rw [good] at refused
    obtain ⟨checked,allowed⟩ := Bool.or_eq_false_iff.mp refused
    rw [checked,allowed]
    cases isReplaced field.name <;> rfl
  | false =>
    have apart := @forbidden_unreplaced field.name
    rw [good] at refused
    cases replaced : isReplaced field.name <;> cases forbidden : isForbidden field.name <;> simp_all [CanonicalHeadCompiledPlan.discard,CanonicalHeadCompiledPlan.forbid]

theorem pair_fold {A B E : Type} (first : A → E → A) (second : B → E → B) (entries : List E) (pair : A × B) :
    entries.foldl (fun pair entry => (first pair.1 entry,second pair.2 entry)) pair =
      (entries.foldl first pair.1,entries.foldl second pair.2) := by
  induction entries generalizing pair with
  | nil => rfl
  | cons entry entries ih => exact ih _

theorem planField_fold (headers : SanitizedHeaders) (total : Nat) :
    headers.fields.zipIdx.foldlM planField (0,total) = if headers.fields.all isEndToEnd then
      .ok (headers.fields.zipIdx.foldl (Mask.mark isKept) 0,total + (wire ((keptFields headers).map fieldLine)).length)
    else invariant := by
  have lengths : headers.fields.zipIdx.foldl (fun total entry => keptLength total entry.1) total =
      total + (wire ((keptFields headers).map fieldLine)).length := by
    rw [← fieldLength_fold,← @kept_fold _ headers isKept (fun _ _ => rfl),← List.foldl_map (f := Prod.fst),List.zipIdx_map_fst]
    rfl
  rw [checked_fold planField_round,all_indexed headers.fields isEndToEnd,pair_fold (Mask.mark isKept)
    (fun total entry => keptLength total entry.1),lengths]

theorem planForwarding_fold (forwarding : ForwardingResult) (total : Nat) :
    (forwardingNames.zip (forwardingValues forwarding)).foldlM planForwarding total =
      if (forwardingValues forwarding).all validForwardingValue then
        .ok (total + (wire ((forwardingFields forwarding).map fieldLine)).length) else invariant := by
  have rounds (total : Nat) (line : List UInt8 × List UInt8) : planForwarding total line =
      if validForwardingValue line.2 then .ok (total + (line.1.length + 2 + line.2.length + 2)) else invariant := by
    unfold planForwarding
    cases validForwardingValue line.2 <;> rfl
  have lengths : (forwardingNames.zip (forwardingValues forwarding)).foldl
      (fun total line => total + (line.1.length + 2 + line.2.length + 2)) total =
        total + (wire ((forwardingFields forwarding).map fieldLine)).length := fieldLength_fold (forwardingFields forwarding) total
  rw [checked_fold rounds,lengths]
  rfl

theorem planFraming_length (total : Nat) (framing : BodyFraming) : planFraming total framing =
    if isFramed framing then .ok (total + (wire ((framingFields framing).map fieldLine)).length) else invariant := by
  obtain ⟨-,-,-,length,chunked,-⟩ := text_lengths
  rw [framing_length]
  cases framing with
  | none => rfl
  | contentLength value =>
    by_cases short : value ≤ bodyLimit <;> simp [planFraming,isFramed,short,length]
  | chunked => simp [planFraming,isFramed,chunked]

theorem compiledPlan_method (method : List UInt8) :
    (!(decide (1 ≤ method.length) && decide (method.length ≤ methodLimit)) ||
      method.any fun byte => byteRule byte &&& byteToken == 0 || isAsciiUppercase byte) = !isMethod method := by
  have lower : (method.any fun byte => byteRule byte &&& byteToken == 0 || isAsciiUppercase byte) = !method.all isLowerToken := by
    rw [List.not_all_eq_any_not]
    simp only [(byteRule_misses _).1,isLowerToken,Bool.not_and,Bool.not_not]
  rw [lower,positive_length,isMethod]
  simp only [Bool.not_and]

theorem compiledPlan_size (method path : List UInt8) (endpoint : Endpoint) (headers : SanitizedHeaders) (framing : BodyFraming)
    (forwarding : ForwardingResult) :
    method.length + 1 + path.length + (ascii " HTTP/1.1\r\n").length + ((ascii "Host: \r\n").length +
      ((parsedAuthority endpoint).host.length + (if (parsedAuthority endpoint).ipv6 then 1 else 0) * 2 +
        (parsedAuthority endpoint).port.elim 0 fun port => 1 + decimalLen port)) +
      (wire ((keptFields headers).map fieldLine)).length + (wire ((forwardingFields forwarding).map fieldLine)).length +
      (wire ((framingFields framing).map fieldLine)).length + (ascii "Connection: close\r\n\r\n").length =
        (wireHead (requestLine method path) (headFields endpoint headers framing forwarding)).length := by
  obtain ⟨version,-,host,-,-,closing⟩ := text_lengths
  have rendered : (parsedAuthority endpoint).host.length + (if (parsedAuthority endpoint).ipv6 then 1 else 0) * 2 +
      ((parsedAuthority endpoint).port.elim 0 fun port => 1 + decimalLen port) = (renderEndpoint endpoint).length := by
    obtain ⟨host,port⟩ := endpoint
    rw [renderEndpoint_length]
    unfold hostLength
    cases host <;> cases port <;> simp [parsedAuthority]
  rw [rendered,version,host,closing,wireHead_length]

theorem forwarded_bytes (forwarding : ForwardingResult) (bytes : List UInt8) :
    (forwardingNames.zip (forwardingValues forwarding)).foldl (fun bytes (name,value) => appendField bytes name value) bytes =
      bytes ++ wire ((forwardingFields forwarding).map fieldLine) :=
  appendField_fold (forwardingFields forwarding) bytes

theorem kept_bytes {headers : SanitizedHeaders} (few : headers.fields.length ≤ fieldLimit) (bytes : List UInt8) :
    headers.fields.zipIdx.foldl (fun bytes (field,index) =>
      if headers.fields.zipIdx.foldl (Mask.mark isKept) (0 : BitVec 128) &&& (1#128 <<< index) != 0 then
        appendField bytes field.name field.value else bytes) bytes = bytes ++ wire ((keptFields headers).map fieldLine) := by
  refine (Mask.marked_fold (isRetained_kept few) (fun bytes field => appendField bytes field.name field.value) bytes).trans ?_
  rw [List.zipIdx_map_fst]
  exact appendField_fold (keptFields headers) bytes

theorem compiledPlan_bytes {headers : SanitizedHeaders} (few : headers.fields.length ≤ fieldLimit) (method : List UInt8)
    (target : NormalizedTarget) (authority : EffectiveAuthority) (host : Host) (framing : BodyFraming)
    (forwarding : ForwardingResult) (size : Nat) :
    emitPlan ⟨headers.fields.zipIdx.foldl (Mask.mark isKept) 0,(parsedAuthority ⟨host,authority.port⟩).host,
      (parsedAuthority ⟨host,authority.port⟩).ipv6,size⟩ method target authority headers framing forwarding =
        wireHead (requestLine method target.pathAndQuery) (headFields ⟨host,authority.port⟩ headers framing forwarding) := by
  have framed (bytes : List UInt8) : appendFraming bytes framing = bytes ++ wire ((framingFields framing).map fieldLine) :=
    rulePhases_framing bytes framing
  have opening : ascii " HTTP/1.1\r\nHost: " = ascii " HTTP/1.1" ++ [0x0d,0x0a] ++ ascii "Host" ++ [0x3a,0x20] := rfl
  have start : requestLine method target.pathAndQuery ++ [0x0d,0x0a] ++ wire [fieldLine ⟨ascii "Host",renderEndpoint ⟨host,authority.port⟩⟩] =
      method.map toAsciiUppercase ++ [0x20] ++ target.pathAndQuery ++ ascii " HTTP/1.1\r\nHost: " ++
        renderEndpoint ⟨host,authority.port⟩ ++ ascii "\r\n" := by
    simp [requestLine,wire,fieldLine,opening,text_crlf]
  unfold emitPlan
  dsimp only
  rw [kept_bytes few,forwarded_bytes,framed,wireHead_parts,start]
  cases host <;> cases authority.port <;> simp [parsedAuthority,renderEndpoint,renderHost]

theorem compiledPlan_construct : constructCanonicalUpstreamHead = construct plainJudge := by
  funext method target authority headers framing forwarding
  unfold constructCanonicalUpstreamHead compileWirePlan construct parseEffectiveAuthority
  rw [compiledPlan_method,compiledPlan_dns,compiledPlan_name,show plainJudge.list = validForwardingValue from rfl]
  cases isMethod method with
  | false => rfl
  | true =>
    cases found : effectiveHost checkDns authority with
    | error error => rfl
    | ok host =>
      simp only [Except.map,bind_ok,ensure_then,compiledPlan_target]
      change (plainJudge.target target ⟨host,authority.port⟩ >>= _) >>= _ = plainJudge.target target ⟨host,authority.port⟩ >>= _
      rw [bind_assoc]
      refine bind_congr_ok fun _ _ => ?_
      simp only [planField_fold,planForwarding_fold,planFraming_length]
      have clean : isSanitized headers = (decide (headers.fields.length ≤ fieldLimit) && headers.fields.all isEndToEnd &&
        increasingNames isCanonicalName none headers.removedNames) := rfl
      by_cases few : headers.fields.length ≤ fieldLimit
      · rw [decide_eq_true few,Bool.true_and] at clean
        rw [if_neg (Nat.not_lt.mpr few),clean]
        cases headers.fields.all isEndToEnd with
        | false => rfl
        | true =>
          cases increasingNames isCanonicalName none headers.removedNames with
          | false => rfl
          | true =>
            cases (forwardingValues forwarding).all validForwardingValue with
            | false => cases isFramed framing <;> rfl
            | true =>
              cases isFramed framing with
              | false => rfl
              | true =>
                have size := compiledPlan_size method target.pathAndQuery ⟨host,authority.port⟩ headers framing forwarding
                simp only [parsedAuthority_port] at size
                simp only [if_true,bind_ok,Bool.true_and,parsedAuthority_port]
                rw [size,boundedHead]
                split
                · rfl
                · rw [bind_ok,compiledPlan_bytes few]
      · rw [decide_eq_false few] at clean
        rw [if_pos (Nat.lt_of_not_le few),clean]
        rfl

end CompiledPlan
end Polyguard.CanonicalHead
