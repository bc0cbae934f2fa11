import Polyguard.Proxy.Delimited
import Polyguard.Forwarding.Agreement
import Polyguard.HopByHop.Agreement

/-! What a client says about forwarding reaches no upstream that does not trust it.
Two requests that differ in their forwarding fields alone are compared stage by stage. The
framing, the authority and the route read none of these fields, the forwarding values come
from the policy, and the head holds none of the client's own. -/
namespace Polyguard.Proxy
open Ascii Slices CanonicalHead AuthorityAgreement

section Opening

/-- A stream that begins with this request line and this header section. -/
structure Opens (stream : List UInt8) (request : RequestLine) (block : HeaderBlock) : Prop where
  line : RequestLineAgreement.Accepted stream request
  fields : HeaderAgreement.Accepted (stream.drop request.bytesConsumed) block

theorem opens_unique {stream : List UInt8} {request request' : RequestLine} {block block' : HeaderBlock}
    (opens : Opens stream request block) (opens' : Opens stream request' block') : request = request' ∧ block = block' := by
  have parser : RequestLineDirect.parseRequestLine ∈ requestLineImplementations := by simp [requestLineImplementations]
  have reader : HeaderTypedCursor.parseHeaderSection ∈ headerImplementations := by simp [headerImplementations]
  obtain rfl : request = request' := Except.ok.inj
    ((RequestLineAgreement.accepted_parse parser opens.line).symm.trans (RequestLineAgreement.accepted_parse parser opens'.line))
  have first := (HeaderAgreement.accepted_grammar _ _ _ reader).mpr opens.fields
  have second := (HeaderAgreement.accepted_grammar _ _ _ reader).mpr opens'.fields
  exact ⟨rfl,Except.ok.inj (first.symm.trans second)⟩

theorem line_extended {text : List UInt8} {request : RequestLine} (accepted : RequestLineAgreement.Accepted text request)
    (more : List UInt8) : RequestLineAgreement.Accepted (text ++ more) request := by
  obtain ⟨method,target,rest,rfl,facts⟩ := accepted
  exact ⟨method,target,rest ++ more,by simp,facts⟩

theorem section_extended {text : List UInt8} {block : HeaderBlock} (accepted : HeaderAgreement.Accepted text block)
    (more : List UInt8) : HeaderAgreement.Accepted (text ++ more) block := by
  obtain ⟨lines,rest,rfl,facts⟩ := accepted
  exact ⟨lines,rest ++ more,by simp,facts⟩

variable {agreement : Agreement} {registry : List Registered} {gateway : Gateway}

theorem parsedHead_opens (registers : Registers registry) (positive : 1 ≤ agreement.width)
    (answered : gateway.calls = agreement.calls registry) {head : List UInt8} {request : RequestLine} {headers : HeaderBlock}
    (parsed : ParsedHead gateway.calls head request headers) (more : List UInt8) : Opens (head ++ more) request headers := by
  have line := parsed.line
  have fields := parsed.fields
  have whole := parsed.whole
  rw [answered] at line fields
  obtain ⟨entry,listed,parse,parses,line⟩ := call_returned registers.distinct positive line
  obtain ⟨entry',listed',parse',parses',fields⟩ := call_returned registers.distinct positive fields
  refine ⟨line_extended (RequestLineAgreement.parse_accepted (registers.parseRequestLine entry listed parse parses) line) more,?_⟩
  rw [List.drop_append_of_le_length (by omega)]
  exact section_extended ((HeaderAgreement.accepted_grammar _ _ _ (registers.parseHeaderSection entry' listed' parse' parses')).mp fields)
    more

end Opening

section Fields

/-- The names by which a client speaks of those in front of it. -/
def isForwardingName (name : List UInt8) : Bool := name == ascii "forwarded" || (ascii "x-forwarded-").isPrefixOf name

def unforwarded (fields : List HeaderField) : List HeaderField := fields.filter fun field => !isForwardingName field.name

theorem unforwarded_filter {fields fields' : List HeaderField} (alike : unforwarded fields = unforwarded fields')
    {keeps : HeaderField → Bool} (apart : ∀ field, keeps field → isForwardingName field.name = false) :
    fields.filter keeps = fields'.filter keeps := by
  have inside (fields : List HeaderField) : fields.filter keeps = (unforwarded fields).filter keeps := by
    rw [unforwarded,List.filter_filter]
    apply List.filter_congr
    intro field _
    cases kept : keeps field with
    | false => rfl
    | true =>
      rw [apart field kept]
      rfl
  rw [inside fields,inside fields',alike]

theorem unforwarded_named {fields fields' : List HeaderField} (alike : unforwarded fields = unforwarded fields') {name : List UInt8}
    (other : isForwardingName name = false) : fields.filter (·.name == name) = fields'.filter (·.name == name) := by
  apply unforwarded_filter alike
  intro field same
  rw [beq_iff_eq.mp same,other]

theorem framing_alike {fields fields' : List HeaderField} (alike : unforwarded fields = unforwarded fields') (bytes bytes' : Nat) :
    BodyFramingAgreement.reference ⟨fields,bytes⟩ = BodyFramingAgreement.reference ⟨fields',bytes'⟩ := by
  have lengths : fields.filter (·.name == contentLengthName) = _ := unforwarded_named alike (by decide)
  have codings : fields.filter (·.name == transferEncodingName) = _ := unforwarded_named alike (by decide)
  unfold BodyFramingAgreement.reference BodyFramingAgreement.present BodyFramingAgreement.lengthFraming
    BodyFramingAgreement.codingFraming BodyFramingAgreement.rawMembers BodyFramingAgreement.named
  dsimp only
  rw [lengths,codings]

theorem authority_alike {fields fields' : List HeaderField} (alike : unforwarded fields = unforwarded fields')
    (authority : Option (List UInt8)) (fallback : Option Nat) : reference authority fallback fields = reference authority fallback fields' := by
  have listed : fields.filter (·.name == ascii "host") = _ := unforwarded_named alike (by decide)
  unfold reference hostText hosts
  rw [listed]

theorem nominated_alike {fields fields' : List HeaderField} (alike : unforwarded fields = unforwarded fields') (name : List UInt8) :
    HopByHopAgreement.Nominated fields name ↔ HopByHopAgreement.Nominated fields' name := by
  have listed : fields.filter (·.name == connectionName) = _ := unforwarded_named alike (by decide)
  have filtered (fields : List HeaderField) : HopByHopAgreement.Nominated fields name ↔
      ∃ field ∈ fields.filter (·.name == connectionName), ∃ raw ∈ field.value.splitOn 0x2c,
        name = HopByHopAgreement.lowered (trim isOws raw) := by
    simp [HopByHopAgreement.Nominated,List.mem_filter,and_assoc]
  rw [filtered,filtered,listed]

theorem removal_alike {headers headers' : HeaderBlock} (alike : unforwarded headers.fields = unforwarded headers'.fields)
    {sanitized sanitized' : SanitizedHeaders} (removed : HopByHopAgreement.reference headers = .ok sanitized)
    (removed' : HopByHopAgreement.reference headers' = .ok sanitized') : unforwarded sanitized.fields = unforwarded sanitized'.fields := by
  obtain ⟨-,rfl⟩ := (HopByHopAgreement.reference_ok _ _).mp removed
  obtain ⟨-,rfl⟩ := (HopByHopAgreement.reference_ok _ _).mp removed'
  dsimp only
  rw [HopByHopAgreement.survivors_eq,HopByHopAgreement.survivors_eq]
  unfold unforwarded at *
  rw [List.filter_comm,alike,List.filter_comm]
  simp only [nominated_alike alike]

/-- What a head keeps of the fields. -/
def retained (fields : List HeaderField) : List HeaderField := fields.filter fun field => !isReplaced field.name

theorem retained_alike {fields fields' : List HeaderField} (alike : unforwarded fields = unforwarded fields') :
    retained fields = retained fields' := by
  apply unforwarded_filter alike
  intro field kept
  rw [Bool.not_eq_true',isReplaced,Bool.or_eq_false_iff] at kept
  rw [isForwardingName,Bool.or_eq_false_iff]
  refine ⟨?_,kept.2⟩
  rw [beq_eq_false_iff_ne]
  intro same
  rw [same] at kept
  exact absurd kept.1 (by decide)

theorem applied_alike {context : TemplateContext} {method : List UInt8} {configured : List HeaderValueConfig}
    {fields fields' output output' : List HeaderField} (alike : retained fields = retained fields')
    (applied : applyRequestHeaders context method fields configured = .ok output)
    (applied' : applyRequestHeaders context method fields' configured = .ok output') : retained output = retained output' := by
  induction configured generalizing fields fields' with
  | nil =>
    cases applied
    cases applied'
    exact alike
  | cons header configured ih =>
    unfold applyRequestHeaders at applied applied'
    split at applied
    · rename_i skipped
      rw [if_pos skipped] at applied'
      exact ih alike applied applied'
    · rename_i taken
      rw [if_neg taken] at applied'
      obtain ⟨value,rendered,applied⟩ := Fallible.bind_iff.mp applied
      obtain ⟨value',rendered',applied'⟩ := Fallible.bind_iff.mp applied'
      obtain rfl := Except.ok.inj (rendered.symm.trans rendered')
      refine ih ?_ applied applied'
      unfold retained at *
      rw [List.filter_append,List.filter_append,List.filter_comm,alike,List.filter_comm]

end Fields

section Bodies
variable {calls : Calls}

theorem lineWire_unique {entry entry' rest rest' : List UInt8} (closed : LineWire entry) (closed' : LineWire entry')
    (same : entry ++ rest = entry' ++ rest') : entry = entry' := by
  rcases List.append_eq_append_iff.mp same with ⟨between,longer,-⟩ | ⟨between,longer,-⟩
  · exact closed'.first entry ⟨between,longer.symm⟩ closed.closed
  · exact (closed.first entry' ⟨between,longer.symm⟩ closed'.closed).symm

theorem chunkedWire_unique {headers headers' : HeaderBlock} {wire wire' body body' left left' : List UInt8}
    (chunked : ChunkedWire calls headers wire body) (chunked' : ChunkedWire calls headers' wire' body')
    (same : wire ++ left = wire' ++ left') : body = body' := by
  induction chunked generalizing wire' body' with
  | @last entry trailers metadata declared block closed agreed whole zero =>
    cases chunked' with
    | last => rfl
    | @chunk entry' data rest body metadata' closed' agreed' whole' sized some =>
      simp only [List.append_assoc] at same
      obtain rfl := lineWire_unique closed closed' same
      obtain rfl := Except.ok.inj (agreed.symm.trans agreed')
      exact absurd zero some
  | @chunk entry data rest body metadata closed agreed whole sized some follows ih =>
    cases chunked' with
    | @last entry' trailers metadata' declared block closed' agreed' whole' zero =>
      simp only [List.append_assoc] at same
      obtain rfl := lineWire_unique closed closed' same
      obtain rfl := Except.ok.inj (agreed.symm.trans agreed')
      exact absurd zero some
    | @chunk entry' data' rest' body' metadata' closed' agreed' whole' sized' some' follows' =>
      simp only [List.append_assoc] at same
      obtain rfl := lineWire_unique closed closed' same
      obtain rfl := Except.ok.inj (agreed.symm.trans agreed')
      obtain ⟨rfl,later⟩ := List.append_inj (List.append_cancel_left same) (sized.trans sized'.symm)
      rw [ih follows' (List.append_cancel_left later)]

theorem framedBody_unique {headers headers' : HeaderBlock} {framing : BodyFraming} {wire wire' body body' left left' : List UInt8}
    (framed : FramedBody calls headers framing wire body) (framed' : FramedBody calls headers' framing wire' body')
    (same : wire ++ left = wire' ++ left') : body = body' := by
  cases framing with
  | none => exact framed.2.trans framed'.2.symm
  | contentLength length =>
    obtain ⟨rfl,sized⟩ := framed
    obtain ⟨rfl,sized'⟩ := framed'
    exact (List.append_inj same (sized.trans sized'.symm)).1
  | chunked => exact chunkedWire_unique framed framed' same

end Bodies

section Requests
variable {agreement : Agreement} {registry : List Registered} {gateway : Gateway} {client : Client} {admitted admitted' : Admitted}

/-- Two admitted requests that differ in their forwarding fields alone. -/
structure Alike (admitted admitted' : Admitted) : Prop where
  request : admitted.request = admitted'.request
  fields : unforwarded admitted.headers.fields = unforwarded admitted'.headers.fields

/-- Everything that the upstream's request is built from is the same but for the fields that a head replaces. -/
structure SameParts (admitted admitted' : Admitted) : Prop where
  framing : admitted.framing = admitted'.framing
  target : admitted.target = admitted'.target
  authority : admitted.authority = admitted'.authority
  sanitized : retained admitted.sanitized.fields = retained admitted'.sanitized.fields
  route : admitted.route = admitted'.route
  forwarding : admitted.forwarding = admitted'.forwarding
  context : admitted.context = admitted'.context

theorem untrusted_output (registers : Registers registry) (positive : 1 ≤ agreement.width)
    (answered : gateway.calls = agreement.calls registry) (untrusted : gateway.trustForwardingHeaders = false)
    (admission : Admission gateway client admitted) : ForwardingAgreement.outputOf admitted.forwarding =
      fun slot => ForwardingAgreement.joined none
        (ForwardingAgreement.additions client.address (forwardingPolicy gateway client admitted.authority) slot) := by
  have reconciled := admission_reconciled registers positive answered admission
  have served := (ForwardingAgreement.forwardingPolicy_for gateway client admitted.authority).served reconciled
  have applied := admission.forwarded
  rw [answered] at applied
  obtain ⟨entry,listed,apply',applies,returned⟩ := call_returned registers.distinct positive applied
  have registered := registers.applyForwardingPolicy entry listed apply' applies
  rw [← ForwardingAgreement.registered_lookups] at registered
  obtain ⟨pair,among,rfl⟩ := List.mem_map.mp registered
  have output := (ForwardingAgreement.lookup_appends served admitted.headers among).output _ returned
  funext slot
  rw [output slot,ForwardingAgreement.previous]
  rw [show (forwardingPolicy gateway client admitted.authority).trustIncoming = false from untrusted,if_neg Bool.false_ne_true]

theorem output_injective {result result' : ForwardingResult}
    (same : ForwardingAgreement.outputOf result = ForwardingAgreement.outputOf result') : result = result' := by
  obtain ⟨forwarded,client,proto,host⟩ := result
  obtain ⟨forwarded',client',proto',host'⟩ := result'
  have first : forwarded = forwarded' := congrFun same 0
  have second : client = client' := congrFun same 1
  have third : proto = proto' := congrFun same 2
  have fourth : host = host' := congrFun same 3
  rw [first,second,third,fourth]

section Stages
variable (registers : Registers registry) (positive : 1 ≤ agreement.width) (answered : gateway.calls = agreement.calls registry)
include registers positive answered

theorem admission_framing (admission : Admission gateway client admitted) :
    BodyFramingAgreement.reference admitted.headers = .ok admitted.framing := by
  have framed := admission.framed
  rw [answered] at framed
  obtain ⟨entry,listed,determine,determines,returned⟩ := call_returned registers.distinct positive framed
  rw [← BodyFramingAgreement.refines_reference _ (registers.determineBodyFraming entry listed determine determines admitted.request)]
  exact returned

theorem admission_removal (admission : Admission gateway client admitted) :
    ∃ sanitized, HopByHopAgreement.reference admitted.headers = .ok sanitized ∧ admitted.sanitized = withoutExpect sanitized := by
  obtain ⟨sanitized,removed,same⟩ := admission.removed
  rw [answered] at removed
  obtain ⟨entry,listed,remove,removes,returned⟩ := call_returned registers.distinct positive removed
  refine ⟨sanitized,?_,same⟩
  rw [← HopByHopAgreement.refines_reference _ (registers.removeHopByHopHeaders entry listed remove removes)]
  exact returned

theorem admission_authority (admission : Admission gateway client admitted) {authority : Option (List UInt8)} {fallback : Option Nat}
    (shape : Shape admitted.target authority fallback) :
    reference authority fallback admitted.headers.fields = .ok admitted.authority := by
  have fields := admission.parsed.fields
  have reconciled := admission.reconciled
  rw [answered] at fields reconciled
  obtain ⟨entry,listed,parse,parses,parsed⟩ := call_returned registers.distinct positive fields
  obtain ⟨entry',listed',reconcile,reconciles,returned⟩ := call_returned registers.distinct positive reconciled
  exact reconciled_reference (registers.reconcileAuthority entry' listed' reconcile reconciles) shape
    (parsed_canonical (registers.parseHeaderSection entry listed parse parses) parsed) returned

theorem admission_shaped (admission : Admission gateway client admitted) : Shaped admitted.target := by
  have normalized := admission.normalized
  rw [answered] at normalized
  obtain ⟨entry,listed,normalize,normalizes,returned⟩ := call_returned registers.distinct positive normalized
  exact normalized_shaped (registers.normalizeRequestTarget entry listed normalize normalizes) returned

/-- The stages in front of the action make the same of alike requests when the forwarding fields are not trusted. -/
theorem alike_parts (untrusted : gateway.trustForwardingHeaders = false) (admission : Admission gateway client admitted)
    (admission' : Admission gateway client admitted') (alike : Alike admitted admitted') : SameParts admitted admitted' := by
  have target : admitted.target = admitted'.target := by
    have first := admission.normalized
    rw [alike.request] at first
    exact Except.ok.inj (first.symm.trans admission'.normalized)
  have framing : admitted.framing = admitted'.framing := by
    have first := admission_framing registers positive answered admission
    rw [show admitted.headers = ⟨admitted.headers.fields,admitted.headers.bytesConsumed⟩ from rfl,framing_alike alike.fields _
      admitted'.headers.bytesConsumed] at first
    exact Except.ok.inj (first.symm.trans (admission_framing registers positive answered admission'))
  have authority : admitted.authority = admitted'.authority := by
    obtain ⟨named,fallback,shape⟩ := admission_shaped registers positive answered admission
    have first := admission_authority registers positive answered admission shape
    rw [authority_alike alike.fields] at first
    exact Except.ok.inj (first.symm.trans (admission_authority registers positive answered admission' (target ▸ shape)))
  have sanitized : retained admitted.sanitized.fields = retained admitted'.sanitized.fields := by
    obtain ⟨left,removed,same⟩ := admission_removal registers positive answered admission
    obtain ⟨right,removed',same'⟩ := admission_removal registers positive answered admission'
    have kept := retained_alike (removal_alike alike.fields removed removed')
    rw [same,same']
    unfold withoutExpect retained at *
    dsimp only
    rw [List.filter_comm,kept,List.filter_comm]
  have forwarding : admitted.forwarding = admitted'.forwarding := by
    apply output_injective
    rw [untrusted_output registers positive answered untrusted admission,untrusted_output registers positive answered untrusted admission',
      authority]
  have route : admitted.route = admitted'.route := by
    have first := admission.selected
    rw [authority,target,alike.request] at first
    exact Except.ok.inj (first.symm.trans admission'.selected)
  refine ⟨framing,target,authority,sanitized,route,forwarding,?_⟩
  rw [admission.context,admission'.context,target,authority,forwarding]

end Stages

/-- A head is determined by its parts and by what it keeps of the client's fields, whichever implementation builds it. -/
theorem head_determined {construct construct'} (registered : construct ∈ canonicalHeadImplementations)
    (registered' : construct' ∈ canonicalHeadImplementations) {method : List UInt8} {target : NormalizedTarget}
    {authority : EffectiveAuthority} {headers headers' : SanitizedHeaders} {framing : BodyFraming} {forwarding : ForwardingResult}
    {head head' : CanonicalRequestHead} (kept : retained headers.fields = retained headers'.fields)
    (returned : construct method target authority headers framing forwarding = .ok head)
    (returned' : construct' method target authority headers' framing forwarding = .ok head') : head.bytes = head'.bytes := by
  obtain ⟨host,built⟩ := implementation_built registered returned
  obtain ⟨host',built'⟩ := implementation_built registered' returned'
  obtain rfl := Except.ok.inj (built.hosted.symm.trans built'.hosted)
  rw [built.bytes,built'.bytes]
  unfold headFields keptFields
  unfold retained at kept
  rw [kept]

end Requests

section Runs
variable {agreement : Agreement} {registry : List Registered} {gateway : Gateway} {client : Client}

/-- Requests that differ in their forwarding fields alone, by the streams that they open. -/
structure DifferInForwarding (stream stream' : List UInt8) (request : RequestLine) (block block' : HeaderBlock) : Prop where
  opens : Opens stream request block
  opens' : Opens stream' request block'
  fields : unforwarded block.fields = unforwarded block'.fields
  behind : stream.drop (request.bytesConsumed + block.bytesConsumed) = stream'.drop (request.bytesConsumed + block'.bytesConsumed)

theorem admission_stream (registers : Registers registry) (positive : 1 ≤ agreement.width)
    (answered : gateway.calls = agreement.calls registry) {admitted : Admitted} (admission : Admission gateway client admitted)
    {stream wire left : List UInt8} (split : stream = admitted.head ++ wire ++ left) {request : RequestLine} {block : HeaderBlock}
    (opens : Opens stream request block) : admitted.request = request ∧ admitted.headers = block ∧
      stream.drop (request.bytesConsumed + block.bytesConsumed) = wire ++ left := by
  have begun := parsedHead_opens registers positive answered admission.parsed (wire ++ left)
  rw [← List.append_assoc,← split] at begun
  obtain ⟨rfl,rfl⟩ := opens_unique begun opens
  refine ⟨rfl,rfl,?_⟩
  rw [admission.parsed.whole,split,List.append_assoc,List.drop_left]

/-- A proxy that does not trust them lets no forwarding field of a client change what its upstream is sent. -/
theorem forwarding_noninterference (registers : Registers registry) (positive : 1 ≤ agreement.width)
    (answered : gateway.calls = agreement.calls registry) (untrusted : gateway.trustForwardingHeaders = false)
    {around around' : Surroundings} {connection connection' : Connection} {request : RequestLine} {block block' : HeaderBlock}
    (differ : DifferInForwarding (Stream.bytes connection.client.stream) (Stream.bytes connection'.client.stream) request block block')
    {front back front' back' : List Event} {bytes bytes' : List UInt8}
    (written : (visit gateway client around connection).after.events = connection.events ++ (front ++ .forwarded bytes :: back))
    (written' : (visit gateway client around' connection').after.events = connection'.events ++ (front' ++ .forwarded bytes' :: back')) :
    ∃ whole, bytes = sentBytes around.upstream around.upstreamTakes whole ∧
      bytes' = sentBytes around'.upstream around'.upstreamTakes whole := by
  rw [visit_after] at written written'
  obtain ⟨admitted,upstream,replaces,hostHeader,canonical,wire,content,between,left,admission,action,prepared,split,-,-,sent⟩ :=
    (processRequest_writes written).1
  obtain ⟨admitted',upstream',replaces',hostHeader',canonical',wire',body',between',left',admission',action',prepared',split',-,-,sent'⟩ :=
    (processRequest_writes written').1
  obtain ⟨rfl,rfl,behind⟩ := admission_stream registers positive answered admission split differ.opens
  obtain ⟨same,rfl,behind'⟩ := admission_stream registers positive answered admission' split' differ.opens'
  have parts := alike_parts registers positive answered untrusted admission admission' ⟨same.symm,differ.fields⟩
  have body : content = body' := by
    have framed' := prepared'.framed
    rw [← parts.framing] at framed'
    exact framedBody_unique prepared.framed framed' (behind.symm.trans (differ.behind.trans behind'))
  obtain ⟨rfl,rfl,rfl⟩ : upstream = upstream' ∧ replaces = replaces' ∧ hostHeader = hostHeader' := by
    rw [parts.route,action'] at action
    cases action
    exact ⟨rfl,rfl,rfl⟩
  obtain ⟨fields,target,⟨applied,rewritten,agreed⟩⟩ := prepared.agreed
  obtain ⟨fields',target',⟨applied',rewritten',agreed'⟩⟩ := prepared'.agreed
  rw [parts.context,parts.route,← same] at applied
  rw [parts.target,parts.route,rewritten'] at rewritten
  obtain rfl := Except.ok.inj rewritten
  rw [answered,← same,parts.authority,body,parts.forwarding] at agreed
  rw [answered] at agreed'
  obtain ⟨entry,listed,construct,constructs,returned⟩ := call_returned registers.distinct positive agreed
  obtain ⟨entry',listed',construct',constructs',returned'⟩ := call_returned registers.distinct positive agreed'
  have head := head_determined (registers.constructCanonicalUpstreamHead entry listed construct constructs)
    (registers.constructCanonicalUpstreamHead entry' listed' construct' constructs')
    (applied_alike parts.sanitized applied applied') returned returned'
  rw [← head,← body] at sent'
  exact ⟨_,sent,sent'⟩

section Samples

/-- A field line by which the client claims to speak for another one. -/
def claimedLine : List UInt8 := ascii "x-forwarded-for: 192.0.2.9" ++ [0x0d,0x0a]

theorem claimed_prepared : Fallible.returns (fun _ => true) (preparation (soleConnection claimedLine)) := by
  have received := @soleRequest_received claimedLine 56 (by decide +kernel) (by decide) (by decide)
  simp only [preparation,admitRequest,parseHead,bind,EStateM.bind,soleSurroundings,Bool.not_true,Bool.false_eq_true,if_false,received]
  decide +kernel

def soleLine : RequestLine := ⟨ascii "get",ascii "/",.http11,16⟩

theorem sole_opens {more : List UInt8} {block : HeaderBlock}
    (line : RequestLineDirect.parseRequestLine (0x47 :: soleRequest more) = .ok soleLine)
    (fields : HeaderTypedCursor.parseHeaderSection ((0x47 :: soleRequest more).drop 16) = .ok block) :
    Opens (0x47 :: soleRequest more) soleLine block := by
  constructor
  · exact RequestLineAgreement.parse_accepted (by simp [requestLineImplementations]) line
  · exact (HeaderAgreement.accepted_grammar _ _ _ (by simp [headerImplementations])).mp fields

theorem claimed_differ : DifferInForwarding (0x47 :: soleRequest []) (0x47 :: soleRequest claimedLine) soleLine
    ⟨[⟨ascii "host",ascii "a.test"⟩],16⟩ ⟨[⟨ascii "host",ascii "a.test"⟩,⟨ascii "x-forwarded-for",ascii "192.0.2.9"⟩],44⟩ := by
  constructor
  · exact sole_opens (by decide +kernel) (by decide +kernel)
  · exact sole_opens (by decide +kernel) (by decide +kernel)
  · decide
  · decide

/-- A client that claims to speak for another one gets nothing else forwarded than it gets without the claim. -/
theorem forwarding_noninterference_sole : ∃ front bytes back front' back',
    (visit soleGateway soleClient soleSurroundings (soleConnection [])).after.events = front ++ .forwarded bytes :: back ∧
    (visit soleGateway soleClient soleSurroundings (soleConnection claimedLine)).after.events = front' ++ .forwarded bytes :: back' := by
  obtain ⟨front,bytes,back,written⟩ := preparation_forwarded soleRequest_prepared
  obtain ⟨front',bytes',back',written'⟩ := preparation_forwarded claimed_prepared
  obtain ⟨whole,rfl,rfl⟩ := @forwarding_noninterference soleAgreement [soleEntry] soleGateway soleClient soleEntry_registers (Nat.le_refl 1)
    rfl rfl soleSurroundings soleSurroundings (soleConnection []) (soleConnection claimedLine) _ _ _ claimed_differ front back front' back'
    bytes bytes' written written'
  exact ⟨_,_,_,_,_,written,written'⟩

end Samples

end Runs
end Polyguard.Proxy
