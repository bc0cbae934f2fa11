import Polyguard.Proxy.Writes
import Polyguard.CanonicalHead.RoundTrip
import Polyguard.Forwarding.Implementations
import Polyguard.Proxy.Heads

/-! One request for the upstream.
The head that the registered implementations agree on is read back by the registered
parsers, with the framing of the body that follows it. An upstream that reads as they do
finds one request in what it is sent, and its body takes the rest. -/
namespace Polyguard.Proxy
open Ascii Slices CanonicalHead AuthorityAgreement

section Registries

/-- The entries of a registry implement what decides about an upstream's request by functions that the proxy registers. -/
structure Registers (registry : List Registered) : Prop where
  distinct : (registry.map (·.id)).Nodup
  parseRequestLine : ∀ entry ∈ registry, ∀ f ∈ entry.parseRequestLine, f ∈ requestLineImplementations
  parseHeaderSection : ∀ entry ∈ registry, ∀ f ∈ entry.parseHeaderSection, f ∈ headerImplementations
  determineBodyFraming : ∀ entry ∈ registry, ∀ f ∈ entry.determineBodyFraming, ∀ request, f request ∈ bodyFramingImplementations
  normalizeRequestTarget : ∀ entry ∈ registry, ∀ f ∈ entry.normalizeRequestTarget, f ∈ requestTargetImplementations
  reconcileAuthority : ∀ entry ∈ registry, ∀ f ∈ entry.reconcileAuthority, f ∈ authorityImplementations
  removeHopByHopHeaders : ∀ entry ∈ registry, ∀ f ∈ entry.removeHopByHopHeaders, f ∈ hopByHopImplementations
  constructCanonicalUpstreamHead : ∀ entry ∈ registry, ∀ f ∈ entry.constructCanonicalUpstreamHead, f ∈ canonicalHeadImplementations
  applyForwardingPolicy : ∀ entry ∈ registry, ∀ f ∈ entry.applyForwardingPolicy, f ∈ forwardingImplementations

variable {agreement : Agreement} {registry : List Registered} {gateway : Gateway} {client : Client} {admitted : Admitted}

theorem admission_reconciled (registers : Registers registry) (positive : 1 ≤ agreement.width)
    (answered : gateway.calls = agreement.calls registry) (admission : Admission gateway client admitted) :
    Reconciled admitted.authority := by
  have fields := admission.parsed.fields
  have normalized := admission.normalized
  have reconciled := admission.reconciled
  rw [answered] at fields normalized reconciled
  obtain ⟨first,listed,parse,parses,parsed⟩ := call_returned registers.distinct positive fields
  obtain ⟨second,listed',normalize,normalizes,normalized⟩ := call_returned registers.distinct positive normalized
  obtain ⟨third,listed'',reconcile,reconciles,reconciled⟩ := call_returned registers.distinct positive reconciled
  exact ⟨normalize,registers.normalizeRequestTarget second listed' normalize normalizes,_,_,normalized,parse,
    registers.parseHeaderSection first listed parse parses,_,_,parsed,reconcile,
    registers.reconcileAuthority third listed'' reconcile reconciles,reconciled⟩

theorem upstreamAuthority_canonical {authority : EffectiveAuthority} (reconciled : Reconciled authority)
    (hostHeader : Option (List UInt8)) : CanonicalHost (upstreamAuthority authority hostHeader).host ∧
      ∀ port ∈ (upstreamAuthority authority hostHeader).port, 1 ≤ port ∧ port ≤ 65535 := by
  obtain ⟨canonical,range⟩ := reconciled.canonical
  unfold upstreamAuthority
  split
  · exact ⟨canonical,by simp⟩
  · exact ⟨canonical,range⟩

theorem upstreamFraming_read (body : List UInt8) : readFraming (upstreamFraming body) = upstreamFraming body := by
  unfold upstreamFraming
  cases body with
  | nil => rfl
  | cons byte body => rfl

/-- A text that all parsers read as one request with this body, and with nothing behind it. -/
structure OneRequest (method path : List UInt8) (authority : EffectiveAuthority) (body text : List UInt8) (request : RequestLine)
    (block : HeaderBlock) : Prop where
  line : ∀ parse ∈ requestLineImplementations, parse text = .ok request
  asked : request.method = method ∧ request.target = path
  fields : ∀ parse ∈ headerImplementations, parse (text.drop request.bytesConsumed) = .ok block
  reconciled : ∀ reconcile ∈ authorityImplementations, ∀ routing, reconcile ⟨.origin,none,none,path,routing⟩ block = .ok authority
  framed : ∀ determine ∈ bodyFramingImplementations, determine block = .ok (upstreamFraming body)
  whole : text.drop (request.bytesConsumed + block.bytesConsumed) = body

theorem readsBack_one {method path : List UInt8} {authority : EffectiveAuthority} {headers : SanitizedHeaders}
    {forwarding : ForwardingResult} {head : CanonicalRequestHead} {body : List UInt8}
    (reads : ReadsBack method path authority headers (upstreamFraming body) forwarding head body) :
    ∃ request block, OneRequest method path authority body (head.bytes ++ body) request block := by
  refine ⟨_,_,reads.line,⟨rfl,rfl⟩,reads.fields,fun reconcile registered routing => reads.reconciled reconcile registered routing _,?_,?_⟩
  · intro determine registered
    rw [reads.framed determine registered,upstreamFraming_read]
  · have whole := reads.whole
    dsimp only
    rw [show (requestLine method path).length + 2 + (head.bytes.length - ((requestLine method path).length + 2)) = head.bytes.length by omega,
      List.drop_left]

/-- What was written for a request of this stream: the agreed head and the decoded body, and they are read back as one
request when the head fits the limits of the parsers. -/
def Delivered (gateway : Gateway) (client : Client) (stream bytes : List UInt8) : Prop :=
  ∃ admitted upstream replaces hostHeader fields target head wire body left,
    Admission gateway client admitted ∧ admitted.route.action = .proxy upstream replaces hostHeader ∧
    stream = admitted.head ++ wire ++ left ∧ FramedBody gateway.calls admitted.headers admitted.framing wire body ∧
    HeadAgreed gateway admitted replaces hostHeader fields target head body ∧
    bytes = head.bytes ++ body ∧ head.bytes.length ≤ headLimit ∧
    (WithinLimits admitted.request.method target.pathAndQuery head (receivedFields (upstreamAuthority admitted.authority hostHeader)
        { admitted.sanitized with fields } (upstreamFraming body) admitted.forwarding) →
      ∃ request block, OneRequest admitted.request.method target.pathAndQuery (upstreamAuthority admitted.authority hostHeader) body
        bytes request block)

theorem approved_delivered (registers : Registers registry) (positive : 1 ≤ agreement.width)
    (answered : gateway.calls = agreement.calls registry) {around : Surroundings} (accepts : around.upstream.accepts)
    {stream : List UInt8} {front : List Event} {bytes : List UInt8} (approved : Approved gateway client around stream front bytes) :
    Delivered gateway client stream bytes := by
  obtain ⟨admitted,upstream,replaces,hostHeader,head,wire,body,between,left,admission,action,prepared,split,-,-,sent⟩ := approved
  obtain ⟨fields,target,headed⟩ := prepared.agreed
  have agreed := headed.agreed
  rw [answered] at agreed
  obtain ⟨entry,listed,construct,constructs,returned⟩ := call_returned registers.distinct positive agreed
  have registered := registers.constructCanonicalUpstreamHead entry listed construct constructs
  obtain ⟨host,range⟩ := upstreamAuthority_canonical (admission_reconciled registers positive answered admission) hostHeader
  obtain ⟨_,built⟩ := implementation_built registered returned
  rw [sentBytes,if_pos accepts] at sent
  refine ⟨admitted,upstream,replaces,hostHeader,fields,target,head,wire,body,left,admission,action,split,prepared.framed,headed,sent,
    built.bounded,fun fits => ?_⟩
  rw [sent]
  exact readsBack_one (head_reads_back registered host range returned fits body)

end Registries

section Connections

/-- An upstream that takes all that a request writes to it is sent one request, with the body that its head announces. -/
theorem upstream_requests_delimited (agreement : Nat → Agreement) (registry : List Registered) (registers : Registers registry)
    (positive : ∀ i, 1 ≤ (agreement i).width) (gateway : Nat → Gateway)
    (answered : ∀ i, (gateway i).calls = (agreement i).calls registry) (client : Client) (around : Nat → Surroundings)
    (stream : List Read) (i : Fin (handleConnection gateway client around stream).length) (accepts : (around i).upstream.accepts) :
    ∃ entries, ((handleConnection gateway client around stream).get i).after.events =
        ((handleConnection gateway client around stream).get i).before.events ++ entries ∧
      ∀ bytes, .forwarded bytes ∈ entries → Delivered (gateway i) client
        (Stream.bytes ((handleConnection gateway client around stream).get i).before.client.stream) bytes := by
  obtain ⟨entries,added,written⟩ := @visit_writes (gateway i) client (around i) ((handleConnection gateway client around stream).get i).before
  rw [← handleConnection_visit] at added
  refine ⟨entries,added,fun bytes member => ?_⟩
  obtain ⟨front,back,parted⟩ := List.append_of_mem member
  exact approved_delivered registers (positive i) (answered i) accepts (written front bytes back parted).1

section Samples

/-- A registry with one entry, which implements every function. -/
def soleEntry : Registered where
  id := "sole"
  parseRequestLine := requestLineImplementations.head?
  parseHeaderSection := headerImplementations.head?
  determineBodyFraming := bodyFramingImplementations.head?.map fun f _ => f
  parseChunkMetadata := chunkImplementations.head?
  parseTrailerSection := trailerImplementations.head?
  normalizeRequestTarget := requestTargetImplementations.head?
  reconcileAuthority := authorityImplementations.head?
  removeHopByHopHeaders := hopByHopImplementations.head?
  constructCanonicalUpstreamHead := canonicalHeadImplementations.head?
  matchRoute := routeImplementations.head?
  applyForwardingPolicy := forwardingImplementations.head?
  decideUpgrade := upgradeImplementations.head?

theorem soleEntry_registers : Registers [soleEntry] where
  distinct := by simp
  parseRequestLine := by simp [soleEntry,requestLineImplementations]
  parseHeaderSection := by simp [soleEntry,headerImplementations]
  determineBodyFraming := by simp [soleEntry,bodyFramingImplementations]
  normalizeRequestTarget := by simp [soleEntry,requestTargetImplementations]
  reconcileAuthority := by simp [soleEntry,authorityImplementations]
  removeHopByHopHeaders := by simp [soleEntry,hopByHopImplementations]
  constructCanonicalUpstreamHead := by simp [soleEntry,canonicalHeadImplementations]
  applyForwardingPolicy := by simp [soleEntry,forwardingImplementations]

def soleRoute : RuntimeRoute :=
  ⟨actionId 0,ascii "a.test",ascii "/",.boundaryPrefix,[],[],16777216,[],[],[],.proxy (ascii "app") none none,0⟩

def soleAgreement : Agreement := ⟨1,[],fun _ => none⟩

def soleGateway : Gateway where
  trustForwardingHeaders := false
  maxResponseBodyBytes := 65536
  routes := [soleRoute]
  upstreams := [ascii "app"]
  calls := soleAgreement.calls [soleEntry]
  runtime := ⟨⟨false,1024,[]⟩,⟨65536,65536⟩,⟨fun _ => .error .incomplete,fun _ => .error .incomplete,fun _ => .error .incomplete,
    fun _ _ => .error .incomplete⟩,fun _ => none⟩

def soleClient : Client := ⟨.v4 [192,0,2,1] (by decide) (by decide),false,none⟩

/-- An upstream that takes the request and sends nothing. -/
def soleSurroundings : Surroundings where
  configures := true
  takesContinue := .whole
  takesResponse := .whole
  takesRejection := .whole
  takesTimeout := true
  peek := .blocks
  budgets := fun _ => ⟨0,67108864⟩
  upstream := ⟨true,true,true,[]⟩
  upstreamTakes := 0
  upstreamBudgets := fun _ => ⟨0,67108864⟩
  files := ⟨fun _ => none,fun _ => false,fun _ => false,fun _ => none⟩

/-- A request with further field lines, after its first byte. -/
def soleRequest (more : List UInt8) : List UInt8 :=
  ascii "ET / HTTP/1.1" ++ [0x0d,0x0a] ++ ascii "host: a.test" ++ [0x0d,0x0a] ++ more ++ [0x0d,0x0a]

def soleConnection (more : List UInt8) : Connection := ⟨.new [.data 0x47 (soleRequest more)] [],[]⟩

theorem soleRequest_received {more : List UInt8} {stop : Nat}
    (found : findSequence (0x47 :: soleRequest more) [0x0d,0x0a,0x0d,0x0a] = some stop)
    (whole : (soleRequest more).length = stop + 3) (short : stop < 2045) :
    receiveHead (maxRequestLineBytes + maxRequestHeaderBytes) (soleConnection more) = .ok (0x47 :: soleRequest more,[]) ⟨.new [] [],[]⟩ := by
  have within : stop + 4 ≤ maxRequestLineBytes + maxRequestHeaderBytes := Nat.le_trans (by omega) (show 2049 ≤ _ by decide)
  have read := @readHead_once 0x47 (soleRequest more) (maxRequestLineBytes + maxRequestHeaderBytes) stop (by omega) found within []
  rw [List.take_of_length_le (by simp [whole]),List.drop_eq_nil_of_le (by simp [whole])] at read
  unfold receiveHead
  rw [show (soleConnection more).client.stream = [.data 0x47 (soleRequest more)] from rfl,read]
  rfl

/-- Admission of a request and the preparation of what its upstream is sent. -/
def preparation : Serving (CanonicalRequestHead × List UInt8) :=
  admitRequest soleGateway soleClient soleSurroundings >>= fun admitted =>
    if admitted.route.action = .proxy (ascii "app") none none then
      prepareUpstream soleGateway soleClient soleSurroundings admitted (ascii "app") none none
    else throw .internal

theorem preparation_forwarded {connection : Connection} (prepared : Fallible.returns (fun _ => true) (preparation connection)) :
    ∃ front bytes back, (visit soleGateway soleClient soleSurroundings connection).after.events = front ++ .forwarded bytes :: back := by
  obtain ⟨⟨canonical,body⟩,ready,ran,-⟩ := Fallible.returns_iff.mp prepared
  obtain ⟨admitted,middle,admits,ran⟩ := serving_bind ran
  split at ran
  · rename_i action
    obtain ⟨back,written⟩ := processRequest_forwards admits action ran rfl
    rw [visit_after]
    exact ⟨_,_,back,written⟩
  · cases ran

theorem soleRequest_prepared : Fallible.returns (fun _ => true) (preparation (soleConnection [])) := by
  have received := @soleRequest_received [] 28 (by decide +kernel) (by decide) (by decide)
  simp only [preparation,admitRequest,parseHead,bind,EStateM.bind,soleSurroundings,Bool.not_true,Bool.false_eq_true,if_false,received]
  decide +kernel

/-- A request that is written to its upstream as one request. -/
theorem upstream_requests_delimited_sole : ∃ (i : Nat) (visited : Visit),
    (handleConnection (fun _ => soleGateway) soleClient (fun _ => soleSurroundings) [.data 0x47 (soleRequest [])])[i]? = some visited ∧
      ∃ bytes, Event.forwarded bytes ∈ visited.after.events ∧
        Delivered soleGateway soleClient (Stream.bytes visited.before.client.stream) bytes := by
  obtain ⟨rest,begins⟩ := handleLoop_head (fun _ => soleGateway) soleClient (fun _ => soleSurroundings) 999 0 (soleConnection [])
  have some : 0 < (handleConnection (fun _ => soleGateway) soleClient (fun _ => soleSurroundings) [.data 0x47 (soleRequest [])]).length := by
    change 0 < (handleLoop _ _ _ 999 0 (soleConnection [])).length
    rw [begins]
    exact Nat.succ_pos _
  have first : (handleConnection (fun _ => soleGateway) soleClient (fun _ => soleSurroundings) [.data 0x47 (soleRequest [])]).get ⟨0,some⟩ =
      visit soleGateway soleClient soleSurroundings (soleConnection []) := by
    have head := congrArg (·[0]?) begins
    exact Option.some.inj ((List.getElem?_eq_getElem some).symm.trans head)
  obtain ⟨entries,added,delivered⟩ := upstream_requests_delimited (fun _ => soleAgreement) [soleEntry] soleEntry_registers
    (fun _ => Nat.le_refl 1) (fun _ => soleGateway) (fun _ => rfl) soleClient (fun _ => soleSurroundings) [.data 0x47 (soleRequest [])]
    ⟨0,some⟩ rfl
  rw [first] at added
  have same : (visit soleGateway soleClient soleSurroundings (soleConnection [])).after.events = entries := by
    rw [added,visit_before]
    rfl
  obtain ⟨front,bytes,back,written⟩ := preparation_forwarded soleRequest_prepared
  refine ⟨0,_,List.getElem?_eq_getElem some,bytes,?_,delivered bytes ?_⟩
  · change _ ∈ ((handleConnection (fun _ => soleGateway) soleClient (fun _ => soleSurroundings) [.data 0x47 (soleRequest [])]).get
      ⟨0,some⟩).after.events
    rw [first,written]
    simp
  · rw [← same,written]
    simp

end Samples
end Connections
end Polyguard.Proxy
