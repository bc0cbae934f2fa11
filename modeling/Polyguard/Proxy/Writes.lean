import Polyguard.Collections.Logged
import Polyguard.Proxy.Answers

/-! Nothing is written to an upstream before everything was agreed.
Each stage in front of the write adds its calls to the record of the connection. A write
in the record was therefore made behind all of them, with the head that was agreed last
and with the decoded body. -/
namespace Polyguard.Proxy
open Ascii Slices

section Quiet

/-- An entry of the record that reaches no upstream. -/
def Event.quiet : Event → Prop
  | .forwarded _ => False
  | _ => True

/-- An entry that a request leaves when it goes on: a call that returned a value, or bytes for the client. -/
def Event.agreed : Event → Prop
  | .called _ returned => returned = true
  | .forwarded _ => False
  | .replied _ => True

/-- The program writes nothing to an upstream, and it returns only when its calls did. -/
abbrev Quiet {α : Type} (program : Serving α) : Prop := Adds Connection.events Event.agreed Event.quiet program

/-- An entry for a call that returned a value. -/
def Event.returned : Event → Prop
  | .called _ returned => returned = true
  | _ => False

/-- An entry for a call. -/
def Event.isCall : Event → Prop
  | .called _ _ => True
  | _ => False

/-- The program only makes calls, and it returns only when they did. -/
abbrev Calling {α : Type} (program : Serving α) : Prop := Adds Connection.events Event.returned Event.isCall program

theorem Event.returned_agreed (event : Event) (returned : event.returned) : event.agreed := by
  cases event with
  | called function value => exact returned
  | forwarded bytes => exact returned.elim
  | replied bytes => exact returned.elim

theorem Event.isCall_quiet (event : Event) (call : event.isCall) : event.quiet := by
  cases event with
  | called function value => trivial
  | forwarded bytes => exact call.elim
  | replied bytes => exact call.elim

theorem calling_quiet {α : Type} {program : Serving α} (calling : Calling program) : Quiet program :=
  calling.mono Event.returned_agreed Event.isCall_quiet

theorem record_adds {settled possible : Event → Prop} {event : Event} (first : settled event) (second : possible event) :
    Adds Connection.events settled possible (record event) := by
  intro connection
  refine ⟨[event],rfl,?_,fun value after ran => ?_⟩
  · simp [second]
  · simp [first]

theorem consult_calls {α : Type} (function : String) (outcome : Outcome α) : Calling (consult function outcome) := by
  intro connection
  refine ⟨[.called function outcome.isOk],?_,?_,fun value after ran => ?_⟩
  · cases outcome <;> rfl
  · simp [Event.isCall]
  · obtain ⟨same,-⟩ := consult_ok ran
    rw [same]
    simp [Event.returned,Except.isOk,Except.toBool]

theorem receive_calls {α : Type} (step : Reading α) : Calling (receive step) := by
  apply Adds.kept
  intro connection
  unfold receive
  cases step connection.client <;> rfl

theorem reply_quiet (takes : Delivery) (bytes : List UInt8) : Quiet (reply takes bytes) := by
  apply (record_adds trivial trivial).bind
  intro _
  cases takes with
  | whole => exact .pure _
  | torn count => exact .throw _

theorem receiveHead_calls (max : Nat) : Calling (receiveHead max) := by
  apply Adds.kept
  intro connection
  unfold receiveHead
  cases readHead connection.client.stream max with
  | mk result stream => cases result <;> rfl

theorem bufferRemainder_calls (remainder : List UInt8) : Calling (bufferRemainder remainder) := .kept fun _ => rfl

variable (gateway : Gateway) (client : Client) (around : Surroundings)

theorem parseHead_calls : Calling (parseHead gateway around) := by
  apply Adds.ite (.throw _)
  apply (receiveHead_calls _).bind
  intro ⟨head,remainder⟩
  apply (consult_calls _ _).bind
  intro request
  apply Adds.ite (.throw _)
  apply (consult_calls _ _).bind
  intro headers
  exact .ite (.throw _) (.pure _)

theorem selectRuntimeRoute_calls (authority : EffectiveAuthority) (target : NormalizedTarget) (method : List UInt8) :
    Calling (selectRuntimeRoute gateway client authority target method) := by
  apply (Adds.fromExcept _).bind
  intro selected
  apply (consult_calls _ _).bind
  intro guarded
  exact .ite (.throw _) (.pure _)

theorem admitRequest_calls : Calling (admitRequest gateway client around) := by
  apply (parseHead_calls gateway around).bind
  intro ⟨head,remainder,request,headers⟩
  apply (consult_calls _ _).bind
  intro framing
  apply (Adds.fromExcept _).bind
  intro expectContinue
  apply (consult_calls _ _).bind
  intro target
  apply (consult_calls _ _).bind
  intro authority
  apply Adds.ite (.throw _)
  apply (consult_calls _ _).bind
  intro sanitized
  apply (consult_calls _ _).bind
  intro upgrade
  apply Adds.ite (.throw _)
  apply (selectRuntimeRoute_calls gateway client _ _ _).bind
  intro route
  apply (Adds.fromExcept _).bind
  intro _
  apply Adds.ite (.throw _)
  apply (consult_calls _ _).bind
  intro forwarding
  exact .pure _

theorem answerLocally_quiet (admitted : Admitted) (response : Outcome (List UInt8)) : Quiet (answerLocally around admitted response) := by
  apply (Adds.fromExcept _).bind
  intro bytes
  apply (reply_quiet _ _).bind
  intro _
  exact .pure _

theorem finishRequestBody_calls (headers : HeaderBlock) : Calling (finishRequestBody gateway headers) := by
  apply (receive_calls _).bind
  intro wire
  apply (Adds.fromExcept _).bind
  intro declared
  apply (consult_calls _ _).bind
  intro trailers
  exact .ite (.throw _) (.pure _)

theorem readChunksLoop_calls (headers : HeaderBlock) (max rounds : Nat) : ∀ (decoded : List UInt8) (account : Account),
    Calling (readChunksLoop gateway headers max rounds decoded account) := by
  induction rounds with
  | zero => exact fun _ _ => .throw _
  | succ rounds ih =>
    intro decoded account
    apply (receive_calls _).bind
    intro wire
    apply (consult_calls _ _).bind
    intro metadata
    apply Adds.ite (.throw _)
    apply Adds.ite (.throw _)
    apply Adds.ite
    · apply (finishRequestBody_calls gateway headers).bind
      intro _
      exact .pure _
    · apply (Adds.fromExcept _).bind
      intro grown
      apply (receive_calls _).bind
      intro data
      apply (receive_calls _).bind
      intro terminator
      exact .ite (.throw _) (ih _ _)

theorem readRequestBody_calls (framing : BodyFraming) (headers : HeaderBlock) (max : Nat) :
    Calling (readRequestBody gateway around framing headers max) := by
  cases framing with
  | none =>
    apply (Adds.fromExcept _).bind
    intro _
    exact .pure _
  | contentLength length =>
    apply Adds.ite (.throw _)
    apply (Adds.fromExcept _).bind
    intro _
    exact receive_calls _
  | chunked =>
    apply (Adds.fromExcept _).bind
    intro account
    exact readChunksLoop_calls gateway headers max _ _ _

theorem writeContinue_quiet (admitted : Admitted) : Quiet (writeContinue around admitted) := .ite (reply_quiet _ _) (.pure _)

end Quiet

section Prepared
variable (gateway : Gateway) (client : Client) (around : Surroundings)

/-- The body of the request is read and the head towards the upstream is agreed. -/
def agreeUpstream (admitted : Admitted) (upstream : List UInt8) (replacePrefix hostHeader : Option (List UInt8)) :
    Serving (CanonicalRequestHead × List UInt8) := do
  let fields ← MonadExcept.ofExcept (applyRequestHeaders admitted.context admitted.request.method admitted.sanitized.fields
    admitted.route.requestHeaders)
  if !around.takesTimeout then throw .clientIo
  else
    bufferRemainder admitted.remainder
    let body ← readRequestBody gateway around admitted.framing admitted.headers admitted.route.maxRequestBodyBytes
    if ← receive (hasImmediateExtra client.tls around.peek) then throw (.protocol .ambiguousFraming)
    else if !gateway.upstreams.contains upstream then throw .internal
    else
      let target ← MonadExcept.ofExcept (rewriteTarget admitted.target admitted.route.path replacePrefix)
      let canonical ← consult "construct_canonical_upstream_head" (gateway.calls.constructCanonicalUpstreamHead
        admitted.request.method target (upstreamAuthority admitted.authority hostHeader) { admitted.sanitized with fields }
        (upstreamFraming body) admitted.forwarding)
      return (canonical,body)

/-- What the proxy action does before it turns to the upstream. -/
def prepareUpstream (admitted : Admitted) (upstream : List UInt8) (replacePrefix hostHeader : Option (List UInt8)) :
    Serving (CanonicalRequestHead × List UInt8) := do
  writeContinue around admitted
  agreeUpstream gateway client around admitted upstream replacePrefix hostHeader

/-- The rest of the proxy action: the exchange with the upstream and the response to the client. -/
def relayUpstream (admitted : Admitted) (prepared : CanonicalRequestHead × List UInt8) : Serving Bool := do
  let response ← sendUpstream gateway around admitted prepared.1.bytes prepared.2
  reply around.takesResponse (response.head ++ response.body)
  return clientAllowsKeepAlive admitted.headers

theorem bind_choice {ε σ α β : Type} {condition : Prop} [Decidable condition] (left right : EStateM ε σ α) (next : α → EStateM ε σ β) :
    ((if condition then left else right) >>= next) = if condition then left >>= next else right >>= next := by
  split <;> rfl

theorem forwardRequest_parts (admitted : Admitted) (upstream : List UInt8) (replacePrefix hostHeader : Option (List UInt8)) :
    forwardRequest gateway client around admitted upstream replacePrefix hostHeader =
      prepareUpstream gateway client around admitted upstream replacePrefix hostHeader >>= relayUpstream gateway around admitted := by
  unfold forwardRequest prepareUpstream agreeUpstream relayUpstream
  simp only [bind_assoc,bind_choice,pure_bind]
  rfl

theorem agreeUpstream_calls (admitted : Admitted) (upstream : List UInt8) (replaces hostHeader : Option (List UInt8)) :
    Calling (agreeUpstream gateway client around admitted upstream replaces hostHeader) := by
  apply (Adds.fromExcept _).bind
  intro fields
  apply Adds.ite (.throw _)
  apply (bufferRemainder_calls _).bind
  intro _
  apply (readRequestBody_calls gateway around _ _ _).bind
  intro body
  apply (receive_calls _).bind
  intro extra
  apply Adds.ite (.throw _)
  apply Adds.ite (.throw _)
  apply (Adds.fromExcept _).bind
  intro target
  apply (consult_calls _ _).bind
  intro canonical
  exact .pure _

theorem prepareUpstream_quiet (admitted : Admitted) (upstream : List UInt8) (replaces hostHeader : Option (List UInt8)) :
    Quiet (prepareUpstream gateway client around admitted upstream replaces hostHeader) :=
  (writeContinue_quiet around admitted).bind fun _ => calling_quiet (agreeUpstream_calls _ _ _ _ _ _ _)

end Prepared

section Spec
variable {gateway : Gateway} {client : Client} {around : Surroundings}

/-- The calls on the way to an admitted request, in their order. -/
def admissionCalls : List String :=
  ["parse_request_line","parse_header_section","determine_body_framing","normalize_request_target","reconcile_authority",
    "remove_hop_by_hop_headers","decide_upgrade","match_route","apply_forwarding_policy"]

/-- What the agreement set answered for an admitted request. -/
structure Admission (gateway : Gateway) (client : Client) (admitted : Admitted) : Prop where
  parsed : ParsedHead gateway.calls admitted.head admitted.request admitted.headers
  framed : gateway.calls.determineBodyFraming admitted.request admitted.headers = .ok admitted.framing
  normalized : gateway.calls.normalizeRequestTarget admitted.request = .ok admitted.target
  reconciled : gateway.calls.reconcileAuthority admitted.target admitted.headers = .ok admitted.authority
  removed : ∃ sanitized, gateway.calls.removeHopByHopHeaders admitted.headers = .ok sanitized ∧
    admitted.sanitized = withoutExpect sanitized
  plain : gateway.calls.decideUpgrade admitted.request admitted.headers admitted.framing = .ok .none
  selected : selectedRoute gateway.routes admitted.authority admitted.target admitted.request.method client.scheme =
    .ok admitted.route
  guarded : ∃ routed, gateway.calls.matchRoute admitted.authority admitted.target (guardRules admitted.authority admitted.route) =
    .ok routed ∧ routed.upstream = admitted.route.id
  forwarded : gateway.calls.applyForwardingPolicy (forwardingPolicy gateway client admitted.authority) admitted.headers =
    .ok admitted.forwarding
  context : admitted.context = templateContext client admitted.authority admitted.target admitted.forwarding

theorem parseHead_ok {connection after : Connection} {head remainder : List UInt8} {request : RequestLine} {headers : HeaderBlock}
    (ran : parseHead gateway around connection = .ok (head,remainder,request,headers) after) :
    after.events = connection.events ++ ["parse_request_line","parse_header_section"].map (.called · true) := by
  unfold parseHead at ran
  split at ran
  · cases ran
  · obtain ⟨⟨text,extra⟩,first,read,ran⟩ := serving_bind ran
    have same : first.events = connection.events := by
      unfold receiveHead at read
      generalize readHead connection.client.stream _ = found at read
      obtain ⟨result,stream⟩ := found
      cases result with
      | error fault => cases read
      | ok parts =>
        cases read
        rfl
    obtain ⟨line,second,parsed,ran⟩ := serving_bind ran
    obtain ⟨-,rfl⟩ := consult_ok parsed
    split at ran
    · cases ran
    · obtain ⟨block,third,parsed,ran⟩ := serving_bind ran
      obtain ⟨-,rfl⟩ := consult_ok parsed
      split at ran
      · cases ran
      · cases ran
        simp [same]

theorem admitRequest_ok {connection after : Connection} {admitted : Admitted}
    (ran : admitRequest gateway client around connection = .ok admitted after) :
    Admission gateway client admitted ∧ after.events = connection.events ++ admissionCalls.map (.called · true) := by
  obtain ⟨⟨head,remainder,request,headers⟩,first,parsed,ran⟩ := serving_bind ran
  obtain ⟨parts,-⟩ := parseHead_took parsed
  have called := parseHead_ok parsed
  obtain ⟨framing,second,framed,ran⟩ := serving_bind ran
  obtain ⟨framedAs,rfl⟩ := consult_ok framed
  obtain ⟨expects,third,expected,ran⟩ := serving_bind ran
  obtain ⟨-,rfl⟩ := serving_except expected
  obtain ⟨target,fourth,normalized,ran⟩ := serving_bind ran
  obtain ⟨normalizedAs,rfl⟩ := consult_ok normalized
  obtain ⟨authority,fifth,reconciled,ran⟩ := serving_bind ran
  obtain ⟨reconciledAs,rfl⟩ := consult_ok reconciled
  split at ran
  · cases ran
  · obtain ⟨sanitized,sixth,removed,ran⟩ := serving_bind ran
    obtain ⟨removedAs,rfl⟩ := consult_ok removed
    obtain ⟨upgrade,seventh,decided,ran⟩ := serving_bind ran
    obtain ⟨decidedAs,rfl⟩ := consult_ok decided
    split at ran
    · cases ran
    · rename_i plain
      obtain rfl := not_not.mp plain
      obtain ⟨route,eighth,selected,ran⟩ := serving_bind ran
      obtain ⟨chosen,_,found,selected⟩ := serving_bind selected
      obtain ⟨foundAs,rfl⟩ := serving_except found
      obtain ⟨routed,_,matched,selected⟩ := serving_bind selected
      obtain ⟨matchedAs,rfl⟩ := consult_ok matched
      split at selected
      · cases selected
      · rename_i agreed
        cases selected
        obtain ⟨_,ninth,limited,ran⟩ := serving_bind ran
        obtain ⟨-,rfl⟩ := serving_except limited
        split at ran
        · cases ran
        · obtain ⟨forwarding,tenth,applied,ran⟩ := serving_bind ran
          obtain ⟨appliedAs,rfl⟩ := consult_ok applied
          cases ran
          refine ⟨⟨parts,framedAs,normalizedAs,reconciledAs,⟨sanitized,removedAs,rfl⟩,decidedAs,foundAs,
            ⟨routed,matchedAs,not_not.mp agreed⟩,appliedAs,rfl⟩,?_⟩
          simp [called,admissionCalls]

/-- A head that was agreed, with the fields and the target that the route makes of the admitted ones. -/
structure HeadAgreed (gateway : Gateway) (admitted : Admitted) (replaces hostHeader : Option (List UInt8)) (fields : List HeaderField)
    (target : NormalizedTarget) (canonical : CanonicalRequestHead) (body : List UInt8) : Prop where
  applied : applyRequestHeaders admitted.context admitted.request.method admitted.sanitized.fields
    admitted.route.requestHeaders = .ok fields
  rewritten : rewriteTarget admitted.target admitted.route.path replaces = .ok target
  agreed : gateway.calls.constructCanonicalUpstreamHead admitted.request.method target
    (upstreamAuthority admitted.authority hostHeader) { admitted.sanitized with fields } (upstreamFraming body)
    admitted.forwarding = .ok canonical

/-- What was agreed before the write: the head out of the admitted parts, and the body off the wire. -/
structure Prepared (gateway : Gateway) (admitted : Admitted) (upstream : List UInt8) (replaces hostHeader : Option (List UInt8))
    (canonical : CanonicalRequestHead) (wire body : List UInt8) : Prop where
  known : gateway.upstreams.contains upstream
  framed : FramedBody gateway.calls admitted.headers admitted.framing wire body
  agreed : ∃ fields target, HeadAgreed gateway admitted replaces hostHeader fields target canonical body

theorem prepareUpstream_ok {admitted : Admitted} {upstream : List UInt8} {replaces hostHeader : Option (List UInt8)}
    {canonical : CanonicalRequestHead} {body : List UInt8} {connection after : Connection}
    (ran : prepareUpstream gateway client around admitted upstream replaces hostHeader connection = .ok (canonical,body) after) :
    ∃ wire between, Prepared gateway admitted upstream replaces hostHeader canonical wire body ∧
      admitted.remainder ++ Stream.bytes connection.client.stream = wire ++ Stream.bytes after.client.stream ∧
      after.events = connection.events ++ (between ++ [.called "construct_canonical_upstream_head" true]) ∧
      ∀ event ∈ between, event.agreed := by
  unfold prepareUpstream at ran
  obtain ⟨_,first,continued,ran⟩ := serving_bind ran
  have same : first.client = connection.client := by
    unfold writeContinue at continued
    split at continued
    · rw [reply_ok continued]
    · cases continued
      rfl
  obtain ⟨interim,noted,early⟩ := (writeContinue_quiet around admitted).returned continued
  obtain ⟨fields,second,applied,ran⟩ := serving_bind ran
  obtain ⟨appliedAs,rfl⟩ := serving_except applied
  split at ran
  · cases ran
  · obtain ⟨_,third,buffered,ran⟩ := serving_bind ran
    cases buffered
    obtain ⟨content,fourth,read,ran⟩ := serving_bind ran
    obtain ⟨wire,taken,framed⟩ := body_took read
    obtain ⟨calls,recorded,late⟩ := (calling_quiet (readRequestBody_calls gateway around _ _ _)).returned read
    obtain ⟨extra,fifth,looked,ran⟩ := serving_bind ran
    obtain ⟨left,found,rfl⟩ := receive_ok looked
    split at ran
    · cases ran
    · rename_i none
      rw [Bool.not_eq_true] at none
      subst none
      obtain ⟨rfl,ended⟩ := hasImmediateExtra_none found
      split at ran
      · cases ran
      · rename_i known
        obtain ⟨target,sixth,rewritten,ran⟩ := serving_bind ran
        obtain ⟨rewrittenAs,rfl⟩ := serving_except rewritten
        obtain ⟨head,seventh,agreed,ran⟩ := serving_bind ran
        obtain ⟨agreedAs,rfl⟩ := consult_ok agreed
        cases ran
        refine ⟨wire,interim ++ calls,⟨by simpa using known,framed,fields,target,⟨appliedAs,rewrittenAs,agreedAs⟩⟩,?_,?_,?_⟩
        · dsimp only
          rw [← ended,← taken,same]
          rfl
        · dsimp only
          rw [recorded]
          dsimp only
          rw [noted]
          simp
        · exact List.forall_mem_append.mpr ⟨early,late⟩

/-- What an upstream is sent: all of it, or as much as it takes. -/
def sentBytes (upstream : Upstream) (takes : Nat) (text : List UInt8) : List UInt8 :=
  if upstream.accepts then text else text.take takes

/-- The relay writes once, and first of all, when the upstream can be reached at all. -/
theorem relayUpstream_writes (admitted : Admitted) (canonical : CanonicalRequestHead) (body : List UInt8) (connection : Connection) :
    ∃ back, (finalState (relayUpstream gateway around admitted (canonical,body) connection)).events = connection.events ++
        ((if around.upstream.connects && around.upstream.configures then
          [.forwarded (sentBytes around.upstream around.upstreamTakes (canonical.bytes ++ body))] else []) ++ back) ∧
      ∀ event ∈ back, event.quiet := by
  obtain ⟨rest,parted,quiet⟩ : ∃ rest : Serving Bool, relayUpstream gateway around admitted (canonical,body) =
      (writeUpstream around canonical.bytes body >>= fun _ => rest) ∧ Quiet rest := by
    unfold relayUpstream sendUpstream
    rw [bind_assoc]
    generalize exchanged gateway.runtime _ = answer
    cases answer with
    | ok response left =>
      refine ⟨reply around.takesResponse (response.head ++ response.body) >>= fun _ =>
        return clientAllowsKeepAlive admitted.headers,rfl,?_⟩
      apply (reply_quiet _ _).bind
      intro _
      exact .pure _
    | error fault left => exact ⟨throw fault,rfl,.throw _⟩
  rw [parted]
  by_cases reached : around.upstream.connects && around.upstream.configures
  · obtain ⟨back,added,still,-⟩ := quiet { connection with
      events := connection.events ++ [.forwarded (sentBytes around.upstream around.upstreamTakes (canonical.bytes ++ body))] }
    refine ⟨back,?_,still⟩
    rw [if_pos reached,← List.append_assoc]
    unfold writeUpstream
    rw [if_pos reached]
    exact added
  · obtain ⟨back,added,still,-⟩ := quiet connection
    refine ⟨back,?_,still⟩
    rw [if_neg reached,List.nil_append]
    unfold writeUpstream
    rw [if_neg reached]
    exact added

theorem relayUpstream_records (admitted : Admitted) (prepared : CanonicalRequestHead × List UInt8) :
    Adds Connection.events (fun _ => True) (fun _ => True) (relayUpstream gateway around admitted prepared) := by
  intro connection
  obtain ⟨back,added,-⟩ := @relayUpstream_writes gateway around admitted prepared.1 prepared.2 connection
  exact ⟨_,added,fun _ _ => trivial,fun _ _ _ _ _ => trivial⟩

theorem relayUpstream_entry {admitted : Admitted} {canonical : CanonicalRequestHead} {body bytes : List UInt8} {connection : Connection}
    {front back : List Event} (logged : (finalState (relayUpstream gateway around admitted (canonical,body) connection)).events =
      connection.events ++ (front ++ .forwarded bytes :: back)) :
    front = [] ∧ bytes = sentBytes around.upstream around.upstreamTakes (canonical.bytes ++ body) ∧ ∀ event ∈ back, event.quiet := by
  obtain ⟨after,added,still⟩ := @relayUpstream_writes gateway around admitted canonical body connection
  have same := List.append_cancel_left (added.symm.trans logged)
  have inside {entries : List Event} (same : after = entries ++ .forwarded bytes :: back) : False := by
    apply still (.forwarded bytes)
    rw [same]
    simp
  split at same
  · cases front with
    | nil =>
      simp only [List.singleton_append,List.nil_append,List.cons.injEq,Event.forwarded.injEq] at same
      exact ⟨rfl,same.1.symm,same.2 ▸ still⟩
    | cons entry entries =>
      simp only [List.cons_append,List.cons.injEq] at same
      exact (inside same.2).elim
  · exact (inside same).elim

end Spec

section Runs

/-- What was agreed for the bytes that an upstream was sent: `front` is the record up to them and `stream` what the client
was still to send. -/
def Approved (gateway : Gateway) (client : Client) (around : Surroundings) (stream : List UInt8) (front : List Event)
    (bytes : List UInt8) : Prop :=
  ∃ admitted upstream replaces hostHeader canonical wire body between left,
    Admission gateway client admitted ∧ admitted.route.action = .proxy upstream replaces hostHeader ∧
    Prepared gateway admitted upstream replaces hostHeader canonical wire body ∧ stream = admitted.head ++ wire ++ left ∧
    front = admissionCalls.map (.called · true) ++ (between ++ [.called "construct_canonical_upstream_head" true]) ∧
    (∀ event ∈ between, event.agreed) ∧ bytes = sentBytes around.upstream around.upstreamTakes (canonical.bytes ++ body)

variable (gateway : Gateway) (client : Client) (around : Surroundings)

/-- What is done for an admitted request. -/
def serveAction (admitted : Admitted) : Serving Bool :=
  match admitted.route.action with
  | .redirect status location => answerLocally around admitted (redirectBytes admitted status location)
  | .respond status body contentType => answerLocally around admitted (respondBytes gateway around admitted status body contentType)
  | .files _ _ _ _ _ => answerLocally around admitted (staticBytes gateway around admitted)
  | .proxy upstream replacePrefix hostHeader => forwardRequest gateway client around admitted upstream replacePrefix hostHeader

theorem serveAction_cases (admitted : Admitted) : Quiet (serveAction gateway client around admitted) ∨
    ∃ upstream replaces hostHeader, admitted.route.action = .proxy upstream replaces hostHeader ∧
      serveAction gateway client around admitted =
        prepareUpstream gateway client around admitted upstream replaces hostHeader >>= relayUpstream gateway around admitted := by
  unfold serveAction
  cases admitted.route.action with
  | redirect status location => exact .inl (answerLocally_quiet _ _ _)
  | respond status body contentType => exact .inl (answerLocally_quiet _ _ _)
  | files => exact .inl (answerLocally_quiet _ _ _)
  | proxy upstream replaces hostHeader => exact .inr ⟨upstream,replaces,hostHeader,rfl,forwardRequest_parts _ _ _ _ _ _ _⟩

theorem serveAction_records (admitted : Admitted) :
    Adds Connection.events (fun _ => True) (fun _ => True) (serveAction gateway client around admitted) := by
  rcases serveAction_cases gateway client around admitted with quiet | ⟨upstream,replaces,hostHeader,-,parts⟩
  · exact quiet.mono (fun _ _ => trivial) fun _ _ => trivial
  · rw [parts]
    apply Adds.bind ((prepareUpstream_quiet _ _ _ _ _ _ _).mono (fun _ _ => trivial) fun _ _ => trivial)
    exact relayUpstream_records admitted

variable {gateway : Gateway} {client : Client} {around : Surroundings}

theorem processRequest_records : Adds Connection.events (fun _ => True) (fun _ => True) (processRequest gateway client around) := by
  apply Adds.bind ((admitRequest_calls gateway client around).mono (fun _ _ => trivial) fun _ _ => trivial)
  exact serveAction_records gateway client around

/-- A write was made behind everything that had to be agreed, and no other write follows it. -/
theorem processRequest_writes {connection : Connection} {front back : List Event} {bytes : List UInt8}
    (logged : (finalState (processRequest gateway client around connection)).events =
      connection.events ++ (front ++ .forwarded bytes :: back)) :
    Approved gateway client around (Stream.bytes connection.client.stream) front bytes ∧ ∀ event ∈ back, event.quiet := by
  obtain ⟨admitted,middle,early,late,admits,reached,-,parted,logged⟩ := (calling_quiet (admitRequest_calls gateway client around)).entry_after
    (serveAction_records gateway client around) (by simp [Event.quiet]) logged
  obtain ⟨admission,called⟩ := admitRequest_ok admits
  obtain ⟨-,-,taken⟩ := admitRequest_took admits
  obtain rfl := List.append_cancel_left (reached.symm.trans called)
  rcases serveAction_cases gateway client around admitted with quiet | ⟨upstream,replaces,hostHeader,action,parts⟩
  · exact (quiet.entry_apart logged).elim
  · rw [parts] at logged
    obtain ⟨⟨canonical,body⟩,ready,calls,rest,prepares,noted,-,split,logged⟩ := (prepareUpstream_quiet _ _ _ _ _ _ _).entry_after
      (relayUpstream_records admitted) (by simp [Event.quiet]) logged
    obtain ⟨wire,between,prepared,left,recorded,agreed⟩ := prepareUpstream_ok prepares
    obtain rfl := List.append_cancel_left (noted.symm.trans recorded)
    obtain ⟨rfl,sent,still⟩ := relayUpstream_entry logged
    refine ⟨⟨admitted,upstream,replaces,hostHeader,canonical,wire,body,between,Stream.bytes ready.client.stream,admission,action,
      prepared,?_,?_,agreed,sent⟩,still⟩
    · rw [taken,List.append_assoc,left,← List.append_assoc]
    · rw [parted,split,List.append_nil]

theorem processRequest_forwards {connection middle ready : Connection} {admitted : Admitted} {upstream : List UInt8}
    {replaces hostHeader : Option (List UInt8)} {canonical : CanonicalRequestHead} {body : List UInt8}
    (admits : admitRequest gateway client around connection = .ok admitted middle)
    (action : admitted.route.action = .proxy upstream replaces hostHeader)
    (prepares : prepareUpstream gateway client around admitted upstream replaces hostHeader middle = .ok (canonical,body) ready)
    (reached : around.upstream.connects && around.upstream.configures) :
    ∃ back, (finalState (processRequest gateway client around connection)).events =
      ready.events ++ .forwarded (sentBytes around.upstream around.upstreamTakes (canonical.bytes ++ body)) :: back := by
  have served : serveAction gateway client around admitted middle = relayUpstream gateway around admitted (canonical,body) ready := by
    unfold serveAction
    rw [action]
    dsimp only
    rw [forwardRequest_parts]
    change EStateM.bind _ _ middle = _
    unfold EStateM.bind
    rw [prepares]
  have ran : processRequest gateway client around connection = serveAction gateway client around admitted middle := by
    change EStateM.bind _ (serveAction gateway client around) connection = _
    unfold EStateM.bind
    rw [admits]
  obtain ⟨back,added,-⟩ := @relayUpstream_writes gateway around admitted canonical body ready
  rw [if_pos reached] at added
  exact ⟨back,by rw [ran,served,added]; rfl⟩

theorem visit_after (connection : Connection) :
    (visit gateway client around connection).after = finalState (processRequest gateway client around connection) := by
  unfold visit
  cases processRequest gateway client around connection <;> rfl

theorem visit_writes (connection : Connection) : ∃ entries,
    (visit gateway client around connection).after.events = connection.events ++ entries ∧
      ∀ front bytes back, entries = front ++ .forwarded bytes :: back →
        Approved gateway client around (Stream.bytes connection.client.stream) front bytes ∧ ∀ event ∈ back, event.quiet := by
  obtain ⟨entries,added,-⟩ := @processRequest_records gateway client around connection
  refine ⟨entries,by rw [visit_after,added],?_⟩
  rintro front bytes back rfl
  exact processRequest_writes added

/-- Every request of a connection is a visit where the one before it left the connection. -/
theorem handleConnection_visit (gateway : Nat → Gateway) (client : Client) (around : Nat → Surroundings) (stream : List Read)
    (i : Fin (handleConnection gateway client around stream).length) :
    (handleConnection gateway client around stream).get i =
      visit (gateway i) client (around i) ((handleConnection gateway client around stream).get i).before := by
  have same := (handleLoop_bounded 999 0 i _ _ (List.getElem?_eq_getElem i.isLt)).1
  rw [Nat.zero_add] at same
  exact same

/-- Whatever a client sends, each request of its connection writes to an upstream at most once, behind the calls that
the agreement set answered for it, and what is written is the agreed head with the decoded body. -/
theorem upstream_writes_fail_closed (gateway : Nat → Gateway) (client : Client) (around : Nat → Surroundings) (stream : List Read)
    (i : Fin (handleConnection gateway client around stream).length) :
    ∃ entries, ((handleConnection gateway client around stream).get i).after.events =
        ((handleConnection gateway client around stream).get i).before.events ++ entries ∧
      ∀ front bytes back, entries = front ++ .forwarded bytes :: back →
        Approved (gateway i) client (around i) (Stream.bytes ((handleConnection gateway client around stream).get i).before.client.stream)
          front bytes ∧ ∀ event ∈ back, event.quiet := by
  have written := @visit_writes (gateway i) client (around i) ((handleConnection gateway client around stream).get i).before
  rw [← handleConnection_visit] at written
  exact written

end Runs
end Polyguard.Proxy
