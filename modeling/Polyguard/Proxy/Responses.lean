import Polyguard.Proxy.Writes

/-! What a client is written over the requests of its connection.
A request adds its replies at two places of the record: the interim one in front of the body,
and the answer of its action at the end. A write that the client takes in part ends the
request, and its piece stays in the record. A fault that ends the connection is answered by
the loop, unless the loop takes it for the end of an idle connection. -/
namespace Polyguard.Proxy
open Ascii Decimal

section Loop

/-- The words of `Fault::status`. -/
def Fault.reason : Fault → List UInt8
  | .protocol .noRoute => ascii "Not Found"
  | .protocol .unsupportedUpgrade => ascii "Not Implemented"
  | .timeout => ascii "Request Timeout"
  | .upstreamTimeout => ascii "Gateway Timeout"
  | .tooLarge => ascii "Content Too Large"
  | .protocol (.limitExceeded _ _ _) => ascii "Content Too Large"
  | .expectationFailed => ascii "Expectation Failed"
  | .busy => ascii "Service Unavailable"
  | .forbidden => ascii "Forbidden"
  | .upstream => ascii "Bad Gateway"
  | .internal => ascii "Internal Server Error"
  | .clientClosed => ascii "Bad Request"
  | .protocol _ => ascii "Bad Request"
  | .disagreement _ => ascii "Bad Request"
  | .clientIo => ascii "Bad Request"

def writeSimpleResponse (status : Nat) (reason body : List UInt8) (extra : List HeaderField) : List UInt8 :=
  ascii "HTTP/1.1 " ++ decimal status ++ ascii " " ++ reason ++ crlf ++ serverHeader ++ extra.flatMap serializeField ++
    ascii "content-type: text/plain; charset=utf-8" ++ crlf ++ ascii "content-length: " ++ decimal body.length ++ crlf ++
    ascii "connection: close" ++ crlf ++ crlf ++ body

/-- What the loop takes for the end of an idle connection: a close of the client, and behind an earlier request any failure of
its socket and any fault of the kind `timeout`, which an upstream without a length gives as well. -/
def idleClose (completed : Nat) : Outcome Bool → Bool
  | .error .clientClosed => true
  | .error .clientIo => completed != 0
  | .error .timeout => completed != 0
  | _ => false

/-- What the loop itself answers to the outcome of a request. -/
def faultReply (completed : Nat) : Outcome Bool → Option (List UInt8)
  | .ok _ => none
  | .error fault =>
    if idleClose completed (.error fault) then none
    else some (writeSimpleResponse fault.status fault.reason (ascii "request rejected" ++ [0x0a]) [])

/-- The counters of the requests. -/
structure Metrics where
  accepted : UInt64
  rejected : UInt64
  disagreements : UInt64
  upstreamFailures : UInt64
  timeouts : UInt64
deriving DecidableEq

def recordRequestResult (metrics : Metrics) (result : Outcome Bool) : Metrics where
  accepted := if result.isOk then metrics.accepted + 1 else metrics.accepted
  rejected := if result.isOk then metrics.rejected else metrics.rejected + 1
  disagreements := match result with
    | .error (.disagreement _) => metrics.disagreements + 1
    | _ => metrics.disagreements
  upstreamFailures := match result with
    | .error .upstream => metrics.upstreamFailures + 1
    | _ => metrics.upstreamFailures
  timeouts := match result with
    | .error .timeout => metrics.timeouts + 1
    | .error .upstreamTimeout => metrics.timeouts + 1
    | _ => metrics.timeouts

def Event.reply : Event → Option (List UInt8)
  | .replied bytes => some bytes
  | _ => none

def replies (events : List Event) : List (List UInt8) := events.filterMap Event.reply

/-- The writes of one round of the loop: those of the request and the one of the loop, whose failure nothing observes. -/
def roundReplies (around : Surroundings) (completed : Nat) (visited : Visit) : List (List UInt8) :=
  replies (visited.after.events.drop visited.before.events.length) ++
    (faultReply completed visited.outcome).toList.map around.takesRejection.taken

/-- One round of the loop counts the request, unless the connection had only been idle. -/
def roundMetrics (metrics : Metrics) (completed : Nat) (visited : Visit) : Metrics :=
  if idleClose completed visited.outcome then metrics else recordRequestResult metrics visited.outcome

/-- All that the client of a connection is written. -/
def connectionReplies (around : Nat → Surroundings) : Nat → List Visit → List (List UInt8)
  | _,[] => []
  | completed,visited :: later =>
    roundReplies (around completed) completed visited ++ connectionReplies around (completed + 1) later

def connectionMetrics (metrics : Metrics) : Nat → List Visit → Metrics
  | _,[] => metrics
  | completed,visited :: later => connectionMetrics (roundMetrics metrics completed visited) (completed + 1) later

end Loop

section Silence

/-- An entry that is nothing for the client. -/
def Event.silent (event : Event) : Prop := event.reply = none

theorem Event.isCall_silent (event : Event) (call : event.isCall) : event.silent := by
  cases event with
  | called function value => rfl
  | forwarded bytes => rfl
  | replied bytes => exact call.elim

theorem replies_silent {events : List Event} (silent : ∀ event ∈ events, event.silent) : replies events = [] :=
  List.filterMap_eq_nil_iff.mpr silent

theorem replies_append (front back : List Event) : replies (front ++ back) = replies front ++ replies back :=
  List.filterMap_append

theorem calling_silent {α : Type} {program : Serving α} (calling : Calling program) :
    Adds Connection.events Event.silent Event.silent program :=
  calling.mono (fun event returned => event.isCall_silent (by cases event <;> trivial)) Event.isCall_silent

variable (gateway : Gateway) (client : Client) (around : Surroundings)

/-- The answer of the action is written. -/
def Answering (admitted : Admitted) (event : Event) : Prop :=
  ∃ bytes, answerBytes gateway around admitted = .ok bytes ∧ event = .replied bytes

/-- The answer of the action is written in part, and the socket fails. -/
def Breaking (admitted : Admitted) (fault : Fault) (event : Event) : Prop :=
  fault = .clientIo ∧ ∃ bytes piece, answerBytes gateway around admitted = .ok bytes ∧ piece <+: bytes ∧ event = .replied piece

/-- The program writes the answer at its end, or a piece of it where it fails there. -/
abbrev Answers {α : Type} (admitted : Admitted) (program : Serving α) : Prop :=
  Concludes Connection.events Event.silent (Answering gateway around admitted) (Breaking gateway around admitted) program

theorem Delivery.taken_prefix (takes : Delivery) (bytes : List UInt8) : takes.taken bytes <+: bytes := by
  cases takes with
  | whole => exact List.prefix_refl bytes
  | torn count => exact List.take_prefix count bytes

variable {gateway around}

theorem reply_answers {admitted : Admitted} {bytes : List UInt8} (answered : answerBytes gateway around admitted = .ok bytes)
    (takes : Delivery) : Answers gateway around admitted (reply takes bytes) := by
  intro connection
  refine ⟨[],[.replied (takes.taken bytes)],?_,by simp,?_,?_⟩
  · cases takes <;> rfl
  · intro value after ran
    cases takes with
    | whole => exact ⟨_,rfl,bytes,answered,rfl⟩
    | torn count => cases ran
  · intro fault after ran
    have failed : fault = .clientIo := by
      cases takes with
      | whole => cases ran
      | torn count =>
        cases ran
        rfl
    exact .inr ⟨_,rfl,failed,bytes,_,answered,takes.taken_prefix bytes,rfl⟩

theorem answerLocally_answers {admitted : Admitted} {response : Outcome (List UInt8)}
    (same : answerBytes gateway around admitted = response) : Answers gateway around admitted (answerLocally around admitted response) := by
  cases response with
  | error fault => exact .throw fault
  | ok bytes => exact (reply_answers same around.takesResponse).then_kept fun _ => keepsAlive admitted

variable (gateway around)

theorem writeUpstream_silent (head body : List UInt8) :
    Adds Connection.events Event.silent Event.silent (writeUpstream around head body) :=
  .ite (record_adds rfl rfl) (.pure _)

variable {gateway around}

theorem relayUpstream_answers {admitted : Admitted} {upstream : List UInt8} {replaces hostHeader : Option (List UInt8)}
    (action : admitted.route.action = .proxy upstream replaces hostHeader) (prepared : CanonicalRequestHead × List UInt8) :
    Answers gateway around admitted (relayUpstream gateway around admitted prepared) := by
  unfold relayUpstream sendUpstream
  rw [bind_assoc]
  apply Concludes.bind (writeUpstream_silent around _ _)
  intro _
  generalize answer : exchanged gateway.runtime _ = result
  change exchanged gateway.runtime (upstreamExchange around admitted) = result at answer
  cases result with
  | ok response rest =>
    have answered : answerBytes gateway around admitted = .ok (response.head ++ response.body) := by
      simp only [answerBytes,action,answer]
    exact (reply_answers answered around.takesResponse).then_kept fun _ => clientAllowsKeepAlive admitted.headers
  | error fault rest => exact .throw fault

end Silence

section Requests
variable (gateway : Gateway) (client : Client) (around : Surroundings)

def continueBytes : List UInt8 := ascii "HTTP/1.1 100 Continue" ++ crlf ++ crlf

/-- The action turns to an upstream. -/
def Proxies (admitted : Admitted) : Prop := ∃ upstream replaces hostHeader, admitted.route.action = .proxy upstream replaces hostHeader

/-- The client of an admitted request waits to be told that its body is wanted, and the action reads one. -/
def Expects (connection : Connection) : Prop :=
  ∃ admitted middle, admitRequest gateway client around connection = .ok admitted middle ∧ admitted.expectContinue ∧
    admitted.framing ≠ .none ∧ Proxies admitted

/-- The request is admitted, and these bytes are the answer of its action. -/
def Answered (connection : Connection) (bytes : List UInt8) : Prop :=
  ∃ admitted middle, admitRequest gateway client around connection = .ok admitted middle ∧ answerBytes gateway around admitted = .ok bytes

/-- What a round of the loop writes: an interim reply, an answer that broke off, and the final reply. -/
structure Round where
  interim : List (List UInt8)
  broken : List (List UInt8)
  final : List (List UInt8)

/-- What an action writes behind what was admitted, over the rest of its entries. -/
structure Wrote (admitted : Admitted) (outcome : Outcome Bool) (round : Round) (entries : List Event) : Prop where
  order : ∃ late, entries = round.interim.map .replied ++ (late ++ (round.broken ++ round.final).map .replied) ∧
    ∀ event ∈ late, event.silent
  expected : round.interim = [] ∨ (admitted.expectContinue ∧ admitted.framing ≠ .none ∧ Proxies admitted) ∧
    (round.interim = [continueBytes] ∨ outcome = .error .clientIo ∧ round.broken = [] ∧
      ∃ piece, piece <+: continueBytes ∧ round.interim = [piece])
  processed : ∀ keeps, outcome = .ok keeps →
    (admitted.expectContinue → admitted.framing ≠ .none → Proxies admitted → round.interim = [continueBytes]) ∧
      round.broken = [] ∧ ∃ bytes, answerBytes gateway around admitted = .ok bytes ∧ round.final = [bytes]
  failed : ∀ fault, outcome = .error fault → round.final = [] ∧ (round.broken = [] ∨ fault = .clientIo ∧
    ∃ bytes piece, answerBytes gateway around admitted = .ok bytes ∧ piece <+: bytes ∧ round.broken = [piece])

/-- The outcome of a run, as the loop sees it. -/
def ranTo {α : Type} : EStateM.Result Fault Connection α → Outcome α
  | .ok value _ => .ok value
  | .error fault _ => .error fault

variable {gateway client around}

theorem answers_round {admitted : Admitted} {program : Serving Bool} (answers : Answers gateway around admitted program)
    (connection : Connection) : ∃ (late : List Event) (broken final : List (List UInt8)),
      (finalState (program connection)).events = connection.events ++ (late ++ (broken ++ final).map .replied) ∧
      (∀ event ∈ late, event.silent) ∧
      (∀ keeps, ranTo (program connection) = .ok keeps →
        broken = [] ∧ ∃ bytes, answerBytes gateway around admitted = .ok bytes ∧ final = [bytes]) ∧
      ∀ fault, ranTo (program connection) = .error fault → final = [] ∧ (broken = [] ∨ fault = .clientIo ∧
        ∃ bytes piece, answerBytes gateway around admitted = .ok bytes ∧ piece <+: bytes ∧ broken = [piece]) := by
  obtain ⟨late,endings,added,silent,returns,fails⟩ := answers connection
  cases ran : program connection with
  | ok keeps after =>
    rw [ran] at added
    obtain ⟨_,rfl,bytes,answered,rfl⟩ := returns keeps after ran
    exact ⟨late,[],[bytes],added,silent,fun _ _ => ⟨rfl,bytes,answered,rfl⟩,by rintro _ ⟨⟩⟩
  | error fault after =>
    rw [ran] at added
    rcases fails fault after ran with rfl | ⟨_,rfl,failed,bytes,piece,answered,part,rfl⟩
    · exact ⟨late,[],[],added,silent,by rintro _ ⟨⟩,fun _ _ => ⟨rfl,.inl rfl⟩⟩
    · refine ⟨late,[piece],[],added,silent,by rintro _ ⟨⟩,?_⟩
      rintro _ ⟨⟩
      exact ⟨rfl,.inr ⟨failed,bytes,piece,answered,part,rfl⟩⟩

theorem answers_wrote {admitted : Admitted} {program : Serving Bool} (answers : Answers gateway around admitted program)
    (unasked : admitted.expectContinue → admitted.framing ≠ .none → ¬Proxies admitted) (connection : Connection) :
    ∃ round entries, (finalState (program connection)).events = connection.events ++ entries ∧
      Wrote gateway around admitted (ranTo (program connection)) round entries := by
  obtain ⟨late,broken,final,added,silent,processed,failed⟩ := answers_round answers connection
  refine ⟨⟨[],broken,final⟩,_,added,⟨late,rfl,silent⟩,.inl rfl,?_,failed⟩
  intro keeps ran
  exact ⟨fun asked framed proxied => absurd proxied (unasked asked framed),processed keeps ran⟩

theorem writeContinue_wrote {admitted : Admitted} {rest : Serving Bool} (answers : Answers gateway around admitted rest)
    (proxied : Proxies admitted) (connection : Connection) :
    ∃ round entries, (finalState ((writeContinue around admitted >>= fun _ => rest) connection)).events = connection.events ++ entries ∧
      Wrote gateway around admitted (ranTo ((writeContinue around admitted >>= fun _ => rest) connection)) round entries := by
  unfold writeContinue
  split
  · rename_i asked
    simp only [Bool.and_eq_true,bne_iff_ne,ne_eq] at asked
    have waits : admitted.expectContinue ∧ admitted.framing ≠ .none ∧ Proxies admitted := ⟨asked.1,asked.2,proxied⟩
    cases takes : around.takesContinue with
    | whole =>
      obtain ⟨late,broken,final,added,silent,processed,failed⟩ := answers_round answers
        { connection with events := connection.events ++ [.replied continueBytes] }
      refine ⟨⟨[continueBytes],broken,final⟩,[.replied continueBytes] ++ (late ++ (broken ++ final).map .replied),?_,
        ⟨late,rfl,silent⟩,.inr ⟨waits,.inl rfl⟩,?_,failed⟩
      · rw [← List.append_assoc]
        exact added
      · intro keeps ran
        exact ⟨fun _ _ _ => rfl,processed keeps ran⟩
    | torn count =>
      refine ⟨⟨[continueBytes.take count],[],[]⟩,[.replied (continueBytes.take count)],rfl,⟨[],rfl,by simp⟩,
        .inr ⟨waits,.inr ⟨rfl,rfl,_,List.take_prefix _ _,rfl⟩⟩,?_,fun _ _ => ⟨rfl,.inl rfl⟩⟩
      rintro _ ⟨⟩
  · rename_i unasked
    simp only [Bool.and_eq_true,bne_iff_ne,ne_eq,not_and] at unasked
    exact answers_wrote answers (fun asked framed => absurd framed (unasked asked)) connection

theorem serveAction_wrote (admitted : Admitted) (connection : Connection) :
    ∃ round entries, (finalState (serveAction gateway client around admitted connection)).events = connection.events ++ entries ∧
      Wrote gateway around admitted (ranTo (serveAction gateway client around admitted connection)) round entries := by
  -- without an upstream nothing reads a body
  have locally {response : Outcome (List UInt8)} (same : answerBytes gateway around admitted = response)
      (plain : ¬Proxies admitted) := answers_wrote (answerLocally_answers same) (fun _ _ => plain) connection
  unfold serveAction
  cases action : admitted.route.action with
  | redirect status location =>
    apply locally
    · rw [answerBytes,action]
    · simp [Proxies,action]
  | respond status body contentType =>
    apply locally
    · rw [answerBytes,action]
    · simp [Proxies,action]
  | files =>
    apply locally
    · rw [answerBytes,action]
    · simp [Proxies,action]
  | proxy upstream replaces hostHeader =>
    dsimp only
    rw [forwardRequest_parts,prepareUpstream,bind_assoc]
    apply writeContinue_wrote _ ⟨upstream,replaces,hostHeader,action⟩
    apply Concludes.bind (calling_silent (agreeUpstream_calls gateway client around admitted upstream replaces hostHeader))
    exact relayUpstream_answers action

variable (gateway client around)

/-- What one round of the loop writes: an interim reply at most, then the answer of the action or what the loop makes of a fault.
Only where the socket of the client fails, a piece of the interim reply or of the answer is left in front of the latter. -/
structure InStep (completed : Nat) (visited : Visit) (round : Round) : Prop where
  replies : roundReplies around completed visited = round.interim ++ (round.broken ++ round.final)
  expected : round.interim = [] ∨ Expects gateway client around visited.before ∧
    (round.interim = [continueBytes] ∨ visited.outcome = .error .clientIo ∧ round.broken = [] ∧
      ∃ piece, piece <+: continueBytes ∧ round.interim = [piece])
  processed : ∀ keeps, visited.outcome = .ok keeps →
    (Expects gateway client around visited.before → round.interim = [continueBytes]) ∧ round.broken = [] ∧
      ∃ bytes, Answered gateway client around visited.before bytes ∧ round.final = [bytes]
  failed : ∀ fault, visited.outcome = .error fault →
    round.final = (faultReply completed (.error fault)).toList.map around.takesRejection.taken ∧
      (round.broken = [] ∨ fault = .clientIo ∧
        ∃ bytes piece, Answered gateway client around visited.before bytes ∧ piece <+: bytes ∧ round.broken = [piece])

variable {gateway client around}

theorem replies_map (written : List (List UInt8)) : replies (written.map .replied) = written := by
  induction written with
  | nil => rfl
  | cons bytes written ih => exact congrArg (bytes :: ·) ih

theorem wrote_replies {admitted : Admitted} {outcome : Outcome Bool} {round : Round} {entries : List Event}
    (served : Wrote gateway around admitted outcome round entries) :
    replies entries = round.interim ++ (round.broken ++ round.final) := by
  obtain ⟨late,rfl,silent⟩ := served.order
  rw [replies_append,replies_append,replies_map,replies_map,replies_silent silent]
  rfl

theorem visit_outcome (connection : Connection) :
    (visit gateway client around connection).outcome = ranTo (processRequest gateway client around connection) := by
  unfold visit
  cases processRequest gateway client around connection <;> rfl

theorem refused_inStep (completed : Nat) {connection middle : Connection} {fault : Fault} {early : List Event}
    (refused : admitRequest gateway client around connection = .error fault middle) (added : middle.events = connection.events ++ early)
    (calls : ∀ event ∈ early, event.isCall) :
    InStep gateway client around completed (visit gateway client around connection)
      ⟨[],[],(faultReply completed (.error fault)).toList.map around.takesRejection.taken⟩ := by
  have same : visit gateway client around connection = ⟨connection,.error fault,middle⟩ := by
    unfold visit processRequest
    simp only [Bind.bind,EStateM.bind,refused]
  have silent := replies_silent fun event member => event.isCall_silent (calls event member)
  rw [same]
  refine ⟨?_,.inl rfl,by rintro _ ⟨⟩,?_⟩
  · simp only [roundReplies,added,List.drop_left,silent,List.nil_append]
  · rintro _ ⟨⟩
    exact ⟨rfl,.inl rfl⟩

theorem admitted_inStep (completed : Nat) {connection middle : Connection} {admitted : Admitted} {early entries : List Event}
    {round : Round} (admits : admitRequest gateway client around connection = .ok admitted middle)
    (added : middle.events = connection.events ++ early) (calls : ∀ event ∈ early, event.isCall)
    (later : (finalState (serveAction gateway client around admitted middle)).events = middle.events ++ entries)
    (served : Wrote gateway around admitted (ranTo (serveAction gateway client around admitted middle)) round entries) :
    InStep gateway client around completed (visit gateway client around connection) ⟨round.interim,round.broken,round.final ++
      (faultReply completed (visit gateway client around connection).outcome).toList.map around.takesRejection.taken⟩ := by
  have ran : processRequest gateway client around connection = serveAction gateway client around admitted middle :=
    Fallible.run_bind_ok admits
  have outcome := (@visit_outcome gateway client around connection).trans (congrArg ranTo ran)
  have events : (visit gateway client around connection).after.events = connection.events ++ (early ++ entries) := by
    rw [visit_after,ran,later,added,List.append_assoc]
  have silent := replies_silent fun event member => event.isCall_silent (calls event member)
  have waits : Expects gateway client around connection ↔
      admitted.expectContinue ∧ admitted.framing ≠ .none ∧ Proxies admitted := by
    constructor
    · rintro ⟨_,_,again,rest⟩
      rw [admits] at again
      cases again
      exact rest
    · exact fun rest => ⟨admitted,middle,admits,rest⟩
  have answered {bytes : List UInt8} (given : answerBytes gateway around admitted = .ok bytes) :
      Answered gateway client around connection bytes := ⟨admitted,middle,admits,given⟩
  constructor
  · rw [roundReplies,events,visit_before,List.drop_left,replies_append,silent,wrote_replies served]
    simp only [List.nil_append,List.append_assoc]
  · rw [visit_before,waits,outcome]
    exact served.expected
  · intro keeps ended
    rw [outcome] at ended
    obtain ⟨told,whole,bytes,given,same⟩ := served.processed keeps ended
    rw [visit_before,waits,outcome,ended]
    refine ⟨fun waiting => told waiting.1 waiting.2.1 waiting.2.2,whole,bytes,answered given,?_⟩
    rw [same]
    rfl
  · intro fault ended
    rw [outcome] at ended
    obtain ⟨none,broken⟩ := served.failed fault ended
    rw [visit_before,outcome,ended,none]
    refine ⟨rfl,broken.imp_right ?_⟩
    rintro ⟨failed,bytes,piece,given,part,same⟩
    exact ⟨failed,bytes,piece,answered given,part,same⟩

theorem visit_inStep (completed : Nat) (connection : Connection) :
    ∃ round, InStep gateway client around completed (visit gateway client around connection) round := by
  obtain ⟨early,added,calls,-⟩ := admitRequest_calls gateway client around connection
  cases admits : admitRequest gateway client around connection with
  | error fault middle =>
    rw [admits] at added
    exact ⟨_,refused_inStep completed admits added calls⟩
  | ok admitted middle =>
    rw [admits] at added
    obtain ⟨round,entries,later,served⟩ := @serveAction_wrote gateway client around admitted middle
    exact ⟨_,admitted_inStep completed admits added calls later served⟩

theorem inStep_counted {completed : Nat} {visited : Visit} {round : Round}
    (step : InStep gateway client around completed visited round) (metrics : Metrics) :
    (roundMetrics metrics completed visited).accepted + (roundMetrics metrics completed visited).rejected =
      metrics.accepted + metrics.rejected + UInt64.ofNat round.final.length := by
  cases outcome : visited.outcome with
  | ok keeps =>
    obtain ⟨-,-,bytes,-,once⟩ := step.processed keeps outcome
    rw [once]
    simp only [roundMetrics,outcome,idleClose,recordRequestResult,Except.isOk,Except.toBool,Bool.false_eq_true,if_false,if_true]
    change metrics.accepted + 1 + metrics.rejected = metrics.accepted + metrics.rejected + 1
    rw [UInt64.add_assoc,UInt64.add_comm 1,UInt64.add_assoc]
  | error fault =>
    rw [(step.failed fault outcome).1,List.length_map]
    unfold roundMetrics
    rw [outcome]
    dsimp only [faultReply]
    cases idleClose completed (.error fault) with
    | true => exact (UInt64.add_zero _).symm
    | false => exact (UInt64.add_assoc _ _ _).symm

end Requests

section Connections
variable {gateway : Nat → Gateway} {client : Client} {around : Nat → Surroundings}

theorem rounds_inStep (visits : List Visit) (completed : Nat)
    (step : ∀ i (inside : i < visits.length), ∃ round,
      InStep (gateway (completed + i)) client (around (completed + i)) (completed + i) (visits.get ⟨i,inside⟩) round) (metrics : Metrics) :
    ∃ rounds : List Round, rounds.length = visits.length ∧
      (∀ i (inside : i < visits.length) (within : i < rounds.length),
        InStep (gateway (completed + i)) client (around (completed + i)) (completed + i) (visits.get ⟨i,inside⟩)
          (rounds.get ⟨i,within⟩)) ∧
      connectionReplies around completed visits = rounds.flatMap (fun round => round.interim ++ (round.broken ++ round.final)) ∧
      (connectionMetrics metrics completed visits).accepted + (connectionMetrics metrics completed visits).rejected =
        metrics.accepted + metrics.rejected + UInt64.ofNat (rounds.flatMap Round.final).length := by
  induction visits generalizing completed metrics with
  | nil => exact ⟨[],rfl,by simp,rfl,(UInt64.add_zero _).symm⟩
  | cons visited later ih =>
    obtain ⟨round,here⟩ := step 0 (Nat.succ_pos _)
    rw [Nat.add_zero] at here
    have follows (i : Nat) (inside : i < later.length) : ∃ round, InStep (gateway (completed + 1 + i)) client
        (around (completed + 1 + i)) (completed + 1 + i) (later.get ⟨i,inside⟩) round := by
      have next := step (i + 1) (Nat.succ_lt_succ inside)
      rwa [Nat.add_right_comm completed 1 i]
    obtain ⟨rounds,sized,each,written,total⟩ := ih (completed + 1) follows (roundMetrics metrics completed visited)
    refine ⟨round :: rounds,congrArg (· + 1) sized,?_,?_,?_⟩
    · intro i inside within
      cases i with
      | zero => exact here
      | succ i =>
        have next := each i (Nat.lt_of_succ_lt_succ inside) (Nat.lt_of_succ_lt_succ within)
        rwa [Nat.add_right_comm completed 1 i] at next
    · have first : roundReplies (around completed) completed visited = round.interim ++ (round.broken ++ round.final) := here.replies
      rw [connectionReplies,written,first,List.flatMap_cons]
    · have first : (roundMetrics metrics completed visited).accepted + (roundMetrics metrics completed visited).rejected =
          metrics.accepted + metrics.rejected + UInt64.ofNat round.final.length := inStep_counted here metrics
      rw [connectionMetrics,total,first,List.flatMap_cons,List.length_append,UInt64.ofNat_add,UInt64.add_assoc]

variable (gateway client around)

/-- Whatever a client sends, its connection answers in step: each request has an interim reply at most and then one final
reply, which is the answer of its action or that of the loop to a fault, unless the loop takes the fault for the end of an
idle connection. A write that breaks off leaves a piece of what it was to write. There is a further request only behind
one that was processed, and the counters have every final reply once. -/
theorem responses_keep_step (stream : List Read) (metrics : Metrics) :
    ∃ rounds : List Round, rounds.length = (handleConnection gateway client around stream).length ∧
      (∀ i (inside : i < (handleConnection gateway client around stream).length) (within : i < rounds.length),
        InStep (gateway i) client (around i) i ((handleConnection gateway client around stream).get ⟨i,inside⟩)
          (rounds.get ⟨i,within⟩)) ∧
      connectionReplies around 0 (handleConnection gateway client around stream) =
        rounds.flatMap (fun round => round.interim ++ (round.broken ++ round.final)) ∧
      (handleConnection gateway client around stream).IsChain (fun visited _ => visited.outcome = .ok true) ∧
      (connectionMetrics metrics 0 (handleConnection gateway client around stream)).accepted +
          (connectionMetrics metrics 0 (handleConnection gateway client around stream)).rejected =
        metrics.accepted + metrics.rejected + UInt64.ofNat (rounds.flatMap Round.final).length := by
  have step (i : Nat) (inside : i < (handleConnection gateway client around stream).length) :
      ∃ round, InStep (gateway (0 + i)) client (around (0 + i)) (0 + i)
        ((handleConnection gateway client around stream).get ⟨i,inside⟩) round := by
    rw [handleConnection_visit gateway client around stream ⟨i,inside⟩,Nat.zero_add]
    exact visit_inStep i _
  obtain ⟨rounds,sized,each,written,total⟩ := rounds_inStep _ 0 step metrics
  refine ⟨rounds,sized,fun i inside within => ?_,written,?_,total⟩
  · have here := each i inside within
    rwa [Nat.zero_add] at here
  · exact (handleLoop_follows 999 0 _).imp fun _ _ follows => follows.1

end Connections
end Polyguard.Proxy
