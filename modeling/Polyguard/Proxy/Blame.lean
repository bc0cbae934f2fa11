import Polyguard.Proxy.Deadlines
import Polyguard.Header.Implementations
import Polyguard.HopByHop.Implementations

/-! Who is blamed for a failed exchange.
The faults of the response head, of a body of given length and of a chunked body are
translated to faults of the upstream. The errors of the header functions and the
faults of a body that ends with the connection are returned as they are. -/
namespace Polyguard.Proxy
open Ascii

/-- The statuses that do not blame the client. -/
def Fault.sparesClient (fault : Fault) : Prop :=
  fault.status = 500 ∨ fault.status = 502 ∨ fault.status = 503 ∨ fault.status = 504

/-- A failed exchange spares the client, and a deadline of the upstream is reported as such. -/
def SparesClient (runtime : Runtime) (exchange : UpstreamExchange) : Prop :=
  (∀ fault rest, exchanged runtime exchange = .error fault rest → fault.sparesClient ∧
    (deadlines rest ≠ deadlines exchange.upstream.sends → fault = .upstreamTimeout)) ∧
  ∀ response rest, exchanged runtime exchange = .ok response rest → deadlines rest = deadlines exchange.upstream.sends

/-- The header functions accept the header section that follows a final status line. -/
def HeadersAccepted (runtime : Runtime) (head : List UInt8) : Prop :=
  ∀ status reason offset, parseStatusLine head = .ok (status,reason,offset) → ¬(100 ≤ status ∧ status < 200) →
    ∃ headers, runtime.protocol.parseHeaderSection (head.drop offset) = .ok headers ∧
      (headers.bytesConsumed = (head.drop offset).length →
        ∃ sanitized, runtime.protocol.removeHopByHopHeaders headers = .ok sanitized)

/-- A deadline passes while every read before it returns data that fits the maximum and
that the budget grants. -/
inductive HitsDeadline (max : Nat) : List Read → Account → Nat → Prop where
  | now (stream : List Read) (account : Account) (length : Nat) : HitsDeadline max (.deadline :: stream) account length
  | interrupted {stream : List Read} {account : Account} {length : Nat} :
      HitsDeadline max stream account length → HitsDeadline max (.interrupted :: stream) account length
  | data {first : UInt8} {rest : List UInt8} {stream : List Read} {account granted : Account} {length : Nat} :
      length + ((first :: rest).take 16384).length ≤ max → account.grow ((first :: rest).take 16384).length = .ok granted →
      HitsDeadline max (Stream.unread ((first :: rest).drop 16384) stream) granted (length + ((first :: rest).take 16384).length) →
      HitsDeadline max (.data first rest :: stream) account length

/-- A body that ends with the connection is read without meeting a deadline. -/
def ClosesInTime (runtime : Runtime) (exchange : UpstreamExchange) (head remainder : List UInt8) (stream : List Read) : Prop :=
  ∀ parsed reserved granted, parseResponseHead runtime exchange head remainder = .ok parsed →
    responseFraming parsed.headers (isBodiless exchange.method parsed.status) = .ok .close →
    Account.reserve exchange.budgets 0 = .ok reserved → remainder.length ≤ runtime.limits.maxResponseBodyBytes →
    reserved.grow remainder.length = .ok granted →
    ¬HitsDeadline runtime.limits.maxResponseBodyBytes stream granted remainder.length

theorem spares_upstream : Fault.sparesClient .upstream := .inr (.inl rfl)

theorem spares_busy : Fault.sparesClient .busy := .inr (.inr (.inl rfl))

theorem spares_internal : Fault.sparesClient .internal := .inl rfl

theorem blames_protocol (error : PolyguardError) : ¬Fault.sparesClient (.protocol error) := by
  cases error <;> simp [Fault.sparesClient,Fault.status]

theorem blames_timeout : ¬Fault.sparesClient .timeout := by simp [Fault.sparesClient,Fault.status]

theorem spares_mapped (fault : Fault) : (mapUpstreamFault fault).sparesClient := by
  cases fault with
  | timeout => exact .inr (.inr (.inr rfl))
  | upstreamTimeout => exact .inr (.inr (.inr rfl))
  | busy => exact spares_busy
  | _ => exact spares_upstream

theorem mapUpstreamFault_timeout (fault : Fault) : IsTimeout (mapUpstreamFault fault) ↔ IsTimeout fault := by
  cases fault <;> simp [IsTimeout,mapUpstreamFault]

theorem timeout_spares {fault : Fault} (timeout : IsTimeout fault) (spares : fault.sparesClient) : fault = .upstreamTimeout := by
  rcases timeout with rfl | rfl
  · exact absurd spares blames_timeout
  · rfl

theorem deadlines_data {room : Nat} {stream next : List Read} {bytes : List UInt8} (answered : Stream.read room stream = (.ok bytes,next)) :
    deadlines next = deadlines stream := by
  rcases deadlines_read answered with ⟨same,_⟩ | ⟨_,kept⟩
  · cases same
  · exact kept

theorem readHeadLoop_timed (max : Nat) (stream : List Read) (bytes : List UInt8) :
    ((readHeadLoop max stream bytes).1 = .error .timeout ∧
      deadlines stream = deadlines (readHeadLoop max stream bytes).2 + 1) ∨
    ((∀ fault, (readHeadLoop max stream bytes).1 = .error fault → ¬IsTimeout fault) ∧
      deadlines (readHeadLoop max stream bytes).2 = deadlines stream) := by
  fun_induction readHeadLoop max stream bytes with
  | case1 stream bytes error next answered =>
    rcases deadlines_read answered with ⟨same,taken⟩ | ⟨other,kept⟩
    · cases same
      exact .inl ⟨rfl,taken⟩
    · refine .inr ⟨?_,kept⟩
      intro fault failed timeout
      cases failed
      exact other (congrArg Except.error ((mapClientIo_timeout error).mp timeout))
  | case2 stream bytes next answered =>
    have kept := deadlines_data answered
    refine .inr ⟨?_,kept⟩
    intro fault failed
    cases failed
    split
    · simp [IsTimeout]
    · simp [IsTimeout]
  | case3 stream bytes first rest next answered joined stop found large =>
    exact .inr ⟨fun fault failed => by cases failed; exact tooLarge_timeless,deadlines_data answered⟩
  | case4 stream bytes first rest next answered joined stop found large => exact .inr ⟨fun fault failed => (by cases failed),deadlines_data answered⟩
  | case5 stream bytes first rest next answered joined missing large =>
    exact .inr ⟨fun fault failed => by cases failed; exact tooLarge_timeless,deadlines_data answered⟩
  | case6 stream bytes first rest next answered joined missing small ih =>
    rw [← deadlines_data answered]
    exact ih

theorem readUpstreamHead_timed (max : Nat) : Counted deadlines IsTimeout (readUpstreamHead max) := by
  intro stream
  have timed := readHeadLoop_timed max stream []
  simp only [readUpstreamHead,readHead]
  cases ran : readHeadLoop max stream [] with
  | mk outcome next =>
    rw [ran] at timed
    cases outcome with
    | ok parts =>
      rcases timed with ⟨same,_⟩ | ⟨_,kept⟩
      · cases same
      · exact kept
    | error fault =>
      rcases timed with ⟨same,taken⟩ | ⟨other,kept⟩
      · cases same
        exact .inl ⟨.inr rfl,taken⟩
      · refine .inr ⟨?_,kept⟩
        rw [mapUpstreamFault_timeout]
        exact other fault rfl

theorem reading_timed {α : Type} {translate : Fault → Fault} (remainder : List UInt8) {step : Reading α} (timed : Timed step)
    (same : ∀ fault, IsTimeout (translate fault) ↔ IsTimeout fault) :
    Counted deadlines IsTimeout (reading translate remainder step) := by
  intro stream
  have counted := timed (BufferedInput.new stream remainder)
  simp only [reading]
  cases ran : step (BufferedInput.new stream remainder) with
  | ok value next =>
    rw [ran] at counted
    exact counted
  | error fault next =>
    rw [ran] at counted
    dsimp only at counted ⊢
    rw [same]
    exact counted

theorem read_inversion {room : Nat} {stream next : List Read} {result : Except IoError (List UInt8)}
    (answered : Stream.read room stream = (result,next)) :
    (stream = [] ∧ result = .ok []) ∨
    (∃ first rest tail, stream = .data first rest :: tail ∧ result = .ok ((first :: rest).take room) ∧
      next = Stream.unread ((first :: rest).drop room) tail) ∨
    (stream = .interrupted :: next ∧ result = .error .interrupted) ∨
    (stream = .deadline :: next ∧ result = .error .timedOut) ∨
    (stream = .failed :: next ∧ result = .error .other) := by
  cases stream with
  | nil =>
    cases answered
    exact .inl ⟨rfl,rfl⟩
  | cons answer tail =>
    cases answer with
    | data first rest =>
      cases answered
      exact .inr (.inl ⟨first,rest,tail,rfl,rfl,rfl⟩)
    | interrupted =>
      cases answered
      exact .inr (.inr (.inl ⟨rfl,rfl⟩))
    | deadline =>
      cases answered
      exact .inr (.inr (.inr (.inl ⟨rfl,rfl⟩)))
    | failed =>
      cases answered
      exact .inr (.inr (.inr (.inr ⟨rfl,rfl⟩)))

theorem read_data {stream next : List Read} {bytes : List UInt8} (some : bytes ≠ []) (answered : Stream.read 16384 stream = (.ok bytes,next)) :
    ∃ first rest tail, stream = .data first rest :: tail ∧ bytes = (first :: rest).take 16384 ∧
      next = Stream.unread ((first :: rest).drop 16384) tail := by
  rcases read_inversion answered with ⟨_,same⟩ | ⟨first,rest,tail,here,same,left⟩ | ⟨_,same⟩ | ⟨_,same⟩ | ⟨_,same⟩
  · cases same
    exact absurd rfl some
  · cases same
    exact ⟨first,rest,tail,here,rfl,left⟩
  · cases same
  · cases same
  · cases same

/-- The loop ends in a timeout exactly when it hits a deadline; its other faults spare the client. -/
theorem readToEofLoop_timed (max : Nat) (stream : List Read) (account : Account) (output : List UInt8) :
    ((readToEofLoop max stream account output).1 = .error .timeout ∧ HitsDeadline max stream account output.length ∧
      deadlines stream = deadlines (readToEofLoop max stream account output).2 + 1) ∨
    ((∀ fault, (readToEofLoop max stream account output).1 = .error fault → fault = .upstream ∨ fault = .busy) ∧
      ¬HitsDeadline max stream account output.length ∧
      deadlines (readToEofLoop max stream account output).2 = deadlines stream) := by
  fun_induction readToEofLoop max stream account output with
  | case1 stream account output next answered =>
    refine .inr ⟨nofun,?_,deadlines_data answered⟩
    intro hits
    rcases read_inversion answered with ⟨here,_⟩ | ⟨first,rest,tail,here,same,_⟩ | ⟨_,same⟩ | ⟨_,same⟩ | ⟨_,same⟩
    · rw [here] at hits
      cases hits
    · cases same
    · cases same
    · cases same
    · cases same
  | case2 stream account output first rest next answered read large =>
    refine .inr ⟨fun fault failed => by cases failed; exact .inl rfl,?_,deadlines_data answered⟩
    intro hits
    obtain ⟨head,tail,later,here,same,_⟩ := read_data (List.cons_ne_nil first rest) answered
    rw [here] at hits
    cases hits with
    | data fits _ _ =>
      rw [← same] at fits
      exact absurd fits (Nat.not_le_of_gt large)
  | case3 stream account output first rest next answered read small granted grown ih =>
    obtain ⟨head,tail,later,here,same,left⟩ := read_data (List.cons_ne_nil first rest) answered
    have onward : HitsDeadline max stream account output.length ↔
        HitsDeadline max next granted (output ++ first :: rest).length := by
      rw [here,left,List.length_append,same]
      constructor
      · intro hits
        cases hits with
        | data fits grows follows =>
          rw [← same] at grows
          rw [grown] at grows
          cases grows
          exact follows
      · intro follows
        refine .data ?_ ?_ follows
        · rw [← same]
          exact Nat.le_of_not_gt small
        · rw [← same]
          exact grown
    rw [onward,← deadlines_data answered]
    exact ih
  | case4 stream account output first rest next answered read small fault refused =>
    refine .inr ⟨?_,?_,deadlines_data answered⟩
    · intro other failed
      cases failed
      exact .inr (grow_fault refused)
    · intro hits
      obtain ⟨head,tail,later,here,same,_⟩ := read_data (List.cons_ne_nil first rest) answered
      rw [here] at hits
      cases hits with
      | data _ grows _ =>
        rw [← same] at grows
        rw [refused] at grows
        cases grows
  | case5 stream account output next answered ih =>
    rcases read_inversion answered with ⟨_,same⟩ | ⟨first,rest,tail,here,same,_⟩ | ⟨here,same⟩ | ⟨_,same⟩ | ⟨_,same⟩
    · cases same
    · cases same
    · have onward : HitsDeadline max stream account output.length ↔ HitsDeadline max next account output.length := by
        rw [here]
        constructor
        · intro hits
          cases hits with
          | interrupted follows => exact follows
        · exact .interrupted
      rw [onward,here]
      exact ih
    · cases same
    · cases same
  | case6 stream account output next answered =>
    rcases read_inversion answered with ⟨_,same⟩ | ⟨first,rest,tail,here,same,_⟩ | ⟨here,same⟩ | ⟨here,_⟩ | ⟨_,same⟩
    · cases same
    · cases same
    · cases same
    · rw [here]
      exact .inl ⟨rfl,.now next account output.length,rfl⟩
    · cases same
  | case7 stream account output error next other other' answered =>
    rcases read_inversion answered with ⟨_,same⟩ | ⟨first,rest,tail,here,same,_⟩ | ⟨here,same⟩ | ⟨here,same⟩ | ⟨here,_⟩
    · cases same
    · cases same
    · cases same
      exact absurd rfl other
    · cases same
      exact absurd rfl other'
    · rw [here]
      refine .inr ⟨fun fault failed => by cases failed; exact .inl rfl,?_,rfl⟩
      intro hits
      cases hits

theorem readToEofBounded_timed (max : Nat) (account : Account) : Timed (BufferedInput.readToEofBounded max account) := by
  intro input
  simp only [BufferedInput.readToEofBounded]
  by_cases large : (input.buffer.drop input.offset).length > max
  · rw [if_pos large]
    exact .inr ⟨by simp [IsTimeout],rfl⟩
  · rw [if_neg large]
    cases grown : account.grow (input.buffer.drop input.offset).length with
    | error fault =>
      refine .inr ⟨?_,rfl⟩
      rw [grow_fault grown]
      exact busy_timeless
    | ok granted =>
      have timed := readToEofLoop_timed max input.stream granted (input.buffer.drop input.offset)
      dsimp only
      cases ran : readToEofLoop max input.stream granted (input.buffer.drop input.offset) with
      | mk outcome next =>
        rw [ran] at timed
        cases outcome with
        | ok result =>
          rcases timed with ⟨same,_⟩ | ⟨_,_,kept⟩
          · cases same
          · exact kept
        | error fault =>
          rcases timed with ⟨same,_,taken⟩ | ⟨spares,_,kept⟩
          · cases same
            exact .inl ⟨.inl rfl,taken⟩
          · refine .inr ⟨?_,kept⟩
            rcases spares fault rfl with rfl | rfl
            · simp [IsTimeout]
            · exact busy_timeless

theorem parseStatusLine_fault {head : List UInt8} {fault : Fault} (failed : parseStatusLine head = .error fault) : fault = .upstream := by
  simp only [parseStatusLine] at failed
  split at failed
  · cases failed
    rfl
  · split at failed
    · cases failed
      rfl
    · split at failed
      · cases failed
        rfl
      · split at failed
        · cases failed
          rfl
        · cases failed

theorem responseFraming_fault {headers : HeaderBlock} {noBody : Bool} {fault : Fault}
    (failed : responseFraming headers noBody = .error fault) : fault = .upstream := by
  simp only [responseFraming] at failed
  split at failed
  · cases failed
  · split at failed
    · cases failed
      rfl
    · split at failed
      · split at failed
        · cases failed
          rfl
        · cases failed
      · split at failed
        · cases failed
          rfl
        · split at failed
          · cases failed
            rfl
          · cases failed
      · cases failed

theorem parseResponseHead_fault {runtime : Runtime} {exchange : UpstreamExchange} {head remainder : List UInt8} {fault : Fault}
    (plain : exchange.configuredResponseHeaders = []) (failed : parseResponseHead runtime exchange head remainder = .error fault) :
    fault = .upstream ∨ ((∃ error, fault = .protocol error) ∧ ¬HeadersAccepted runtime head) := by
  simp only [parseResponseHead] at failed
  cases started : parseStatusLine head with
  | error other =>
    rw [started] at failed
    cases failed
    exact .inl (parseStatusLine_fault started)
  | ok status =>
    obtain ⟨status,reason,offset⟩ := status
    rw [started] at failed
    simp only [bind,Except.bind] at failed
    split at failed
    · cases failed
      exact .inl rfl
    · rename_i final
      cases sectioned : runtime.protocol.parseHeaderSection (head.drop offset) with
      | error error =>
        rw [sectioned] at failed
        cases failed
        refine .inr ⟨⟨error,rfl⟩,?_⟩
        intro accepted
        obtain ⟨headers,parsed,_⟩ := accepted status reason offset started final
        rw [sectioned] at parsed
        cases parsed
      | ok headers =>
        rw [sectioned] at failed
        simp only [agreed] at failed
        split at failed
        · cases failed
          exact .inl rfl
        · rename_i whole
          cases removed : runtime.protocol.removeHopByHopHeaders headers with
          | error error =>
            rw [removed] at failed
            cases failed
            refine .inr ⟨⟨error,rfl⟩,?_⟩
            intro accepted
            obtain ⟨others,parsed,follows⟩ := accepted status reason offset started final
            rw [sectioned] at parsed
            cases parsed
            obtain ⟨sanitized,ok⟩ := follows (not_not.mp whole)
            rw [removed] at ok
            cases ok
          | ok sanitized =>
            rw [removed,plain] at failed
            cases failed

theorem parseResponseHead_blames {runtime : Runtime} {exchange : UpstreamExchange} {head : List UInt8} (remainder : List UInt8)
    (rejected : ¬HeadersAccepted runtime head) :
    ∃ error, parseResponseHead runtime exchange head remainder = .error (.protocol error) := by
  simp only [HeadersAccepted,not_forall] at rejected
  obtain ⟨status,reason,offset,started,final,rejected⟩ := rejected
  simp only [parseResponseHead,started,bind,Except.bind,if_neg final]
  cases sectioned : runtime.protocol.parseHeaderSection (head.drop offset) with
  | error error => exact ⟨error,rfl⟩
  | ok headers =>
    simp only [agreed]
    by_cases whole : headers.bytesConsumed = (head.drop offset).length
    · cases removed : runtime.protocol.removeHopByHopHeaders headers with
      | error error => exact ⟨error,by simp only [ne_eq,whole,not_true,if_false]⟩
      | ok sanitized => exact absurd ⟨headers,sectioned,fun _ => ⟨sanitized,removed⟩⟩ rejected
    · exact absurd ⟨headers,sectioned,fun same => absurd same whole⟩ rejected

theorem gzipBodyAccounted_fault {runtime : Runtime} {accepted : Bool} {contentType body : List UInt8} {account : Account} {fault : Fault}
    (failed : gzipBodyAccounted runtime accepted contentType body account = .error fault) : fault = .internal ∨ fault = .busy := by
  simp only [gzipBodyAccounted] at failed
  split at failed
  · cases failed
  · split at failed
    · cases failed
    · split at failed
      · cases failed
      · split at failed
        · rename_i encoded
          cases failed
          simp only [gzipBody] at encoded
          split at encoded
          · cases encoded
          · split at encoded
            · cases encoded
            · cases encoded
              exact .inl rfl
        · cases failed
          exact .inl rfl
        · split at failed
          · cases failed
            exact .inl rfl
          · split at failed
            · cases failed
            · rename_i absorbed
              cases failed
              exact .inr (absorb_fault absorbed)

theorem compressResponse_fault {runtime : Runtime} {acceptsGzip : Bool} {fields : List HeaderField} {body : List UInt8}
    {account : Account} {fault : Fault} (failed : compressResponse runtime acceptsGzip fields body account = .error fault) :
    fault = .internal ∨ fault = .busy := by
  simp only [compressResponse] at failed
  split at failed
  · cases failed
  · split at failed
    · cases failed
    · split at failed
      · rename_i zipped
        cases failed
        exact gzipBodyAccounted_fault zipped
      · cases failed
      · cases failed

theorem spares_internal_or_busy {fault : Fault} (kind : fault = .internal ∨ fault = .busy) :
    fault.sparesClient ∧ ¬IsTimeout fault := by
  rcases kind with rfl | rfl
  · exact ⟨spares_internal,by simp [IsTimeout]⟩
  · exact ⟨spares_busy,busy_timeless⟩

section
variable (runtime : Runtime) (exchange : UpstreamExchange) (head : ResponseHead)

theorem reserve_timed (bytes : Nat) :
    Counted deadlines IsTimeout (MonadExcept.ofExcept (Account.reserve exchange.budgets bytes) : Exchanging Account) := by
  refine .fromExcept ?_
  intro fault refused
  rw [reserve_fault refused]
  exact busy_timeless

theorem readResponseBody_timed (framing : ResponseFraming) :
    Counted deadlines IsTimeout (readResponseBody runtime exchange head framing) := by
  cases framing with
  | none => exact .bind (reserve_timed exchange 0) fun _ => .pure _
  | length length =>
    refine .ite (.throw (by simp [IsTimeout])) (.bind (reserve_timed exchange length) ?_)
    intro account
    exact .bind (reading_timed _ (BufferedInput.readExactVec_timed length) mapUpstreamFault_timeout) fun _ => .pure _
  | chunked =>
    refine .bind (reserve_timed exchange 0) ?_
    intro account
    exact reading_timed _ (readChunkedLoop_timed _ _ _ _ _ _) mapUpstreamFault_timeout
  | close =>
    refine .bind (reserve_timed exchange 0) ?_
    intro account
    exact reading_timed _ (readToEofBounded_timed _ _) fun _ => Iff.rfl

theorem readResponse_timed : Counted deadlines IsTimeout (readResponse runtime exchange head) := by
  refine .bind (.fromExcept ?_) ?_
  · intro fault failed
    rw [responseFraming_fault failed]
    simp [IsTimeout]
  · intro framing
    refine .bind (readResponseBody_timed runtime exchange head framing) ?_
    rintro ⟨body,account⟩
    refine .bind (.fromExcept ?_) fun _ => .pure _
    intro fault failed
    exact (spares_internal_or_busy (compressResponse_fault failed)).2

theorem exchangeUpstream_timed (plain : exchange.configuredResponseHeaders = []) :
    Counted deadlines IsTimeout (exchangeUpstream runtime exchange) := by
  refine .ite (.throw (by simp [IsTimeout])) (.bind (readUpstreamHead_timed _) ?_)
  rintro ⟨head,remainder⟩
  refine .bind (.fromExcept ?_) fun head => readResponse_timed runtime exchange head
  intro fault failed
  rcases parseResponseHead_fault plain failed with rfl | ⟨⟨error,rfl⟩,_⟩
  · simp [IsTimeout]
  · exact protocol_timeless error

theorem reserve_raises (bytes : Nat) : Raises Fault.sparesClient
    (MonadExcept.ofExcept (Account.reserve exchange.budgets bytes) : Exchanging Account) := by
  refine .fromExcept ?_
  intro fault refused
  rw [reserve_fault refused]
  exact spares_busy

theorem reading_raises {α : Type} (remainder : List UInt8) (step : Reading α) :
    Raises Fault.sparesClient (reading mapUpstreamFault remainder step) := by
  intro stream fault next failed
  simp only [reading] at failed
  cases ran : step (BufferedInput.new stream remainder) with
  | ok value input =>
    rw [ran] at failed
    cases failed
  | error other input =>
    rw [ran] at failed
    cases failed
    exact spares_mapped other

theorem readResponseBody_raises {framing : ResponseFraming} (bounded : framing ≠ .close) :
    Raises Fault.sparesClient (readResponseBody runtime exchange head framing) := by
  cases framing with
  | none => exact .bind (reserve_raises exchange 0) fun _ => .pure _
  | length length =>
    refine .ite (.throw spares_upstream) (.bind (reserve_raises exchange length) ?_)
    intro account
    exact .bind (reading_raises _ _) fun _ => .pure _
  | chunked => exact .bind (reserve_raises exchange 0) fun account => reading_raises _ _
  | close => exact absurd rfl bounded

theorem readToEofBounded_fault {max : Nat} {account : Account} {stream : List Read} {remainder : List UInt8} {fault : Fault}
    {next : BufferedInput}
    (failed : BufferedInput.readToEofBounded max account (BufferedInput.new stream remainder) = .error fault next) :
    fault.sparesClient ∨ ∃ granted, remainder.length ≤ max ∧ account.grow remainder.length = .ok granted ∧
      HitsDeadline max stream granted remainder.length := by
  simp only [BufferedInput.readToEofBounded,BufferedInput.new,List.drop_zero] at failed
  by_cases large : remainder.length > max
  · rw [if_pos large] at failed
    cases failed
    exact .inl spares_upstream
  · rw [if_neg large] at failed
    cases grown : account.grow remainder.length with
    | error other =>
      rw [grown] at failed
      cases failed
      rw [grow_fault grown]
      exact .inl spares_busy
    | ok granted =>
      rw [grown] at failed
      have timed := readToEofLoop_timed max stream granted remainder
      dsimp only at failed
      cases ran : readToEofLoop max stream granted remainder with
      | mk outcome left =>
        rw [ran] at failed timed
        cases outcome with
        | ok result => cases failed
        | error other =>
          cases failed
          rcases timed with ⟨_,hits,_⟩ | ⟨spares,_,_⟩
          · exact .inr ⟨granted,by omega,rfl,hits⟩
          · rcases spares fault rfl with rfl | rfl
            · exact .inl spares_upstream
            · exact .inl spares_busy

theorem readToEofBounded_deadline {max : Nat} {account granted : Account} {stream : List Read} {remainder : List UInt8}
    (fits : remainder.length ≤ max) (grown : account.grow remainder.length = .ok granted)
    (hits : HitsDeadline max stream granted remainder.length) :
    ∃ next, BufferedInput.readToEofBounded max account (BufferedInput.new stream remainder) = .error .timeout next := by
  have timed := readToEofLoop_timed max stream granted remainder
  simp only [BufferedInput.readToEofBounded,BufferedInput.new,List.drop_zero,if_neg (Nat.not_lt.mpr fits),grown]
  cases ran : readToEofLoop max stream granted remainder with
  | mk outcome left =>
    rw [ran] at timed
    rcases timed with ⟨same,_,_⟩ | ⟨_,misses,_⟩
    · cases same
      exact ⟨_,rfl⟩
    · exact absurd hits misses

end

theorem bind_failed {α β σ : Type} {first : EStateM Fault σ α} {next : α → EStateM Fault σ β} {state last : σ} {fault : Fault}
    (failed : (first >>= next) state = .error fault last) :
    first state = .error fault last ∨ ∃ value middle, first state = .ok value middle ∧ next value middle = .error fault last := by
  simp only [bind,EStateM.bind] at failed
  cases ran : first state with
  | ok value middle =>
    rw [ran] at failed
    exact .inr ⟨value,middle,rfl,failed⟩
  | error other middle =>
    rw [ran] at failed
    cases failed
    exact .inl rfl

theorem ofExcept_failed {α σ : Type} {result : Outcome α} {state last : σ} {fault : Fault}
    (failed : (MonadExcept.ofExcept result : EStateM Fault σ α) state = .error fault last) : result = .error fault := by
  cases result with
  | ok value => cases failed
  | error other =>
    cases failed
    rfl

theorem ofExcept_done {α σ : Type} {result : Outcome α} {state last : σ} {value : α}
    (done : (MonadExcept.ofExcept result : EStateM Fault σ α) state = .ok value last) : result = .ok value ∧ state = last := by
  cases result with
  | ok other =>
    cases done
    exact ⟨rfl,rfl⟩
  | error other => cases done

theorem readResponse_fault {runtime : Runtime} {exchange : UpstreamExchange} {head : ResponseHead} {stream rest : List Read}
    {fault : Fault} (failed : readResponse runtime exchange head stream = .error fault rest) :
    fault.sparesClient ∨ ∃ reserved granted,
      responseFraming head.headers (isBodiless exchange.method head.status) = .ok .close ∧
      Account.reserve exchange.budgets 0 = .ok reserved ∧
      head.remainder.length ≤ runtime.limits.maxResponseBodyBytes ∧ reserved.grow head.remainder.length = .ok granted ∧
      HitsDeadline runtime.limits.maxResponseBodyBytes stream granted head.remainder.length := by
  rcases bind_failed failed with framed | ⟨framing,middle,framed,continued⟩
  · rw [responseFraming_fault (ofExcept_failed framed)]
    exact .inl spares_upstream
  · obtain ⟨chosen,rfl⟩ := ofExcept_done framed
    rcases bind_failed continued with body | ⟨⟨body,account⟩,later,_,finished⟩
    · by_cases closes : framing = .close
      · subst closes
        rcases bind_failed body with refused | ⟨reserved,same,granted,closing⟩
        · exact .inl (reserve_raises exchange 0 _ _ _ refused)
        · obtain ⟨reserves,rfl⟩ := ofExcept_done granted
          simp only [reading] at closing
          cases ran : BufferedInput.readToEofBounded runtime.limits.maxResponseBodyBytes reserved
              (BufferedInput.new stream head.remainder) with
          | ok value input =>
            rw [ran] at closing
            cases closing
          | error other input =>
            rw [ran] at closing
            cases closing
            rcases readToEofBounded_fault ran with spares | ⟨grown,fits,grows,hits⟩
            · exact .inl spares
            · exact .inr ⟨reserved,grown,chosen,reserves,fits,grows,hits⟩
      · exact .inl (readResponseBody_raises runtime exchange head closes _ _ _ body)
    · rcases bind_failed finished with zipped | ⟨_,_,_,returned⟩
      · exact .inl (spares_internal_or_busy (compressResponse_fault (ofExcept_failed zipped))).1
      · cases returned

theorem exchanged_read {runtime : Runtime} {exchange : UpstreamExchange} {head remainder : List UInt8} {stream : List Read}
    (near : reaches exchange.upstream)
    (read : readHead exchange.upstream.sends runtime.limits.maxResponseHeaderBytes = (.ok (head,remainder),stream)) :
    exchanged runtime exchange = ((MonadExcept.ofExcept (parseResponseHead runtime exchange head remainder) : Exchanging ResponseHead) >>=
      readResponse runtime exchange) stream := by
  simp only [exchanged,exchangeUpstream,near,Bool.not_true,Bool.false_eq_true,if_false]
  simp only [bind,EStateM.bind,readUpstreamHead,read]

theorem parseResponseHead_remainder {runtime : Runtime} {exchange : UpstreamExchange} {head remainder : List UInt8} {parsed : ResponseHead}
    (done : parseResponseHead runtime exchange head remainder = .ok parsed) : parsed.remainder = remainder := by
  simp only [parseResponseHead,bind,Except.bind] at done
  split at done
  · cases done
  · split at done
    · cases done
    · split at done
      · cases done
      · split at done
        · cases done
        · split at done
          · cases done
          · split at done
            · cases done
            · cases done
              rfl

theorem readResponse_deadline {runtime : Runtime} {exchange : UpstreamExchange} {head : ResponseHead} {stream : List Read}
    {reserved granted : Account} (framed : responseFraming head.headers (isBodiless exchange.method head.status) = .ok .close)
    (reserves : Account.reserve exchange.budgets 0 = .ok reserved)
    (fits : head.remainder.length ≤ runtime.limits.maxResponseBodyBytes) (grows : reserved.grow head.remainder.length = .ok granted)
    (hits : HitsDeadline runtime.limits.maxResponseBodyBytes stream granted head.remainder.length) :
    ∃ rest, readResponse runtime exchange head stream = .error .timeout rest := by
  obtain ⟨next,ran⟩ := readToEofBounded_deadline fits grows hits
  refine ⟨next.stream,?_⟩
  simp only [readResponse,framed,MonadExcept.ofExcept,readResponseBody,reserves]
  simp only [bind,EStateM.bind,pure,EStateM.pure,reading,ran]
  rfl

/-- A failed exchange spares the client exactly when the header functions accept the
header section and a body that ends with the connection meets no deadline. -/
theorem spares_client_iff (runtime : Runtime) (exchange : UpstreamExchange) (plain : exchange.configuredResponseHeaders = []) :
    SparesClient runtime exchange ↔ (reaches exchange.upstream → ∀ head remainder stream,
      readHead exchange.upstream.sends runtime.limits.maxResponseHeaderBytes = (.ok (head,remainder),stream) →
        HeadersAccepted runtime head ∧ ClosesInTime runtime exchange head remainder stream) := by
  constructor
  · intro spares near head remainder stream read
    have runs := exchanged_read near read
    constructor
    · by_contra rejected
      obtain ⟨error,failed⟩ := parseResponseHead_blames remainder rejected
      rw [failed] at runs
      exact blames_protocol error (spares.1 _ _ runs).1
    · intro parsed reserved granted done framed reserves fits grows hits
      have left := parseResponseHead_remainder done
      rw [← left] at fits grows hits
      obtain ⟨rest,timeout⟩ := readResponse_deadline framed reserves fits grows hits
      rw [done] at runs
      exact blames_timeout (spares.1 _ _ (runs.trans timeout)).1
  · intro condition
    have timed := exchangeUpstream_timed runtime exchange plain exchange.upstream.sends
    have spares : ∀ fault rest, exchanged runtime exchange = .error fault rest → fault.sparesClient := by
      intro fault rest failed
      by_cases near : reaches exchange.upstream = true
      · cases read : readHead exchange.upstream.sends runtime.limits.maxResponseHeaderBytes with
        | mk outcome stream =>
          cases outcome with
          | error other =>
            simp only [exchanged,exchangeUpstream,near,Bool.not_true,Bool.false_eq_true,if_false] at failed
            simp only [bind,EStateM.bind,readUpstreamHead,read] at failed
            cases failed
            exact spares_mapped other
          | ok parts =>
            obtain ⟨head,remainder⟩ := parts
            obtain ⟨accepted,closes⟩ := condition near head remainder stream read
            rw [exchanged_read near read] at failed
            rcases bind_failed failed with rejected | ⟨parsed,middle,done,continued⟩
            · rcases parseResponseHead_fault plain (ofExcept_failed rejected) with rfl | ⟨_,refused⟩
              · exact spares_upstream
              · exact absurd accepted refused
            · obtain ⟨found,rfl⟩ := ofExcept_done done
              rcases readResponse_fault continued with spared | ⟨reserved,granted,framed,reserves,fits,grows,hits⟩
              · exact spared
              · rw [parseResponseHead_remainder found] at fits grows hits
                exact absurd hits (closes parsed reserved granted found framed reserves fits grows)
      · simp only [exchanged,exchangeUpstream,near] at failed
        cases failed
        exact spares_upstream
    constructor
    · intro fault rest failed
      refine ⟨spares fault rest failed,?_⟩
      intro met
      rw [← exchanged,failed] at timed
      rcases timed with ⟨timeout,_⟩ | ⟨_,kept⟩
      · exact timeout_spares timeout (spares fault rest failed)
      · exact absurd kept met
    · intro response rest done
      rw [← exchanged,done] at timed
      exact timed

/-- A runtime with agreed header functions of the registry. -/
def plainRuntime : Runtime where
  compression := ⟨false,1024,[ascii "text/plain"]⟩
  limits := ⟨65536,16777216⟩
  protocol := ⟨HeaderTypedCursor.parseHeaderSection,HopByHopRuleTable.removeHopByHopHeaders,fun _ => .error .incomplete,
    fun _ _ => .error .incomplete⟩
  encode := fun _ => none

def plainExchange (sends : List Read) : UpstreamExchange where
  upstream := ⟨true,true,true,sends⟩
  method := ascii "get"
  acceptsGzip := false
  clientKeepAlive := true
  configuredResponseHeaders := []
  templateContext := ⟨[],[],[],[],[],[]⟩
  budgets := fun _ => ⟨0,67108864⟩

/-- A head without a declared length, behind its first byte. -/
def openHead : List UInt8 := ascii "TTP/1.1 200 OK" ++ [0x0d,0x0a,0x0d,0x0a]

/-- A deadline before the first byte of the response is the upstream's. -/
theorem spares_client_silent : SparesClient plainRuntime (plainExchange [.deadline]) := by
  refine (spares_client_iff plainRuntime (plainExchange [.deadline]) rfl).mpr ?_
  intro _ head remainder stream read
  have failed : readHead [.deadline] 65536 = (.error .timeout,[]) := by
    rw [readHead,readHeadLoop]
    rfl
  cases failed.symm.trans read

/-- A deadline inside a body that ends with the connection is reported as the client's. -/
theorem spares_client_fails : ¬∀ runtime exchange, exchange.configuredResponseHeaders = [] → SparesClient runtime exchange := by
  intro claim
  have spares := claim plainRuntime (plainExchange [.data 0x48 openHead,.deadline]) rfl
  have stop : findSequence (0x48 :: openHead) [0x0d,0x0a,0x0d,0x0a] = some 15 := by decide
  have read : readHead (plainExchange [.data 0x48 openHead,.deadline]).upstream.sends plainRuntime.limits.maxResponseHeaderBytes =
      (.ok (0x48 :: openHead,[]),[.deadline]) := readHead_once (by decide) stop (by decide) [.deadline]
  have parsed : parseResponseHead plainRuntime (plainExchange [.data 0x48 openHead,.deadline]) (0x48 :: openHead) [] =
      .ok ⟨200,ascii "OK",⟨[],2⟩,⟨[],[]⟩,[]⟩ := by decide +kernel
  have runs := exchanged_read (by decide) read
  rw [parsed] at runs
  have reserves : Account.reserve (plainExchange [.data 0x48 openHead,.deadline]).budgets 0 = .ok ⟨0,fun _ => ⟨0,67108864⟩⟩ := rfl
  have grows : (⟨0,fun _ => ⟨0,67108864⟩⟩ : Account).grow 0 = .ok ⟨0,fun _ => ⟨0,67108864⟩⟩ := rfl
  obtain ⟨rest,timeout⟩ : ∃ rest, readResponse plainRuntime (plainExchange [.data 0x48 openHead,.deadline])
      ⟨200,ascii "OK",⟨[],2⟩,⟨[],[]⟩,[]⟩ [.deadline] = .error .timeout rest :=
    readResponse_deadline (by decide) reserves (Nat.zero_le _) grows (.now [] _ _)
  exact blames_timeout (spares.1 _ _ (runs.trans timeout)).1

end Polyguard.Proxy
