import Polyguard.Proxy.LegacyRoutes
import Polyguard.Header.Implementations
import Polyguard.HopByHop.Implementations

/-! Responses without a body.
A response to `head` or with status 204 or 304 is framed as empty. The gzip stage then
sees an empty body, which it may still compress. -/
namespace Polyguard.Proxy
open Ascii

/-- The head of the response as the exchange reads it, when it gets that far. -/
def receivedHead (runtime : Runtime) (exchange : UpstreamExchange) : Option ResponseHead :=
  match readHead exchange.upstream.sends runtime.limits.maxResponseHeaderBytes with
  | (.ok (head,remainder),_) => (parseResponseHead runtime exchange head remainder).toOption
  | (.error _,_) => none

/-- The responses that must not have a body. -/
def mustBeEmpty (exchange : UpstreamExchange) (head : ResponseHead) : Prop :=
  exchange.method = ascii "head" ∨ head.status = 204 ∨ head.status = 304

def StaysBodiless (runtime : Runtime) (exchange : UpstreamExchange) : Prop :=
  ∀ head response rest, receivedHead runtime exchange = some head → mustBeEmpty exchange head →
    exchanged runtime exchange = .ok response rest → response.body = []

/-- The gzip stage is reached with an empty body and takes it: there is no minimum
size, the client accepts gzip, the media type is configured and the budget has room. -/
structure CompressesEmpty (runtime : Runtime) (exchange : UpstreamExchange) (head : ResponseHead) : Prop where
  reached : reaches exchange.upstream
  received : receivedHead runtime exchange = some head
  empty : mustBeEmpty exchange head
  enabled : runtime.compression.enabled
  accepted : exchange.acceptsGzip
  unbounded : runtime.compression.minSizeBytes = 0
  plain : ¬isEncoded head.sanitized.fields
  matched : ∃ contentType, contentTypeOf head.sanitized.fields = some contentType ∧
    compressionTypeMatches runtime.compression contentType
  room : Account.grants (exchange.budgets 0) 0 ∧ Account.grants (exchange.budgets 1) 64

theorem exchanged_unreached {runtime : Runtime} {exchange : UpstreamExchange} (away : reaches exchange.upstream = false) :
    exchanged runtime exchange = .error .upstream exchange.upstream.sends := by
  rw [exchanged,exchangeUpstream,away]
  rfl

theorem exchanged_received {runtime : Runtime} {exchange : UpstreamExchange} {head : ResponseHead}
    (near : reaches exchange.upstream) (received : receivedHead runtime exchange = some head) :
    ∃ stream, exchanged runtime exchange = readResponse runtime exchange head stream := by
  rw [receivedHead] at received
  simp only [exchanged,exchangeUpstream,near,Bool.not_true,Bool.false_eq_true,if_false]
  simp only [bind,EStateM.bind,readUpstreamHead]
  cases answered : readHead exchange.upstream.sends runtime.limits.maxResponseHeaderBytes with
  | mk outcome stream =>
    rw [answered] at received
    cases outcome with
    | error fault => cases received
    | ok parts =>
      cases parsed : parseResponseHead runtime exchange parts.1 parts.2 with
      | error fault =>
        simp only [parsed] at received
        cases received
      | ok found =>
        simp only [parsed] at received
        cases received
        exact ⟨stream,by simp only [parsed]; rfl⟩

theorem mustBeEmpty_bodiless {exchange : UpstreamExchange} {head : ResponseHead} (empty : mustBeEmpty exchange head) :
    isBodiless exchange.method head.status = true := by
  rcases empty with method | status | status
  · simp [isBodiless,method]
  · simp [isBodiless,status]
  · simp [isBodiless,status]

section
variable (runtime : Runtime) {exchange : UpstreamExchange} {head : ResponseHead} (empty : mustBeEmpty exchange head)
  (stream : List Read)
include empty

theorem readResponse_refused {fault : Fault} (refused : Account.reserve exchange.budgets 0 = .error fault) :
    readResponse runtime exchange head stream = .error fault stream := by
  simp only [readResponse,responseFraming,mustBeEmpty_bodiless empty,if_true]
  simp only [MonadExcept.ofExcept,readResponseBody,refused]
  rfl

theorem readResponse_failed {account : Account} {fault : Fault} (reserved : Account.reserve exchange.budgets 0 = .ok account)
    (failed : compressResponse runtime exchange.acceptsGzip head.sanitized.fields [] account = .error fault) :
    readResponse runtime exchange head stream = .error fault stream := by
  simp only [readResponse,responseFraming,mustBeEmpty_bodiless empty,if_true]
  simp only [MonadExcept.ofExcept,readResponseBody,reserved]
  simp only [bind,EStateM.bind,pure,EStateM.pure,failed]
  rfl

theorem readResponse_compressed {account covered : Account} {fields : List HeaderField} {body : List UInt8}
    (reserved : Account.reserve exchange.budgets 0 = .ok account)
    (compressed : compressResponse runtime exchange.acceptsGzip head.sanitized.fields [] account = .ok (fields,body,covered)) :
    readResponse runtime exchange head stream = .ok
      ⟨serializeResponseHead head.status head.reason fields body.length exchange.clientKeepAlive,body,covered⟩ stream := by
  simp only [readResponse,responseFraming,mustBeEmpty_bodiless empty,if_true]
  simp only [MonadExcept.ofExcept,readResponseBody,reserved]
  simp only [bind,EStateM.bind,pure,EStateM.pure,compressed]

end

theorem reserve_granted {budgets : Nat → Memory.Budget} {bytes : Nat} {account : Account}
    (reserved : Account.reserve budgets bytes = .ok account) :
    Account.grants (budgets 0) bytes ∧ account = ⟨bytes,fun later => budgets (later + 1)⟩ := by
  simp only [Account.reserve] at reserved
  split at reserved
  · rename_i granted
    cases reserved
    exact ⟨granted,rfl⟩
  · cases reserved

theorem gzipApplies_empty {config : CompressionConfig} {accepted : Bool} {contentType : List UInt8} :
    gzipApplies config accepted contentType [] = true ↔
      config.enabled ∧ accepted ∧ config.minSizeBytes = 0 ∧ compressionTypeMatches config contentType := by
  simp only [gzipApplies,List.length_nil,Nat.le_zero,Bool.and_eq_true,decide_eq_true_eq,and_assoc]

theorem compressResponse_empty {runtime : Runtime} {acceptsGzip : Bool} {fields sent : List HeaderField} {body : List UInt8}
    {account covered : Account} (compressed : compressResponse runtime acceptsGzip fields [] account = .ok (sent,body,covered)) :
    body = [] ∨ (¬isEncoded fields ∧ Account.grants (account.budgets 0) 64 ∧ ∃ contentType, contentTypeOf fields = some contentType ∧
      gzipApplies runtime.compression acceptsGzip contentType []) := by
  simp only [compressResponse] at compressed
  split at compressed
  · cases compressed
    exact .inl rfl
  · rename_i plain
    split at compressed
    · cases compressed
      exact .inl rfl
    · rename_i contentType typed
      simp only [gzipBodyAccounted] at compressed
      by_cases applies : gzipApplies runtime.compression acceptsGzip contentType [] = true
      · by_cases room : Account.grants (account.budgets 0) 64 = true
        · exact .inr ⟨plain,room,contentType,typed,applies⟩
        · have bound : allocationBound ([] : List UInt8).length = some 64 := rfl
          simp only [applies,bound,Account.reserve,room] at compressed
          cases compressed
          exact .inl rfl
      · simp only [applies] at compressed
        cases compressed
        exact .inl rfl

theorem absorb_start (budgets : Nat → Memory.Budget) : (⟨0,budgets⟩ : Account).absorb 64 = .ok ⟨64,budgets⟩ := rfl

theorem compressResponse_taken {runtime : Runtime} {acceptsGzip : Bool} {fields : List HeaderField} {contentType encoded : List UInt8}
    (budgets : Nat → Memory.Budget) (plain : ¬isEncoded fields) (typed : contentTypeOf fields = some contentType)
    (applies : gzipApplies runtime.compression acceptsGzip contentType []) (room : Account.grants (budgets 0) 64)
    (encodes : runtime.encode [] = some encoded) (short : encoded.length ≤ 64) :
    ∃ sent covered, compressResponse runtime acceptsGzip fields [] ⟨0,budgets⟩ = .ok (sent,encoded,covered) := by
  have bound : allocationBound ([] : List UInt8).length = some 64 := rfl
  have bounded : ¬encoded.length > 64 := by omega
  have taken : gzipBodyAccounted runtime acceptsGzip contentType [] ⟨0,budgets⟩ =
      .ok (some encoded,⟨64,fun later => budgets (later + 1)⟩) := by
    simp only [gzipBodyAccounted,gzipBody,Account.reserve,applies,bound,room,encodes,Bool.not_true,Bool.false_eq_true,
      if_false,if_true,bounded,absorb_start]
  rw [compressResponse,if_neg plain,typed]
  simp only [taken]
  exact ⟨_,_,rfl⟩

/-- A response that must be empty is, exactly when the gzip stage does not compress the
empty body. The encoder writes a header and a trailer for an empty body, within the bound. -/
theorem bodiless_iff (runtime : Runtime) (exchange : UpstreamExchange)
    (encodes : ∃ encoded, runtime.encode [] = some encoded ∧ encoded ≠ [] ∧ encoded.length ≤ 64) :
    StaysBodiless runtime exchange ↔ ¬∃ head, CompressesEmpty runtime exchange head := by
  obtain ⟨encoded,encodes,written,short⟩ := encodes
  constructor
  · rintro stays ⟨head,compresses⟩
    obtain ⟨contentType,typed,configured⟩ := compresses.matched
    obtain ⟨first,second⟩ := compresses.room
    have applies := gzipApplies_empty.mpr ⟨compresses.enabled,compresses.accepted,compresses.unbounded,configured⟩
    obtain ⟨stream,runs⟩ := exchanged_received compresses.reached compresses.received
    have reserved : Account.reserve exchange.budgets 0 = .ok ⟨0,fun later => exchange.budgets (later + 1)⟩ := by
      rw [Account.reserve,if_pos first]
    obtain ⟨sent,covered,compressed⟩ := compressResponse_taken (fun later => exchange.budgets (later + 1)) compresses.plain typed applies second encodes short
    rw [readResponse_compressed runtime compresses.empty stream reserved compressed] at runs
    exact written (stays head _ _ compresses.received compresses.empty runs)
  · intro free head response rest received empty ran
    by_cases near : reaches exchange.upstream = true
    · obtain ⟨stream,runs⟩ := exchanged_received near received
      rw [ran] at runs
      cases reserved : Account.reserve exchange.budgets 0 with
      | error fault =>
        rw [readResponse_refused runtime empty stream reserved] at runs
        cases runs
      | ok account =>
        cases compressed : compressResponse runtime exchange.acceptsGzip head.sanitized.fields [] account with
        | error fault =>
          rw [readResponse_failed runtime empty stream reserved compressed] at runs
          cases runs
        | ok result =>
          obtain ⟨fields,body,covered⟩ := result
          rw [readResponse_compressed runtime empty stream reserved compressed] at runs
          cases runs
          rcases compressResponse_empty compressed with nothing | ⟨plain,room,contentType,typed,applies⟩
          · exact nothing
          · obtain ⟨granted,rfl⟩ := reserve_granted reserved
            obtain ⟨enabled,accepted,unbounded,configured⟩ := gzipApplies_empty.mp applies
            exact absurd ⟨head,near,received,empty,enabled,accepted,unbounded,plain,⟨contentType,typed,configured⟩,granted,room⟩ free
    · rw [exchanged_unreached (Bool.eq_false_iff.mpr near)] at ran
      cases ran

/-- A gzip member for no bytes. -/
def emptyMember : List UInt8 := [0x1f,0x8b,0x08,0,0,0,0,0,0,0xff,0x03,0,0,0,0,0,0,0,0,0]

/-- A configuration that compresses plain text of any size. -/
def eagerConfig : Config := { sampleConfig with compression := ⟨true,0,[ascii "text/plain"]⟩ }

def eagerRuntime : Runtime where
  compression := eagerConfig.compression
  limits := eagerConfig.limits.toLimits
  protocol := ⟨HeaderTypedCursor.parseHeaderSection,HopByHopRuleTable.removeHopByHopHeaders,fun _ => .error .incomplete,
    fun _ _ => .error .incomplete⟩
  encode := fun _ => some emptyMember

def noContent : List UInt8 :=
  ascii "TTP/1.1 204 No Content" ++ [0x0d,0x0a] ++ ascii "content-type: text/plain" ++ [0x0d,0x0a,0x0d,0x0a]

/-- A 204 response of a type that is compressed, to a client that accepts gzip. -/
def noContentExchange (acceptsGzip : Bool) : UpstreamExchange where
  upstream := ⟨true,true,true,[.data 0x48 noContent]⟩
  method := ascii "get"
  acceptsGzip := acceptsGzip
  clientKeepAlive := true
  configuredResponseHeaders := []
  templateContext := ⟨[],[],[],[],[],[]⟩
  budgets := fun _ => ⟨0,67108864⟩

def noContentHead : ResponseHead where
  status := 204
  reason := ascii "No Content"
  headers := ⟨[⟨ascii "content-type",ascii "text/plain"⟩],28⟩
  sanitized := ⟨[⟨ascii "content-type",ascii "text/plain"⟩],[]⟩
  remainder := []

theorem receivedHead_read {runtime : Runtime} {exchange : UpstreamExchange} {head remainder : List UInt8} {stream : List Read}
    (read : readHead exchange.upstream.sends runtime.limits.maxResponseHeaderBytes = (.ok (head,remainder),stream)) :
    receivedHead runtime exchange = (parseResponseHead runtime exchange head remainder).toOption := by
  rw [receivedHead,read]

theorem receivedHead_noContent (acceptsGzip : Bool) :
    receivedHead eagerRuntime (noContentExchange acceptsGzip) = some noContentHead := by
  have stop : findSequence (0x48 :: noContent) [0x0d,0x0a,0x0d,0x0a] = some 49 := by decide
  rw [receivedHead_read (readHead_once (by decide) stop (by decide) [])]
  cases acceptsGzip with
  | true => decide +kernel
  | false => decide +kernel

/-- A client that does not accept gzip gets no body. -/
theorem bodiless_iff_plain : StaysBodiless eagerRuntime (noContentExchange false) := by
  refine (bodiless_iff eagerRuntime (noContentExchange false) ⟨emptyMember,rfl,by decide,by decide⟩).mpr ?_
  rintro ⟨head,compresses⟩
  exact absurd compresses.accepted (by decide)

/-- A valid configuration without a minimum size sends a gzip member as the body of a 204 response. -/
theorem bodiless_fails : validateConfig (fun _ => false) eagerConfig = .ok () ∧
    ¬StaysBodiless eagerRuntime (noContentExchange true) := by
  refine ⟨by decide +kernel,?_⟩
  intro stays
  have room : Account.grants ((noContentExchange true).budgets 1) 64 = true := by decide
  have plain : ¬isEncoded noContentHead.sanitized.fields = true := by decide
  have typed : contentTypeOf noContentHead.sanitized.fields = some (ascii "text/plain") := by decide
  have applies : gzipApplies eagerRuntime.compression true (ascii "text/plain") [] = true := by decide
  have empty : mustBeEmpty (noContentExchange true) noContentHead := .inr (.inl rfl)
  have received := receivedHead_noContent true
  obtain ⟨stream,runs⟩ := exchanged_received (by decide) received
  obtain ⟨sent,covered,compressed⟩ := compressResponse_taken (fun _ => ⟨0,67108864⟩) plain typed applies room
    (rfl : eagerRuntime.encode [] = some emptyMember) (by decide)
  rw [readResponse_compressed eagerRuntime empty stream rfl compressed] at runs
  have written : emptyMember ≠ [] := by decide
  exact written (stays noContentHead _ _ received empty runs)

end Polyguard.Proxy
