import Polyguard.Proxy.Exchange
import Polyguard.Collections.Counted

/-! Deadlines of the stream and the faults that report them.
Every reader of the input ends in a timeout exactly when it met a deadline of the
stream, so that the number of deadlines left in the stream tells what was met. -/
namespace Polyguard.Proxy

def deadlines : List Read → Nat
  | [] => 0
  | .deadline :: stream => deadlines stream + 1
  | .data _ _ :: stream => deadlines stream
  | .interrupted :: stream => deadlines stream
  | .failed :: stream => deadlines stream

/-- The faults that report a deadline. -/
def IsTimeout (fault : Fault) : Prop := fault = .timeout ∨ fault = .upstreamTimeout

theorem deadlines_unread (bytes : List UInt8) (stream : List Read) :
    deadlines (Stream.unread bytes stream) = deadlines stream := by
  cases bytes with
  | nil => rfl
  | cons first rest => rfl

theorem deadlines_read {room : Nat} {stream next : List Read} {result : Except IoError (List UInt8)}
    (answered : Stream.read room stream = (result,next)) :
    (result = .error .timedOut ∧ deadlines stream = deadlines next + 1) ∨
      (result ≠ .error .timedOut ∧ deadlines next = deadlines stream) := by
  cases stream with
  | nil =>
    cases answered
    exact .inr ⟨nofun,rfl⟩
  | cons answer stream =>
    cases answer with
    | data first rest =>
      cases answered
      exact .inr ⟨nofun,deadlines_unread _ stream⟩
    | interrupted =>
      cases answered
      exact .inr ⟨nofun,rfl⟩
    | deadline =>
      cases answered
      exact .inl ⟨rfl,rfl⟩
    | failed =>
      cases answered
      exact .inr ⟨nofun,rfl⟩

theorem deadlines_readExact {length : Nat} {stream next : List Read} :
    ∀ {filled : List UInt8} {result : Except IoError (List UInt8)}, Stream.readExact length filled stream = (result,next) →
      (result = .error .timedOut ∧ deadlines stream = deadlines next + 1) ∨
        (result ≠ .error .timedOut ∧ deadlines next = deadlines stream) := by
  induction stream with
  | nil =>
    intro filled result answered
    cases answered
    exact .inr ⟨nofun,rfl⟩
  | cons answer stream ih =>
    intro filled result answered
    cases answer with
    | data first rest =>
      simp only [Stream.readExact] at answered
      split at answered
      · cases answered
        exact .inr ⟨nofun,deadlines_unread _ stream⟩
      · exact ih answered
    | interrupted => exact ih answered
    | deadline =>
      cases answered
      exact .inl ⟨rfl,rfl⟩
    | failed =>
      cases answered
      exact .inr ⟨nofun,rfl⟩

theorem mapClientIo_timeout (error : IoError) : IsTimeout (mapClientIo error) ↔ error = .timedOut := by
  cases error with
  | timedOut => simp [IsTimeout,mapClientIo]
  | interrupted => simp [IsTimeout,mapClientIo]
  | unexpectedEof => simp [IsTimeout,mapClientIo]
  | other => simp [IsTimeout,mapClientIo]

theorem protocol_timeless (error : PolyguardError) : ¬IsTimeout (.protocol error) := by simp [IsTimeout]

theorem tooLarge_timeless : ¬IsTimeout .tooLarge := by simp [IsTimeout]

theorem busy_timeless : ¬IsTimeout .busy := by simp [IsTimeout]

/-- A reader that takes deadlines from the stream exactly when it reports them. -/
abbrev Timed {α : Type} (step : Reading α) : Prop := Counted (fun input : BufferedInput => deadlines input.stream) IsTimeout step

namespace BufferedInput

theorem fill_timed (length : Nat) (filled : List UInt8) : Timed (fill length filled) := by
  intro input
  simp only [fill]
  cases answered : Stream.readExact length filled input.stream with
  | mk result next =>
    have counted := deadlines_readExact answered
    cases result with
    | ok bytes =>
      rcases counted with ⟨same,_⟩ | ⟨_,kept⟩
      · cases same
      · exact kept
    | error error =>
      rcases counted with ⟨same,taken⟩ | ⟨other,kept⟩
      · cases same
        exact .inl ⟨.inl rfl,taken⟩
      · refine .inr ⟨?_,kept⟩
        intro timeout
        exact other (congrArg Except.error ((mapClientIo_timeout error).mp timeout))

theorem readByte_timed : Timed readByte := by
  intro input
  simp only [readByte]
  cases input.buffer[input.offset]? with
  | some byte => exact rfl
  | none =>
    have counted := fill_timed 1 [] { input with buffer := [], offset := 0 }
    dsimp only
    cases filled : fill 1 [] { input with buffer := [], offset := 0 } with
    | ok bytes next =>
      rw [filled] at counted
      exact counted
    | error fault next =>
      rw [filled] at counted
      exact counted

theorem readExactVec_timed (length : Nat) : Timed (readExactVec length) := by
  intro input
  simp only [readExactVec]
  by_cases short : min input.bufferedLen length < length
  · rw [if_pos short]
    exact fill_timed length _ _
  · rw [if_neg short]

theorem readLineLoop_timed (room : Nat) : ∀ output, Timed (readLineLoop room output) := by
  induction room with
  | zero => exact fun _ => .throw tooLarge_timeless
  | succ room ih =>
    intro output
    refine .bind readByte_timed ?_
    intro byte
    exact .ite (.pure _) (ih _)

theorem readTrailersLoop_timed (max rounds : Nat) : ∀ output, Timed (readTrailersLoop max rounds output) := by
  induction rounds with
  | zero => exact fun _ => .throw tooLarge_timeless
  | succ rounds ih =>
    intro output
    refine .bind (readLineLoop_timed _ _) ?_
    intro fetched
    exact .ite (.throw tooLarge_timeless) (.ite (.pure _) (ih _))

end BufferedInput

theorem agreed_timeless {α : Type} {result : Result α} {fault : Fault} (failed : agreed result = .error fault) : ¬IsTimeout fault := by
  cases result with
  | ok value => cases failed
  | error error =>
    cases failed
    exact protocol_timeless error

theorem declaredNames_fault {parts : List (List UInt8)} {fault : Fault} (failed : declaredNames parts = .error fault) :
    fault = invalidDeclaration := by
  induction parts with
  | nil => cases failed
  | cons part parts ih =>
    simp only [declaredNames] at failed
    split at failed
    · cases failed
      rfl
    · cases rest : declaredNames parts with
      | ok names =>
        rw [rest] at failed
        cases failed
      | error other =>
        rw [rest] at failed
        cases failed
        exact ih rest

theorem declaredTrailersLoop_fault {fields : List HeaderField} {fault : Fault}
    (failed : declaredTrailersLoop fields = .error fault) : fault = invalidDeclaration := by
  induction fields with
  | nil => cases failed
  | cons field fields ih =>
    simp only [declaredTrailersLoop] at failed
    split at failed
    · split at failed
      · cases failed
        rfl
      · split at failed
        · rename_i declared
          cases failed
          exact declaredNames_fault declared
        · cases rest : declaredTrailersLoop fields with
          | ok later =>
            rw [rest] at failed
            cases failed
          | error other =>
            rw [rest] at failed
            cases failed
            exact ih rest
    · exact ih failed

theorem reserve_fault {budgets : Nat → Memory.Budget} {bytes : Nat} {fault : Fault}
    (failed : Account.reserve budgets bytes = .error fault) : fault = .busy := by
  simp only [Account.reserve] at failed
  split at failed
  · cases failed
  · cases failed
    rfl

theorem absorb_fault {account : Account} {bytes : Nat} {fault : Fault} (failed : account.absorb bytes = .error fault) :
    fault = .busy := by
  simp only [Account.absorb] at failed
  split at failed
  · cases failed
  · cases failed
    rfl

theorem grow_fault {account : Account} {bytes : Nat} {fault : Fault} (failed : account.grow bytes = .error fault) : fault = .busy := by
  simp only [Account.grow] at failed
  split at failed
  · exact absorb_fault failed
  · rename_i refused
    cases failed
    exact reserve_fault refused

theorem finishChunked_timed (protocol : Protocol) (headers : HeaderBlock) : Timed (finishChunked protocol headers) := by
  refine .bind (BufferedInput.readTrailersLoop_timed _ _ _) ?_
  intro wire
  refine .bind (.fromExcept ?_) ?_
  · intro fault failed
    rw [declaredTrailersLoop_fault failed]
    exact protocol_timeless _
  · intro declared
    refine .bind (.fromExcept fun _ => agreed_timeless) ?_
    intro trailers
    exact .ite (.throw (protocol_timeless _)) (.pure _)

theorem readChunkedLoop_timed (protocol : Protocol) (headers : HeaderBlock) (max rounds : Nat) :
    ∀ decoded account, Timed (readChunkedLoop protocol headers max rounds decoded account) := by
  induction rounds with
  | zero => exact fun _ _ => .throw tooLarge_timeless
  | succ rounds ih =>
    intro decoded account
    refine .bind (BufferedInput.readLineLoop_timed _ _) ?_
    intro head
    refine .bind (.fromExcept fun _ => agreed_timeless) ?_
    intro metadata
    refine .ite (.throw (protocol_timeless _)) (.ite (.throw tooLarge_timeless) (.ite ?_ ?_))
    · exact .bind (finishChunked_timed protocol headers) fun _ => .pure _
    · refine .bind (.fromExcept ?_) ?_
      · intro fault failed
        rw [grow_fault failed]
        exact busy_timeless
      · intro account
        refine .bind (BufferedInput.readExactVec_timed _) ?_
        intro data
        refine .bind (BufferedInput.readExactVec_timed _) ?_
        intro terminator
        exact .ite (.throw (protocol_timeless _)) (ih _ _)

end Polyguard.Proxy
