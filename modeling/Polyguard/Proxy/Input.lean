import Polyguard.Proxy.Memory

/-! The input of a connection.
A stream is the sequence of the answers its reads will get; after the last one it is at
its end. The buffered input holds the bytes that were read together with a head and
takes further bytes from the stream. -/
namespace Polyguard.Proxy
open Slices

inductive Read where
  | data (first : UInt8) (rest : List UInt8)
  | interrupted
  | deadline
  | failed
deriving DecidableEq, Repr

inductive IoError where
  | interrupted
  | timedOut
  | unexpectedEof
  | other
deriving DecidableEq, Repr

def mapClientIo : IoError → Fault
  | .timedOut => .timeout
  | _ => .clientIo

namespace Stream

/-- Puts back the bytes of an answer that did not fit. -/
def unread : List UInt8 → List Read → List Read
  | [],stream => stream
  | first :: rest,stream => .data first rest :: stream

/-- `Read::read` with room for some bytes; no bytes are the end of the stream. -/
def read (room : Nat) : List Read → Except IoError (List UInt8) × List Read
  | [] => (.ok [],[])
  | .data first rest :: stream => (.ok ((first :: rest).take room),unread ((first :: rest).drop room) stream)
  | .interrupted :: stream => (.error .interrupted,stream)
  | .deadline :: stream => (.error .timedOut,stream)
  | .failed :: stream => (.error .other,stream)

/-- `Read::read_exact` for a vector that is filled in part. -/
def readExact (length : Nat) : List UInt8 → List Read → Except IoError (List UInt8) × List Read
  | _,[] => (.error .unexpectedEof,[])
  | filled,.data first rest :: stream =>
    let room := length - filled.length
    let output := filled ++ (first :: rest).take room
    if output.length = length then (.ok output,unread ((first :: rest).drop room) stream)
    else readExact length output stream
  | filled,.interrupted :: stream => readExact length filled stream
  | _,.deadline :: stream => (.error .timedOut,stream)
  | _,.failed :: stream => (.error .other,stream)

/-- Bytes and answers together: every read of a stream with answers makes it smaller. -/
def size : List Read → Nat
  | [] => 0
  | .data _ rest :: stream => rest.length + 2 + size stream
  | .interrupted :: stream => 1 + size stream
  | .deadline :: stream => 1 + size stream
  | .failed :: stream => 1 + size stream

theorem size_unread (bytes : List UInt8) (stream : List Read) : size (unread bytes stream) ≤ bytes.length + 1 + size stream := by
  cases bytes with
  | nil =>
    simp only [unread]
    omega
  | cons first rest =>
    simp only [unread,size,List.length_cons]
    omega

theorem read_size {room : Nat} {stream next : List Read} {result : Except IoError (List UInt8)} (positive : 0 < room)
    (answered : Stream.read room stream = (result,next)) (more : result ≠ .ok []) : size next < size stream := by
  cases stream with
  | nil =>
    cases answered
    exact absurd rfl more
  | cons answer stream =>
    cases answer with
    | data first rest =>
      obtain ⟨_,rfl⟩ := Prod.mk.inj answered
      have bound := size_unread ((first :: rest).drop room) stream
      have shorter : ((first :: rest).drop room).length ≤ rest.length := by
        rw [List.length_drop,List.length_cons]
        omega
      simp only [size]
      omega
    | interrupted =>
      cases answered
      simp only [size]
      omega
    | deadline =>
      cases answered
      simp only [size]
      omega
    | failed =>
      cases answered
      simp only [size]
      omega

end Stream

structure BufferedInput where
  stream : List Read
  buffer : List UInt8
  offset : Nat

abbrev Reading (α : Type) := EStateM Fault BufferedInput α

namespace BufferedInput

def new (stream : List Read) (buffer : List UInt8) : BufferedInput := ⟨stream,buffer,0⟩

def bufferedLen (input : BufferedInput) : Nat := input.buffer.length - input.offset

/-- `read_exact` on the stream behind the buffer, for a vector that is filled in part. -/
def fill (length : Nat) (filled : List UInt8) : Reading (List UInt8) := fun input =>
  match Stream.readExact length filled input.stream with
  | (.ok bytes,stream) => .ok bytes { input with stream }
  | (.error error,stream) => .error (mapClientIo error) { input with stream }

def readByte : Reading UInt8 := fun input =>
  match input.buffer[input.offset]? with
  | some byte => .ok byte { input with offset := input.offset + 1 }
  | none =>
    match fill 1 [] { input with buffer := [], offset := 0 } with
    | .ok bytes input => .ok (bytes.headD 0) input
    | .error fault input => .error fault input

def readExactVec (length : Nat) : Reading (List UInt8) := fun input =>
  let available := min input.bufferedLen length
  let output := slice input.buffer input.offset (input.offset + available)
  let input := { input with offset := input.offset + available }
  if available < length then fill length output input else .ok output input

/-- The loop of `read_line` with the bytes it may still push. -/
def readLineLoop : Nat → List UInt8 → Reading (List UInt8)
  | 0,_ => throw .tooLarge
  | room + 1,output => do
    let byte ← readByte
    let output := output ++ [byte]
    if [0x0d,0x0a].isSuffixOf output then pure output else readLineLoop room output

/-- The loop condition admits one byte more than the maximum. -/
def readLine (max : Nat) : Reading (List UInt8) := readLineLoop (max + 1) []

/-- The loop of `read_trailers`; every line takes at least one of the rounds. -/
def readTrailersLoop (max : Nat) : Nat → List UInt8 → Reading (List UInt8)
  | 0,_ => throw .tooLarge
  | rounds + 1,output => do
    let fetched ← readLine (max - output.length)
    let output := output ++ fetched
    if output.length > max then throw .tooLarge
    else if fetched = [0x0d,0x0a] then pure output
    else readTrailersLoop max rounds output

def readTrailers (max : Nat) : Reading (List UInt8) := readTrailersLoop max (max + 1) []

end BufferedInput

/-- The permit of a body, with the budgets that its next reservations find. Other
threads may change the budget between any two of them. -/
structure Account where
  bytes : Nat
  budgets : Nat → Memory.Budget

namespace Account

/-- The outcome of a reservation on the values of the budget at its exchange. -/
def grants (budget : Memory.Budget) (bytes : Nat) : Bool :=
  match checkedAdd budget.used bytes with
  | some next => next ≤ budget.limit
  | none => false

def reserve (budgets : Nat → Memory.Budget) (bytes : Nat) : Outcome Account :=
  if grants (budgets 0) bytes then .ok ⟨bytes,fun later => budgets (later + 1)⟩ else .error .busy

def absorb (account : Account) (bytes : Nat) : Outcome Account :=
  match checkedAdd account.bytes bytes with
  | some sum => .ok { account with bytes := sum }
  | none => .error .busy

def grow (account : Account) (bytes : Nat) : Outcome Account :=
  match reserve account.budgets bytes with
  | .ok additional => { account with budgets := additional.budgets }.absorb bytes
  | .error fault => .error fault

end Account

/-- The loop of `read_to_eof_bounded`. -/
def readToEofLoop (max : Nat) (stream : List Read) (account : Account) (output : List UInt8) :
    Outcome (List UInt8 × Account) × List Read :=
  match _answered : Stream.read 16384 stream with
  | (.ok [],next) => (.ok (output,account),next)
  | (.ok (first :: rest),next) =>
    let read := first :: rest
    if output.length + read.length > max then (.error .upstream,next)
    else match account.grow read.length with
      | .ok account => readToEofLoop max next account (output ++ read)
      | .error fault => (.error fault,next)
  | (.error .interrupted,next) => readToEofLoop max next account output
  | (.error .timedOut,next) => (.error .timeout,next)
  | (.error _,next) => (.error .upstream,next)
termination_by Stream.size stream
decreasing_by
  · exact Stream.read_size (by decide) _answered nofun
  · exact Stream.read_size (by decide) _answered nofun

def BufferedInput.readToEofBounded (max : Nat) (account : Account) : Reading (List UInt8 × Account) := fun input =>
  let output := input.buffer.drop input.offset
  if output.length > max then .error .upstream input
  else match account.grow output.length with
    | .error fault => .error fault input
    | .ok account =>
      match readToEofLoop max input.stream account output with
      | (.ok result,stream) => .ok result { input with stream }
      | (.error fault,stream) => .error fault { input with stream }

def findSequence (haystack needle : List UInt8) : Option Nat :=
  position (fun start => (haystack.drop start).take needle.length == needle)
    (List.range (haystack.length + 1 - needle.length))

/-- The loop of `read_head`, and the stream it leaves. -/
def readHeadLoop (max : Nat) (stream : List Read) (bytes : List UInt8) :
    Outcome (List UInt8 × List UInt8) × List Read :=
  match _answered : Stream.read 2048 stream with
  | (.error error,next) => (.error (mapClientIo error),next)
  | (.ok [],next) => (.error (if bytes = [] then .clientClosed else .clientIo),next)
  | (.ok (first :: rest),next) =>
    let bytes := bytes ++ first :: rest
    match findSequence bytes [0x0d,0x0a,0x0d,0x0a] with
    | some stop =>
      if stop + 4 > max then (.error .tooLarge,next) else (.ok (bytes.take (stop + 4),bytes.drop (stop + 4)),next)
    | none => if bytes.length > max then (.error .tooLarge,next) else readHeadLoop max next bytes
termination_by Stream.size stream
decreasing_by exact Stream.read_size (by decide) _answered nofun

/-- The head with its blank line and the bytes that were read behind it. -/
def readHead (stream : List Read) (max : Nat) : Outcome (List UInt8 × List UInt8) × List Read := readHeadLoop max stream []

theorem Stream.read_whole (first : UInt8) {rest : List UInt8} {room : Nat} (fits : rest.length < room) (stream : List Read) :
    Stream.read room (.data first rest :: stream) = (.ok (first :: rest),stream) := by
  have whole : (first :: rest).length ≤ room := fits
  rw [Stream.read,List.take_of_length_le whole,List.drop_of_length_le whole,Stream.unread]

theorem readHead_once {first : UInt8} {rest : List UInt8} {max stop : Nat} (fits : rest.length < 2048)
    (found : findSequence (first :: rest) [0x0d,0x0a,0x0d,0x0a] = some stop) (within : stop + 4 ≤ max) (stream : List Read) :
    readHead (.data first rest :: stream) max =
      (.ok ((first :: rest).take (stop + 4),(first :: rest).drop (stop + 4)),stream) := by
  have read := Stream.read_whole first fits stream
  rw [readHead,readHeadLoop]
  split
  · rename_i answered
    rw [read] at answered
    cases answered
  · rename_i answered
    rw [read] at answered
    cases answered
  · rename_i answered
    rw [read] at answered
    cases answered
    simp only [List.nil_append,found]
    rw [if_neg (by omega)]

end Polyguard.Proxy
