import Polyguard.Proxy.Input
import Polyguard.Proxy.Agreement
import Polyguard.Bytes.Text

/-! The chunked body of a message.
The protocol functions stand here with the result that their agreement returned:
`Protocol` holds the result of the implementations that were asked. -/
namespace Polyguard.Proxy
open Ascii

/-- The agreed protocol functions that reading a message uses. -/
structure Protocol where
  parseHeaderSection : List UInt8 → Result HeaderBlock
  removeHopByHopHeaders : HeaderBlock → Result SanitizedHeaders
  parseChunkMetadata : List UInt8 → Result ChunkMeta
  parseTrailerSection : List UInt8 → List (List UInt8) → Result TrailerBlock

/-- The outcome of `Agreement::run` when enough implementations return one result. -/
def agreed {α : Type} : Result α → Outcome α
  | .ok value => .ok value
  | .error error => .error (.protocol error)

theorem run_agreed {Operation T : Type} [DecidableEq T] (agreement : Agreement) {registry : List (Implementation Operation)}
    (unique : (registry.map (·.id)).Nodup) (positive : 1 ≤ agreement.width) (function : String) (apply : Operation → Result T)
    (enough : (agreement.quorum registry function).length = agreement.width) {given : Result T}
    (same : ∀ entry ∈ agreement.quorum registry function, Agreement.answer function apply entry = some given) :
    (agreement.run registry function apply).2 = agreed given := by
  rcases agreement.run_cases unique positive function apply with ⟨none_eligible,_⟩ | ⟨answer,some_eligible,answers,ran⟩ | ⟨⟨left,inLeft,right,inRight,differ⟩,_⟩
  · rw [none_eligible,List.length_nil] at enough
    omega
  · obtain ⟨entry,member⟩ := List.exists_mem_of_ne_nil _ some_eligible
    have equal : answer = given := Option.some.inj ((answers entry member).symm.trans (same entry member))
    rw [ran,equal]
    simp only [Agreement.settle,enough,ne_eq,not_true,if_false]
    cases given with
    | ok value => rfl
    | error error => rfl
  · exact absurd ((same left inLeft).trans (same right inRight).symm) differ

def maxTrailerBytes : Nat := 8192

def invalidDeclaration : Fault := .protocol (.invalidTrailer "invalid_declaration")

/-- The names of one `trailer` value. -/
def declaredNames : List (List UInt8) → Outcome (List (List UInt8))
  | [] => .ok []
  | part :: parts =>
    let name := (Text.trim part).map toAsciiLowercase
    if name = [] then .error invalidDeclaration
    else match declaredNames parts with
      | .ok names => .ok (name :: names)
      | .error fault => .error fault

def declaredTrailersLoop : List HeaderField → Outcome (List (List UInt8))
  | [] => .ok []
  | field :: fields =>
    if field.name = ascii "trailer" then
      match Utf8.fromUtf8 field.value with
      | none => .error invalidDeclaration
      | some value =>
        match declaredNames (value.splitOn 0x2c) with
        | .error fault => .error fault
        | .ok names =>
          match declaredTrailersLoop fields with
          | .ok later => .ok (names ++ later)
          | .error fault => .error fault
    else declaredTrailersLoop fields

def declaredTrailers (headers : HeaderBlock) : Outcome (List (List UInt8)) := declaredTrailersLoop headers.fields

open BufferedInput

/-- What follows the last chunk: the trailer section, which is checked and dropped. -/
def finishChunked (protocol : Protocol) (headers : HeaderBlock) : Reading Unit := do
  let wire ← readTrailers maxTrailerBytes
  let declared ← MonadExcept.ofExcept (declaredTrailers headers)
  let trailers ← MonadExcept.ofExcept (agreed (protocol.parseTrailerSection wire declared))
  if trailers.bytesConsumed ≠ wire.length then throw (.protocol (.invalidTrailer "trailing_bytes")) else pure ()

/-- The loop of `read_chunked`; every round but the last adds to the decoded bytes, of
which there are at most `max`. -/
def readChunkedLoop (protocol : Protocol) (headers : HeaderBlock) (max : Nat) :
    Nat → List UInt8 → Account → Reading (List UInt8 × Account)
  | 0,_,_ => throw .tooLarge
  | rounds + 1,decoded,account => do
    let head ← readLine 4096
    let metadata ← MonadExcept.ofExcept (agreed (protocol.parseChunkMetadata head))
    if metadata.bytesConsumed ≠ head.length then throw (.protocol (.invalidChunk "trailing_bytes"))
    else if decoded.length + metadata.size > max then throw .tooLarge
    else if metadata.size = 0 then do
      finishChunked protocol headers
      pure (decoded,account)
    else do
      let account ← MonadExcept.ofExcept (account.grow metadata.size)
      let data ← readExactVec metadata.size
      let terminator ← readExactVec 2
      if terminator ≠ [0x0d,0x0a] then throw (.protocol (.invalidChunk "invalid_terminator"))
      else readChunkedLoop protocol headers max rounds (decoded ++ data) account

def readChunked (protocol : Protocol) (headers : HeaderBlock) (max : Nat) (account : Account) : Reading (List UInt8 × Account) :=
  readChunkedLoop protocol headers max (max + 1) [] account

end Polyguard.Proxy
