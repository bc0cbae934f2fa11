import Polyguard.Proxy.Chunked
import Polyguard.Chunk.Agreement
import Polyguard.Trailer.Agreement
import Polyguard.HopByHop.Implementations

/-! Chunked decoding inverts chunked encoding.
The bytes that an input gives before a read of it fails are those behind the offset of
its buffer and those of its stream. A reader takes a text when it returns a value and
leaves what follows the text, wherever the buffer ends and whatever fails later. -/
namespace Polyguard.Proxy
open Ascii Slices ChunkGrammar ChunkAgreement TrailerDeclarations

namespace Stream

/-- The bytes that the reads of a stream will get. -/
def bytes : List Read → List UInt8
  | [] => []
  | .data first rest :: stream => first :: rest ++ bytes stream
  | _ :: stream => bytes stream

/-- The bytes that come before a read fails or runs out of time. -/
def ready : List Read → List UInt8
  | [] => []
  | .data first rest :: stream => first :: rest ++ ready stream
  | .interrupted :: stream => ready stream
  | .deadline :: _ => []
  | .failed :: _ => []

/-- The reads from the first one on that fails or runs out of time. -/
def behind : List Read → List Read
  | [] => []
  | .data _ _ :: stream => behind stream
  | .interrupted :: stream => behind stream
  | .deadline :: stream => .deadline :: stream
  | .failed :: stream => .failed :: stream

theorem bytes_unread (rest : List UInt8) (stream : List Read) : bytes (unread rest stream) = rest ++ bytes stream := by
  cases rest <;> rfl

theorem ready_unread (rest : List UInt8) (stream : List Read) : ready (unread rest stream) = rest ++ ready stream := by
  cases rest <;> rfl

theorem behind_unread (rest : List UInt8) (stream : List Read) : behind (unread rest stream) = behind stream := by
  cases rest <;> rfl

/-- A vector is filled with the next bytes of a stream that has enough of them before a read fails. -/
theorem readExact_fills (length : Nat) (stream : List Read) (filled : List UInt8) (room : filled.length < length)
    (enough : length - filled.length ≤ (ready stream).length) :
    ∃ after, readExact length filled stream = (.ok (filled ++ (ready stream).take (length - filled.length)),after) ∧
      behind after = behind stream ∧ ready after = (ready stream).drop (length - filled.length) := by
  induction stream generalizing filled with
  | nil =>
    simp only [ready,List.length_nil] at enough
    omega
  | cons answer stream ih =>
    cases answer with
    | data first rest =>
      unfold readExact
      dsimp only
      rw [List.length_append,List.length_take]
      split
      · rename_i whole
        have within : length - filled.length ≤ (first :: rest).length := by omega
        refine ⟨unread ((first :: rest).drop (length - filled.length)) stream,?_,behind_unread _ stream,?_⟩
        · rw [ready,List.take_append_of_le_length within]
        · rw [ready_unread,ready,List.drop_append_of_le_length within]
      · rename_i part
        have shorter : (first :: rest).length < length - filled.length := by omega
        rw [List.take_of_length_le (by omega)]
        simp only [ready,List.length_append] at enough
        have size : (filled ++ first :: rest).length = filled.length + (first :: rest).length := by simp
        obtain ⟨after,reads,later,left⟩ := ih (filled ++ first :: rest) (by omega) (by omega)
        refine ⟨after,?_,later,?_⟩
        · rw [reads,ready,List.take_append,List.take_of_length_le (by omega : (first :: rest).length ≤ length - filled.length),
            List.append_assoc,size,Nat.sub_add_eq]
        · rw [left,ready,List.drop_append,List.drop_of_length_le (by omega : (first :: rest).length ≤ length - filled.length),
            List.nil_append,size,Nat.sub_add_eq]
    | interrupted =>
      unfold readExact
      exact ih filled room enough
    | deadline =>
      simp only [ready,List.length_nil] at enough
      omega
    | failed =>
      simp only [ready,List.length_nil] at enough
      omega

end Stream

namespace BufferedInput

/-- The bytes the input still gives. -/
def pending (input : BufferedInput) : List UInt8 := input.buffer.drop input.offset ++ Stream.bytes input.stream

/-- The bytes it gives before a read fails. -/
def ready (input : BufferedInput) : List UInt8 := input.buffer.drop input.offset ++ Stream.ready input.stream

end BufferedInput

open BufferedInput

/-- The reader returns the value for the text and leaves what follows it. -/
def Takes {α : Type} (reader : Reading α) (text : List UInt8) (value : α) : Prop :=
  ∀ (input : BufferedInput) (rest : List UInt8), input.ready = text ++ rest →
    ∃ after, reader input = .ok value after ∧ Stream.behind after.stream = Stream.behind input.stream ∧ after.ready = rest

namespace Takes

variable {α β : Type}

theorem pure (value : α) : Takes (Pure.pure value) [] value := fun input _ same => ⟨input,rfl,rfl,same⟩

theorem bind {first : Reading α} {next : α → Reading β} {front back : List UInt8} {value : α} {result : β}
    (takes : Takes first front value) (follows : Takes (next value) back result) : Takes (first >>= next) (front ++ back) result := by
  intro input rest same
  rw [List.append_assoc] at same
  obtain ⟨middle,ran,later,left⟩ := takes input (back ++ rest) same
  obtain ⟨after,ended,last,left⟩ := follows middle rest left
  refine ⟨after,?_,last.trans later,left⟩
  simp only [Bind.bind,EStateM.bind]
  rw [ran]
  exact ended

theorem step {result : Outcome α} {next : α → Reading β} {text : List UInt8} {value : α} {last : β} (ok : result = .ok value)
    (follows : Takes (next value) text last) : Takes ((MonadExcept.ofExcept result : Reading α) >>= next) text last := by
  subst ok
  exact follows

end Takes

theorem takes_byte (byte : UInt8) : Takes readByte [byte] byte := by
  intro input rest same
  rw [List.singleton_append] at same
  unfold readByte
  unfold ready at same
  cases here : input.buffer[input.offset]? with
  | some found =>
    obtain ⟨inside,value⟩ := List.getElem?_eq_some_iff.mp here
    rw [List.drop_eq_getElem_cons inside,value,List.cons_append] at same
    obtain ⟨rfl,left⟩ := List.cons_eq_cons.mp same
    exact ⟨_,rfl,rfl,left⟩
  | none =>
    rw [List.drop_eq_nil_of_le (List.getElem?_eq_none_iff.mp here),List.nil_append] at same
    obtain ⟨after,reads,later,left⟩ := Stream.readExact_fills 1 input.stream [] (by decide) (by rw [same]; simp)
    dsimp only
    unfold fill
    rw [reads]
    refine ⟨{ stream := after, buffer := [], offset := 0 },?_,later,?_⟩
    · simp [same]
    · unfold ready
      simp [left,same]

theorem takes_vec (text : List UInt8) : Takes (readExactVec text.length) text text := by
  intro input rest same
  unfold readExactVec bufferedLen
  unfold ready at same
  dsimp only
  have buffered : (input.buffer.drop input.offset).length = input.buffer.length - input.offset := List.length_drop
  have cut : slice input.buffer input.offset (input.offset + min (input.buffer.length - input.offset) text.length) =
      (input.buffer.drop input.offset).take (min (input.buffer.length - input.offset) text.length) := by
    unfold slice
    rw [List.drop_take,Nat.add_sub_cancel_left]
  rw [cut]
  rcases Nat.lt_or_ge (input.buffer.length - input.offset) text.length with short | long
  · rw [Nat.min_eq_left (by omega),if_pos short,List.take_of_length_le (by omega)]
    have lengths := congrArg List.length same
    simp only [List.length_append,buffered] at lengths
    obtain ⟨after,reads,later,left⟩ := Stream.readExact_fills text.length input.stream (input.buffer.drop input.offset)
      (by omega) (by omega)
    have whole := congrArg (List.take text.length) same
    have following := congrArg (List.drop text.length) same
    rw [List.take_left,List.take_append,List.take_of_length_le (by omega)] at whole
    rw [List.drop_left,List.drop_append,List.drop_of_length_le (by omega),List.nil_append] at following
    unfold fill
    dsimp only
    rw [reads]
    refine ⟨⟨after,input.buffer,input.offset + (input.buffer.length - input.offset)⟩,?_,later,?_⟩
    · rw [whole]
    · unfold ready
      dsimp only
      rw [left,following,List.drop_of_length_le (by omega),List.nil_append]
  · rw [Nat.min_eq_right long,if_neg (by omega)]
    have whole := congrArg (List.take text.length) same
    have following := congrArg (List.drop text.length) same
    rw [List.take_left,List.take_append_of_le_length (by omega)] at whole
    rw [List.drop_left,List.drop_append_of_le_length (by omega),List.drop_drop] at following
    refine ⟨{ input with offset := input.offset + text.length },?_,rfl,following⟩
    rw [whole]

theorem crlf_closed (output : List UInt8) : [0x0d,0x0a].isSuffixOf (output ++ [0x0d] ++ [0x0a]) = true := by
  rw [List.isSuffixOf_iff_suffix]
  exact ⟨output,by simp⟩

theorem crlf_open (output : List UInt8) {byte : UInt8} (other : byte ≠ 0x0a) : [0x0d,0x0a].isSuffixOf (output ++ [byte]) = false := by
  rw [← Bool.not_eq_true,List.isSuffixOf_iff_suffix]
  rintro ⟨before,same⟩
  have last := congrArg List.getLast? same
  simp only [List.getLast?_append,List.getLast?_cons_cons,List.getLast?_singleton,Option.some_or,Option.some.injEq] at last
  exact other last.symm

theorem takes_round {room : Nat} {output text : List UInt8} {byte : UInt8} {value : List UInt8} (other : byte ≠ 0x0a)
    (later : Takes (readLineLoop room (output ++ [byte])) text value) : Takes (readLineLoop (room + 1) output) (byte :: text) value := by
  apply Takes.bind (takes_byte byte)
  dsimp only
  rw [crlf_open output other]
  exact later

/-- The loop of a line whose bytes hold no LF before its end. -/
theorem takes_line_loop (content : List UInt8) (clean : 0x0a ∉ content) (room : Nat) (fits : content.length + 2 ≤ room) (output : List UInt8) :
    Takes (readLineLoop room output) (content ++ [0x0d,0x0a]) (output ++ content ++ [0x0d,0x0a]) := by
  induction content generalizing room output with
  | nil =>
    obtain ⟨room,rfl⟩ : ∃ more, room = more + 1 + 1 := ⟨room - 2,by simp at fits; omega⟩
    apply takes_round (by decide)
    have last : Takes (readLineLoop (room + 1) (output ++ [0x0d])) ([0x0a] ++ []) (output ++ [0x0d] ++ [0x0a]) := by
      apply Takes.bind (takes_byte 0x0a)
      dsimp only
      rw [crlf_closed output]
      exact Takes.pure _
    simpa using last
  | cons byte content ih =>
    obtain ⟨room,rfl⟩ : ∃ more, room = more + 1 := ⟨room - 1,by simp at fits; omega⟩
    rw [List.length_cons] at fits
    apply takes_round fun same => clean (by simp [same])
    simpa using ih (fun member => clean (by simp [member])) room (by omega) (output ++ [byte])

theorem takes_line {content : List UInt8} (clean : 0x0a ∉ content) {max : Nat} (fits : content.length + 1 ≤ max) :
    Takes (readLine max) (content ++ [0x0d,0x0a]) (content ++ [0x0d,0x0a]) := by
  exact takes_line_loop content clean (max + 1) (by omega) []

theorem takes_trailers {max : Nat} (fits : 2 ≤ max) : Takes (readTrailers max) [0x0d,0x0a] [0x0d,0x0a] := by
  have fetched : Takes (readLine (max - 0)) ([] ++ [0x0d,0x0a]) ([] ++ [0x0d,0x0a]) := takes_line (by simp) (by simp; omega)
  have whole : Takes (readTrailers max) (([] ++ [0x0d,0x0a]) ++ []) [0x0d,0x0a] := by
    apply Takes.bind fetched
    dsimp only
    rw [if_neg (by simp; omega),if_pos (List.nil_append _)]
    exact Takes.pure _
  exact whole

/-- A chunk as it stands on the wire: a size line in any spelling, then the data. -/
structure EncodedChunk where
  line : ChunkLine
  data : List UInt8
  small : ∀ b ∈ line.content, isAscii b
  sized : hexNumber line.digits = data.length
  filled : data ≠ []

/-- The size line of the last chunk. -/
structure LastChunk where
  line : ChunkLine
  small : ∀ b ∈ line.content, isAscii b
  sized : hexNumber line.digits = 0

def EncodedChunk.wire (chunk : EncodedChunk) : List UInt8 :=
  chunk.line.content ++ [0x0d,0x0a] ++ (chunk.data ++ [0x0d,0x0a])

/-- The chunks, the last one and an empty trailer section. -/
def encoded (chunks : List EncodedChunk) (last : LastChunk) : List UInt8 :=
  chunks.flatMap EncodedChunk.wire ++ (last.line.content ++ [0x0d,0x0a] ++ [0x0d,0x0a])

def payload (chunks : List EncodedChunk) : List UInt8 := chunks.flatMap (·.data)

/-- The account after the growth for each of the sizes. -/
def grown (account : Account) (sizes : List Nat) : Account :=
  sizes.foldl (fun account size => ⟨account.bytes + size,fun later => account.budgets (later + 1)⟩) account

/-- Each growth finds room. The bytes of a permit are among the used ones of its budget. -/
def Room (account : Account) : List Nat → Prop
  | [] => True
  | size :: sizes =>
    account.bytes ≤ (account.budgets 0).used ∧ Account.grants (account.budgets 0) size = true ∧
      Room ⟨account.bytes + size,fun later => account.budgets (later + 1)⟩ sizes

theorem grow_granted {account : Account} {size : Nat} (held : account.bytes ≤ (account.budgets 0).used)
    (granted : Account.grants (account.budgets 0) size = true) :
    account.grow size = .ok ⟨account.bytes + size,fun later => account.budgets (later + 1)⟩ := by
  have fits : account.bytes + size ≤ u64Max := by
    unfold Account.grants checkedAdd at granted
    split at granted
    · rename_i next sum
      split at sum
      · omega
      · cases sum
    · cases granted
  unfold Account.grow Account.reserve
  rw [if_pos granted]
  simp only [Account.absorb,checkedAdd,fits,if_true]

theorem line_clean (line : ChunkLine) : 0x0a ∉ line.content := by
  intro member
  have control := line.bounded.2 0x0a member
  cases control

theorem takes_chunk {protocol : Protocol} (parses : protocol.parseChunkMetadata ∈ chunkImplementations) (headers : HeaderBlock) {max rounds : Nat}
    {decoded : List UInt8} {account : Account} (chunk : EncodedChunk) (within : decoded.length + chunk.data.length ≤ max)
    (held : account.bytes ≤ (account.budgets 0).used) (granted : Account.grants (account.budgets 0) chunk.data.length = true)
    {more : List UInt8} {value : List UInt8 × Account}
    (later : Takes (readChunkedLoop protocol headers max rounds (decoded ++ chunk.data)
      ⟨account.bytes + chunk.data.length,fun later => account.budgets (later + 1)⟩) more value) :
    Takes (readChunkedLoop protocol headers max (rounds + 1) decoded account) (chunk.wire ++ more) value := by
  have fits : chunk.line.content.length + 1 ≤ 4096 := by
    have bounded := chunk.line.bounded.1
    unfold ChunkLine.content chunkLineBytes at *
    omega
  have some : chunk.data.length ≠ 0 := fun zero => chunk.filled (List.length_eq_zero_iff.mp zero)
  have body : Takes (readChunkedLoop protocol headers max (rounds + 1) decoded account)
      ((chunk.line.content ++ [0x0d,0x0a]) ++ (chunk.data ++ ([0x0d,0x0a] ++ more))) value := by
    apply Takes.bind (takes_line (line_clean chunk.line) fits)
    apply Takes.step (congrArg agreed (line_read chunk.line chunk.small _ parses))
    have consumed : chunk.line.denote.bytesConsumed = (chunk.line.content ++ [0x0d,0x0a]).length := by simp [ChunkLine.denote]
    have size : chunk.line.denote.size = chunk.data.length := chunk.sized
    rw [if_neg (not_not.mpr consumed),size,if_neg (by omega),if_neg some]
    apply Takes.step (grow_granted held granted)
    apply Takes.bind (takes_vec chunk.data)
    apply Takes.bind (takes_vec [0x0d,0x0a])
    rw [if_neg (not_not.mpr rfl)]
    exact later
  rw [EncodedChunk.wire]
  simpa using body

theorem takes_last {protocol : Protocol} (parses : protocol.parseChunkMetadata ∈ chunkImplementations)
    (closes : protocol.parseTrailerSection ∈ trailerImplementations) {headers : HeaderBlock} {names : List (List UInt8)}
    (declared : declaredTrailers headers = .ok names) (declarable : Declarable names) (short : Short names) {max rounds : Nat}
    {decoded : List UInt8} {account : Account} (last : LastChunk) (within : decoded.length ≤ max) :
    Takes (readChunkedLoop protocol headers max (rounds + 1) decoded account) (last.line.content ++ [0x0d,0x0a] ++ [0x0d,0x0a])
      (decoded,account) := by
  have fits : last.line.content.length + 1 ≤ 4096 := by
    have bounded := last.line.bounded.1
    unfold ChunkLine.content chunkLineBytes at *
    omega
  apply Takes.bind (takes_line (line_clean last.line) fits)
  apply Takes.step (congrArg agreed (line_read last.line last.small _ parses))
  have consumed : last.line.denote.bytesConsumed = (last.line.content ++ [0x0d,0x0a]).length := by simp [ChunkLine.denote]
  have size : last.line.denote.size = 0 := last.sized
  rw [if_neg (not_not.mpr consumed),size,if_neg (by omega),if_pos rfl]
  have finish : Takes (finishChunked protocol headers) ([0x0d,0x0a] ++ []) () := by
    apply Takes.bind (takes_trailers (by decide))
    apply Takes.step declared
    apply Takes.step (congrArg agreed (TrailerAgreement.empty_section short declarable _ closes))
    rw [if_neg (by decide)]
    exact Takes.pure _
  have whole : Takes (finishChunked protocol headers >>= fun _ => pure (decoded,account)) (([0x0d,0x0a] ++ []) ++ []) (decoded,account) :=
    Takes.bind finish (Takes.pure _)
  exact whole

/-- Every chunk takes a round of the loop and at least one byte of the data. -/
theorem takes_chunks {protocol : Protocol} (parses : protocol.parseChunkMetadata ∈ chunkImplementations)
    (closes : protocol.parseTrailerSection ∈ trailerImplementations) {headers : HeaderBlock} {names : List (List UInt8)}
    (declared : declaredTrailers headers = .ok names) (declarable : Declarable names) (short : Short names) {max : Nat} (last : LastChunk)
    (chunks : List EncodedChunk) (rounds : Nat) (decoded : List UInt8) (account : Account)
    (within : decoded.length + (payload chunks).length ≤ max) (enough : chunks.length < rounds)
    (room : Room account (chunks.map (·.data.length))) :
    Takes (readChunkedLoop protocol headers max rounds decoded account) (encoded chunks last)
      (decoded ++ payload chunks,grown account (chunks.map (·.data.length))) := by
  induction chunks generalizing rounds decoded account with
  | nil =>
    obtain ⟨rounds,rfl⟩ := Nat.exists_eq_add_one.mpr enough
    simpa [payload,grown,encoded] using takes_last parses closes declared declarable short last (by simpa [payload] using within)
  | cons chunk chunks ih =>
    obtain ⟨rounds,rfl⟩ := Nat.exists_eq_add_one.mpr (Nat.zero_lt_of_lt enough)
    obtain ⟨held,granted,room⟩ := room
    have size : (payload (chunk :: chunks)).length = chunk.data.length + (payload chunks).length := by simp [payload]
    have later := ih rounds (decoded ++ chunk.data) _ (by rw [List.length_append]; omega) (by simpa using enough) room
    have step := takes_chunk parses headers chunk (by omega) held granted later
    have wires : chunk.wire ++ encoded chunks last = encoded (chunk :: chunks) last := by simp [encoded]
    have joins : decoded ++ chunk.data ++ payload chunks = decoded ++ payload (chunk :: chunks) := by simp [payload]
    rw [wires,joins] at step
    exact step

theorem payload_count (chunks : List EncodedChunk) : chunks.length ≤ (payload chunks).length := by
  induction chunks with
  | nil => exact Nat.zero_le _
  | cons chunk chunks ih =>
    have some : chunk.data.length ≠ 0 := fun zero => chunk.filled (List.length_eq_zero_iff.mp zero)
    simp only [payload,List.flatMap_cons,List.length_append,List.length_cons] at ih ⊢
    omega

theorem grown_bytes (chunks : List EncodedChunk) (account : Account) :
    (grown account (chunks.map (·.data.length))).bytes = account.bytes + (payload chunks).length := by
  induction chunks generalizing account with
  | nil => rfl
  | cons chunk chunks ih =>
    simp only [grown,payload,List.map_cons,List.foldl_cons,List.flatMap_cons,List.length_append] at ih ⊢
    rw [ih,Nat.add_assoc]

/-- Wherever the encoding is cut between the buffer and the reads of the stream, decoding returns the data, leaves
what follows the encoding and grows the account by the length of the data. -/
def Decodes (protocol : Protocol) (headers : HeaderBlock) (max : Nat) (account : Account) (chunks : List EncodedChunk) (last : LastChunk) :
    Prop :=
  ∀ (input : BufferedInput) (rest : List UInt8), input.ready = encoded chunks last ++ rest →
    ∃ settled after, readChunked protocol headers max account input = .ok (payload chunks,settled) after ∧
      settled.bytes = account.bytes + (payload chunks).length ∧ after.ready = rest ∧
        Stream.behind after.stream = Stream.behind input.stream

theorem chunked_inverts (protocol : Protocol) (parses : protocol.parseChunkMetadata ∈ chunkImplementations)
    (closes : protocol.parseTrailerSection ∈ trailerImplementations) (headers : HeaderBlock) (names : List (List UInt8))
    (declared : declaredTrailers headers = .ok names) (declarable : Declarable names) (short : Short names)
    (chunks : List EncodedChunk) (last : LastChunk) (max : Nat) (within : (payload chunks).length ≤ max) (account : Account)
    (room : Room account (chunks.map (·.data.length))) : Decodes protocol headers max account chunks last := by
  intro input rest given
  have count := payload_count chunks
  obtain ⟨after,decodes,later,left⟩ := takes_chunks parses closes declared declarable short last chunks (max + 1) [] account
    (by simpa using within) (by omega) room input rest given
  exact ⟨_,after,decodes,grown_bytes chunks account,left,later⟩

/-- A fixed choice of the protocol functions. -/
def chosen : Protocol :=
  ⟨HeaderTypedCursor.parseHeaderSection,HopByHopTokenTrie.removeHopByHopHeaders,ChunkGuardedParts.parseChunkMetadata,
    TrailerEventAutomaton.parseTrailerSection⟩

def zeroLine : LastChunk :=
  ⟨⟨ascii "0",[],by decide +kernel,⟨by decide,by simp⟩,by decide +kernel⟩,List.all_eq_true.mp (by decide),by decide +kernel⟩

def helloChunk : EncodedChunk :=
  ⟨⟨ascii "05",[],by decide +kernel,⟨by decide,by simp⟩,by decide +kernel⟩,ascii "hello",List.all_eq_true.mp (by decide),
    by decide +kernel,by decide⟩

/-- One chunk that is cut between the buffer and the stream, with bytes and a failing read behind it. -/
theorem chunked_inverts_hello :
    ∃ settled after, readChunked chosen ⟨[],0⟩ 8 ⟨3,fun _ => ⟨3,100⟩⟩
        ⟨[.interrupted,.data 0x6c (ascii "o\r\n0\r\n\r\nGET"),.failed],ascii "xx05\r\nhel",2⟩ = .ok (ascii "hello",settled) after ∧
      settled.bytes = 8 ∧ after.ready = ascii "GET" ∧ Stream.behind after.stream = [.failed] :=
  chunked_inverts chosen (by simp [chosen,chunkImplementations]) (by simp [chosen,trailerImplementations]) ⟨[],0⟩ [] rfl
    ⟨List.nodup_nil,by simp⟩ (by simp [Short]) [helloChunk] zeroLine 8 (by decide) ⟨3,fun _ => ⟨3,100⟩⟩
    ⟨by decide,by decide,trivial⟩ ⟨[.interrupted,.data 0x6c (ascii "o\r\n0\r\n\r\nGET"),.failed],ascii "xx05\r\nhel",2⟩
    (ascii "GET") (by decide)

/-- A declaration that may not be made refuses the body, also when no trailer follows. -/
theorem chunked_refused :
    ¬ Decodes chosen ⟨[⟨ascii "trailer",ascii "content-length"⟩],0⟩ 8 ⟨0,fun _ => ⟨0,100⟩⟩ [] zeroLine := by
  intro decodes
  obtain ⟨settled,after,ran,_⟩ := decodes (.new [] (ascii "0\r\n\r\n")) [] (by decide)
  have refused : readChunked chosen ⟨[⟨ascii "trailer",ascii "content-length"⟩],0⟩ 8 ⟨0,fun _ => ⟨0,100⟩⟩ (.new [] (ascii "0\r\n\r\n")) =
      .error (.protocol (.invalidTrailer "forbidden_field")) ⟨[],ascii "0\r\n\r\n",5⟩ := by rfl
  rw [refused] at ran
  cases ran

end Polyguard.Proxy
