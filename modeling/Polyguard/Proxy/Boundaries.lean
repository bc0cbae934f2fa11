import Polyguard.Collections.Fallible
import Polyguard.Proxy.Request
import Polyguard.Proxy.Decoding

/-! The boundaries between the requests of a connection.
What a reader returns is what the input gave: a successful step takes a text off the
bytes that are pending and leaves the rest. A request that keeps its connection open
has taken its head and its framed body, and nothing else. -/
namespace Polyguard.Proxy
open Ascii Slices BufferedInput

section Readers

theorem readExact_took {length : Nat} {stream after : List Read} {filled output : List UInt8}
    (room : filled.length < length) (read : Stream.readExact length filled stream = (.ok output,after)) :
    ∃ taken, output = filled ++ taken ∧ output.length = length ∧ Stream.bytes stream = taken ++ Stream.bytes after := by
  induction stream generalizing filled with
  | nil => cases read
  | cons answer stream ih =>
    cases answer with
    | data first rest =>
      unfold Stream.readExact at read
      dsimp only at read
      split at read
      · rename_i full
        obtain ⟨taken,left⟩ := Prod.mk.inj read
        cases taken
        refine ⟨(first :: rest).take (length - filled.length),rfl,full,?_⟩
        rw [← left,Stream.bytes_unread,Stream.bytes,← List.append_assoc,List.take_append_drop]
      · rename_i part
        rw [List.length_append,List.length_take] at part
        have whole : (first :: rest).take (length - filled.length) = first :: rest := List.take_of_length_le (by omega)
        rw [whole] at read
        have shorter : (filled ++ first :: rest).length < length := by
          rw [List.length_append]
          omega
        obtain ⟨taken,rfl,full,left⟩ := ih shorter read
        refine ⟨first :: rest ++ taken,by rw [List.append_assoc],full,?_⟩
        rw [Stream.bytes,left,List.append_assoc]
    | interrupted =>
      obtain ⟨taken,result,full,left⟩ := ih room read
      exact ⟨taken,result,full,left⟩
    | deadline => cases read
    | failed => cases read

/-- Every successful step of the reader returns a value for a text that it takes off the input. -/
def Took {α : Type} (reader : Reading α) (returns : α → List UInt8 → Prop) : Prop :=
  ∀ input value after, reader input = .ok value after → ∃ text, input.pending = text ++ after.pending ∧ returns value text

theorem fill_took {length : Nat} {filled : List UInt8} (room : filled.length < length) {input after : BufferedInput}
    {output : List UInt8} (filled' : fill length filled input = .ok output after) :
    ∃ taken, output = filled ++ taken ∧ output.length = length ∧ Stream.bytes input.stream = taken ++ Stream.bytes after.stream ∧
      after.buffer = input.buffer ∧ after.offset = input.offset := by
  unfold fill at filled'
  cases read : Stream.readExact length filled input.stream with
  | mk result stream =>
    rw [read] at filled'
    cases result with
    | error error => cases filled'
    | ok bytes =>
      cases filled'
      obtain ⟨taken,same,full,left⟩ := readExact_took room read
      exact ⟨taken,same,full,left,rfl,rfl⟩

theorem byte_took : Took readByte fun byte text => text = [byte] := by
  intro input byte after read
  unfold readByte at read
  unfold pending
  cases here : input.buffer[input.offset]? with
  | some found =>
    rw [here] at read
    cases read
    obtain ⟨inside,value⟩ := List.getElem?_eq_some_iff.mp here
    exact ⟨[byte],by rw [List.drop_eq_getElem_cons inside,value]; rfl,rfl⟩
  | none =>
    rw [here] at read
    dsimp only at read
    rw [List.drop_eq_nil_of_le (List.getElem?_eq_none_iff.mp here)]
    cases filled : fill 1 [] { input with buffer := [], offset := 0 } with
    | error fault failed =>
      rw [filled] at read
      cases read
    | ok bytes left =>
      rw [filled] at read
      cases read
      obtain ⟨taken,rfl,single,rest,buffer,offset⟩ := fill_took (by decide) filled
      obtain ⟨byte,rfl⟩ := List.length_eq_one_iff.mp (by simpa using single)
      refine ⟨[byte],?_,rfl⟩
      rw [buffer,offset]
      simpa using rest

theorem vec_took (length : Nat) : Took (readExactVec length) fun bytes text => text = bytes ∧ bytes.length = length := by
  intro input bytes after read
  unfold readExactVec bufferedLen at read
  dsimp only at read
  unfold pending
  split at read
  · rename_i short
    have all : input.offset + min (input.buffer.length - input.offset) length ≥ input.buffer.length := by omega
    have front : slice input.buffer input.offset (input.offset + min (input.buffer.length - input.offset) length) =
        input.buffer.drop input.offset := by
      unfold slice
      rw [List.take_of_length_le all]
    rw [front] at read
    obtain ⟨taken,rfl,full,rest,buffer,offset⟩ := fill_took (by rw [List.length_drop]; omega) read
    refine ⟨_,?_,rfl,full⟩
    rw [buffer,offset,List.drop_eq_nil_of_le all,List.nil_append,List.append_assoc]
    exact congrArg _ rest
  · rename_i enough
    cases read
    have inside : min (input.buffer.length - input.offset) length = length := by omega
    rw [inside]
    refine ⟨_,?_,rfl,?_⟩
    · unfold slice
      rw [← List.append_assoc,List.drop_take,Nat.add_sub_cancel_left,← List.drop_drop,List.take_append_drop]
    · unfold slice
      rw [List.length_drop,List.length_take]
      omega

/-- A text that ends with its first line break. -/
structure LineWire (text : List UInt8) : Prop where
  closed : [0x0d,0x0a] <:+ text
  first : ∀ front, front <+: text → [0x0d,0x0a] <:+ front → front = text

theorem line_took_loop (room : Nat) (output : List UInt8)
    (open' : ∀ front, front <+: output → ¬ [0x0d,0x0a] <:+ front) :
    Took (readLineLoop room output) fun whole text => whole = output ++ text ∧ LineWire whole := by
  induction room generalizing output with
  | zero =>
    intro input whole after read
    cases read
  | succ room ih =>
    intro input whole after read
    unfold readLineLoop at read
    simp only [bind,EStateM.bind] at read
    cases byteRead : readByte input with
    | error fault failed =>
      rw [byteRead] at read
      cases read
    | ok byte middle =>
      rw [byteRead] at read
      dsimp only at read
      obtain ⟨text,pending,rfl⟩ := byte_took input byte middle byteRead
      split at read
      · rename_i closed
        cases read
        refine ⟨[byte],pending,rfl,⟨List.isSuffixOf_iff_suffix.mp closed,?_⟩⟩
        intro front within suffix
        rcases List.prefix_concat_iff.mp within with whole | inside
        · exact whole
        · exact absurd suffix (open' front inside)
      · rename_i unclosed
        have opened : ∀ front, front <+: output ++ [byte] → ¬ [0x0d,0x0a] <:+ front := by
          intro front within suffix
          rcases List.prefix_concat_iff.mp within with rfl | inside
          · exact unclosed (List.isSuffixOf_iff_suffix.mpr suffix)
          · exact open' front inside suffix
        obtain ⟨rest,left,rfl,whole⟩ := ih (output ++ [byte]) opened middle whole after read
        refine ⟨byte :: rest,?_,by rw [List.append_assoc]; rfl,whole⟩
        rw [pending,left]
        rfl

theorem line_took (max : Nat) : Took (readLine max) fun whole text => text = whole ∧ LineWire whole := by
  intro input whole after read
  have opened : ∀ front : List UInt8, front <+: [] → ¬ [0x0d,0x0a] <:+ front := by
    intro front within suffix
    rw [List.prefix_nil.mp within] at suffix
    exact absurd (List.suffix_nil.mp suffix) (by decide)
  obtain ⟨text,pending,same,wire⟩ := line_took_loop (max + 1) [] opened input whole after read
  exact ⟨text,pending,same.symm,wire⟩

/-- The lines of a trailer section with the empty one behind them. -/
def TrailerWire (text : List UInt8) : Prop :=
  ∃ lines : List (List UInt8), (∀ entry ∈ lines, LineWire entry ∧ entry ≠ [0x0d,0x0a]) ∧ text = lines.flatten ++ [0x0d,0x0a]

theorem trailers_took_loop (max rounds : Nat) (output : List UInt8) (lines : List (List UInt8))
    (read : ∀ entry ∈ lines, LineWire entry ∧ entry ≠ [0x0d,0x0a]) (whole : output = lines.flatten) :
    Took (readTrailersLoop max rounds output) fun all text => all = output ++ text ∧ TrailerWire all := by
  induction rounds generalizing output lines with
  | zero =>
    intro input all after read
    cases read
  | succ rounds ih =>
    intro input all after ran
    unfold readTrailersLoop at ran
    simp only [bind,EStateM.bind] at ran
    cases fetched : readLine (max - output.length) input with
    | error fault failed =>
      rw [fetched] at ran
      cases ran
    | ok entry middle =>
      rw [fetched] at ran
      dsimp only at ran
      obtain ⟨text,pending,rfl,wire⟩ := line_took _ input entry middle fetched
      split at ran
      · cases ran
      · split at ran
        · rename_i empty
          cases ran
          exact ⟨text,pending,rfl,lines,read,by rw [whole,empty]⟩
        · rename_i nonempty
          have grown : ∀ entry ∈ lines ++ [text], LineWire entry ∧ entry ≠ [0x0d,0x0a] := by
            intro entry member
            rcases List.mem_append.mp member with inside | last
            · exact read entry inside
            · rw [List.mem_singleton.mp last]
              exact ⟨wire,nonempty⟩
          obtain ⟨rest,left,rfl,done⟩ := ih (output ++ text) (lines ++ [text]) grown (by simp [whole]) middle all after ran
          refine ⟨text ++ rest,?_,by rw [List.append_assoc],done⟩
          rw [pending,left,List.append_assoc]

theorem trailers_took (max : Nat) : Took (readTrailers max) fun all text => text = all ∧ TrailerWire all := by
  intro input all after ran
  obtain ⟨text,pending,same,wire⟩ := trailers_took_loop max (max + 1) [] [] (by simp) rfl input all after ran
  exact ⟨text,pending,same.symm,wire⟩

end Readers

section Heads

theorem read_took {room : Nat} {stream after : List Read} {taken : List UInt8}
    (read : Stream.read room stream = (.ok taken,after)) : Stream.bytes stream = taken ++ Stream.bytes after := by
  cases stream with
  | nil =>
    cases read
    rfl
  | cons answer stream =>
    cases answer with
    | data first rest =>
      cases read
      rw [Stream.bytes_unread,Stream.bytes,← List.append_assoc,List.take_append_drop]
    | interrupted => cases read
    | deadline => cases read
    | failed => cases read

theorem findSequence_iff (haystack needle : List UInt8) (stop : Nat) :
    findSequence haystack needle = some stop ↔ stop < haystack.length + 1 - needle.length ∧
      (haystack.drop stop).take needle.length = needle ∧
        ∀ start < stop, (haystack.drop start).take needle.length ≠ needle := by
  unfold findSequence position
  rw [List.findIdx?_eq_some_iff_getElem]
  simp only [List.length_range,List.getElem_range,beq_iff_eq]
  exact ⟨fun ⟨inside,found,before⟩ => ⟨inside,found,fun start earlier => before start earlier⟩,
    fun ⟨inside,found,before⟩ => ⟨inside,found,fun start earlier => before start earlier⟩⟩

theorem findSequence_front {haystack needle : List UInt8} {stop : Nat} (found : findSequence haystack needle = some stop) :
    findSequence (haystack.take (stop + needle.length)) needle = some stop ∧
      (haystack.take (stop + needle.length)).length = stop + needle.length := by
  obtain ⟨inside,here,before⟩ := (findSequence_iff haystack needle stop).mp found
  have sized : (haystack.take (stop + needle.length)).length = stop + needle.length := by
    rw [List.length_take]
    omega
  have cut (start : Nat) (within : start ≤ stop) : ((haystack.take (stop + needle.length)).drop start).take needle.length =
      (haystack.drop start).take needle.length := by
    rw [List.drop_take,List.take_take,Nat.min_eq_left (by omega)]
  refine ⟨(findSequence_iff _ needle stop).mpr ⟨by omega,?_,?_⟩,sized⟩
  · rw [cut stop (Nat.le_refl stop)]
    exact here
  · intro start earlier
    rw [cut start (Nat.le_of_lt earlier)]
    exact before start earlier

/-- A text that ends with its first blank line. -/
def HeadWire (head : List UInt8) : Prop :=
  ∃ stop, findSequence head [0x0d,0x0a,0x0d,0x0a] = some stop ∧ head.length = stop + 4

theorem head_took_loop {max : Nat} {stream after : List Read} {bytes head remainder : List UInt8}
    (ran : readHeadLoop max stream bytes = (.ok (head,remainder),after)) :
    HeadWire head ∧ bytes ++ Stream.bytes stream = head ++ remainder ++ Stream.bytes after := by
  fun_induction readHeadLoop max stream bytes with
  | case1 => cases ran
  | case2 => cases ran
  | case3 => cases ran
  | case4 stream bytes first rest next answered bytes' stop found fits =>
    obtain ⟨parts,rfl⟩ := Prod.mk.inj ran
    obtain ⟨rfl,rfl⟩ := Prod.mk.inj (Except.ok.inj parts)
    obtain ⟨front,sized⟩ := findSequence_front found
    refine ⟨⟨stop,front,sized⟩,?_⟩
    rw [read_took answered,List.take_append_drop,← List.append_assoc]
  | case5 => cases ran
  | case6 stream bytes first rest next answered bytes' missing short ih =>
    obtain ⟨wire,whole⟩ := ih ran
    refine ⟨wire,?_⟩
    rw [read_took answered,← whole,← List.append_assoc]

theorem head_took {max : Nat} {stream after : List Read} {head remainder : List UInt8}
    (read : readHead stream max = (.ok (head,remainder),after)) :
    HeadWire head ∧ Stream.bytes stream = head ++ remainder ++ Stream.bytes after := head_took_loop read

end Heads

section Bodies

/-- The chunks of a body on the wire and the bytes they carry: a line for each chunk, its data and a line break, and
behind the line of the last one the trailer section. -/
inductive ChunkedWire (calls : Calls) (headers : HeaderBlock) : List UInt8 → List UInt8 → Prop
  | last {entry trailers : List UInt8} {metadata : ChunkMeta} {declared : List (List UInt8)} {block : TrailerBlock}
      (closed : LineWire entry) (agreed : calls.parseChunkMetadata entry = .ok metadata)
      (whole : metadata.bytesConsumed = entry.length) (zero : metadata.size = 0) (section' : TrailerWire trailers)
      (names : declaredTrailers headers = .ok declared) (parsed : calls.parseTrailerSection trailers declared = .ok block)
      (used : block.bytesConsumed = trailers.length) : ChunkedWire calls headers (entry ++ trailers) []
  | chunk {entry data rest body : List UInt8} {metadata : ChunkMeta} (closed : LineWire entry)
      (agreed : calls.parseChunkMetadata entry = .ok metadata) (whole : metadata.bytesConsumed = entry.length)
      (sized : data.length = metadata.size) (some : metadata.size ≠ 0) (follows : ChunkedWire calls headers rest body) :
      ChunkedWire calls headers (entry ++ data ++ [0x0d,0x0a] ++ rest) (data ++ body)

/-- The wire of a body by its framing, with the bytes of the body. -/
def FramedBody (calls : Calls) (headers : HeaderBlock) : BodyFraming → List UInt8 → List UInt8 → Prop
  | .none,wire,body => wire = [] ∧ body = []
  | .contentLength length,wire,body => wire = body ∧ body.length = length
  | .chunked,wire,body => ChunkedWire calls headers wire body

theorem serving_bind {α β : Type} {first : Serving α} {next : α → Serving β} {connection after : Connection} {result : β}
    (ran : (first >>= next) connection = .ok result after) :
    ∃ value middle, first connection = .ok value middle ∧ next value middle = .ok result after := Fallible.run_bind_iff.mp ran

theorem serving_except {α : Type} {outcome : Outcome α} {connection after : Connection} {value : α}
    (ran : (MonadExcept.ofExcept outcome : Serving α) connection = .ok value after) :
    outcome = .ok value ∧ connection = after := by
  cases outcome with
  | error fault => cases ran
  | ok given =>
    cases ran
    exact ⟨rfl,rfl⟩

theorem consult_ok {α : Type} {function : String} {outcome : Outcome α} {connection after : Connection} {value : α}
    (ran : consult function outcome connection = .ok value after) :
    outcome = .ok value ∧ after = { connection with events := connection.events ++ [.called function true] } := by
  obtain ⟨_,middle,noted,ran⟩ := serving_bind ran
  cases noted
  obtain ⟨rfl,rfl⟩ := serving_except ran
  exact ⟨rfl,rfl⟩

theorem reply_ok {takes : Delivery} {bytes : List UInt8} {connection after : Connection} {value : Unit}
    (ran : reply takes bytes connection = .ok value after) :
    after = { connection with events := connection.events ++ [.replied bytes] } := by
  cases takes with
  | whole =>
    cases ran
    rfl
  | torn count => cases ran

theorem receive_ok {α : Type} {step : Reading α} {connection after : Connection} {value : α}
    (ran : receive step connection = .ok value after) :
    ∃ client, step connection.client = .ok value client ∧ after = { connection with client } := by
  unfold receive at ran
  cases read : step connection.client with
  | error fault client =>
    rw [read] at ran
    cases ran
  | ok given client =>
    rw [read] at ran
    cases ran
    exact ⟨client,rfl,rfl⟩

theorem receive_took {α : Type} {step : Reading α} {returns : α → List UInt8 → Prop} (took : Took step returns)
    {connection after : Connection} {value : α} (ran : receive step connection = .ok value after) :
    ∃ text, connection.client.pending = text ++ after.client.pending ∧ returns value text := by
  obtain ⟨client,read,rfl⟩ := receive_ok ran
  exact took connection.client value client read

variable {gateway : Gateway} {headers : HeaderBlock}

theorem finish_took {connection after : Connection} {value : Unit}
    (ran : finishRequestBody gateway headers connection = .ok value after) :
    ∃ trailers declared block, connection.client.pending = trailers ++ after.client.pending ∧ TrailerWire trailers ∧
      declaredTrailers headers = .ok declared ∧ gateway.calls.parseTrailerSection trailers declared = .ok block ∧
      block.bytesConsumed = trailers.length := by
  obtain ⟨wire,first,read,ran⟩ := serving_bind ran
  obtain ⟨text,pending,rfl,section'⟩ := receive_took (trailers_took _) read
  obtain ⟨declared,second,named,ran⟩ := serving_bind ran
  obtain ⟨names,rfl⟩ := serving_except named
  obtain ⟨block,third,parsed,ran⟩ := serving_bind ran
  obtain ⟨agreed,rfl⟩ := consult_ok parsed
  split at ran
  · cases ran
  · rename_i used
    cases ran
    exact ⟨text,declared,block,pending,section',names,agreed,not_not.mp used⟩

theorem chunks_took (max rounds : Nat) : ∀ {decoded : List UInt8} {account : Account} {connection after : Connection}
    {body : List UInt8}, readChunksLoop gateway headers max rounds decoded account connection = .ok body after →
    ∃ wire rest, connection.client.pending = wire ++ after.client.pending ∧ ChunkedWire gateway.calls headers wire rest ∧
      body = decoded ++ rest := by
  induction rounds with
  | zero =>
    intro decoded account connection after body ran
    cases ran
  | succ rounds ih =>
    intro decoded account connection after body ran
    unfold readChunksLoop at ran
    obtain ⟨entry,first,read,ran⟩ := serving_bind ran
    obtain ⟨text,pending,rfl,closed⟩ := receive_took (line_took _) read
    obtain ⟨metadata,second,parsed,ran⟩ := serving_bind ran
    obtain ⟨agreed,rfl⟩ := consult_ok parsed
    split at ran
    · cases ran
    · rename_i whole
      split at ran
      · cases ran
      · split at ran
        · rename_i zero
          obtain ⟨_,last,finished,ran⟩ := serving_bind ran
          cases ran
          obtain ⟨trailers,declared,block,left,section',names,given,used⟩ := finish_took finished
          refine ⟨text ++ trailers,[],?_,.last closed agreed (not_not.mp whole) zero section' names given used,by simp⟩
          rw [pending,List.append_assoc]
          exact congrArg _ left
        · rename_i some
          obtain ⟨account',third,grown,ran⟩ := serving_bind ran
          obtain ⟨-,rfl⟩ := serving_except grown
          obtain ⟨data,fourth,dataRead,ran⟩ := serving_bind ran
          obtain ⟨dataText,dataPending,rfl,sized⟩ := receive_took (vec_took _) dataRead
          obtain ⟨terminator,fifth,endRead,ran⟩ := serving_bind ran
          obtain ⟨endText,endPending,rfl,-⟩ := receive_took (vec_took _) endRead
          split at ran
          · cases ran
          · rename_i closing
            obtain ⟨wire,rest,left,follows,rfl⟩ := ih ran
            refine ⟨text ++ dataText ++ [0x0d,0x0a] ++ wire,dataText ++ rest,?_,
              .chunk closed agreed (not_not.mp whole) sized some follows,by rw [List.append_assoc]⟩
            rw [not_not.mp closing] at endPending
            rw [pending,List.append_assoc,List.append_assoc,List.append_assoc]
            refine congrArg _ (dataPending.trans (congrArg _ (endPending.trans ?_)))
            rw [left]

theorem body_took {around : Surroundings} {framing : BodyFraming} {max : Nat} {connection after : Connection}
    {body : List UInt8} (ran : readRequestBody gateway around framing headers max connection = .ok body after) :
    ∃ wire, connection.client.pending = wire ++ after.client.pending ∧ FramedBody gateway.calls headers framing wire body := by
  unfold readRequestBody at ran
  cases framing with
  | none =>
    obtain ⟨_,middle,reserved,ran⟩ := serving_bind ran
    obtain ⟨-,rfl⟩ := serving_except reserved
    cases ran
    exact ⟨[],rfl,rfl,rfl⟩
  | contentLength length =>
    dsimp only at ran
    split at ran
    · cases ran
    · obtain ⟨_,middle,reserved,ran⟩ := serving_bind ran
      obtain ⟨-,rfl⟩ := serving_except reserved
      obtain ⟨text,pending,rfl,sized⟩ := receive_took (vec_took length) ran
      exact ⟨text,pending,rfl,sized⟩
  | chunked =>
    obtain ⟨account,middle,reserved,ran⟩ := serving_bind ran
    obtain ⟨-,rfl⟩ := serving_except reserved
    obtain ⟨wire,rest,pending,chunked,rfl⟩ := chunks_took max _ ran
    exact ⟨wire,pending,chunked⟩

end Bodies

section Requests

/-- A head with the line and the fields that the agreement set reads in it, to its last byte. -/
structure ParsedHead (calls : Calls) (head : List UInt8) (request : RequestLine) (headers : HeaderBlock) : Prop where
  closed : HeadWire head
  line : calls.parseRequestLine head = .ok request
  fields : calls.parseHeaderSection (head.drop request.bytesConsumed) = .ok headers
  whole : request.bytesConsumed + headers.bytesConsumed = head.length

/-- One request on the wire: its head and the body that the agreed framing gives. -/
def RequestWire (calls : Calls) (wire : List UInt8) : Prop :=
  ∃ head rest body request headers framing, wire = head ++ rest ∧ ParsedHead calls head request headers ∧
    calls.determineBodyFraming request headers = .ok framing ∧ FramedBody calls headers framing rest body

variable {gateway : Gateway} {client : Client} {around : Surroundings}

theorem receiveHead_took {max : Nat} {connection after : Connection} {head remainder : List UInt8}
    (ran : receiveHead max connection = .ok (head,remainder) after) :
    HeadWire head ∧ Stream.bytes connection.client.stream = head ++ remainder ++ Stream.bytes after.client.stream := by
  unfold receiveHead at ran
  cases read : readHead connection.client.stream max with
  | mk result stream =>
    rw [read] at ran
    cases result with
    | error fault => cases ran
    | ok parts =>
      cases ran
      exact head_took read

theorem parseHead_took {connection after : Connection} {head remainder : List UInt8} {request : RequestLine}
    {headers : HeaderBlock} (ran : parseHead gateway around connection = .ok (head,remainder,request,headers) after) :
    ParsedHead gateway.calls head request headers ∧
      Stream.bytes connection.client.stream = head ++ remainder ++ Stream.bytes after.client.stream := by
  unfold parseHead at ran
  split at ran
  · cases ran
  · obtain ⟨⟨text,extra⟩,first,read,ran⟩ := serving_bind ran
    obtain ⟨closed,taken⟩ := receiveHead_took read
    obtain ⟨line,second,parsed,ran⟩ := serving_bind ran
    obtain ⟨lineAgreed,rfl⟩ := consult_ok parsed
    split at ran
    · cases ran
    · obtain ⟨block,third,parsed,ran⟩ := serving_bind ran
      obtain ⟨fieldsAgreed,rfl⟩ := consult_ok parsed
      split at ran
      · cases ran
      · rename_i whole
        cases ran
        exact ⟨⟨closed,lineAgreed,fieldsAgreed,not_not.mp whole⟩,taken⟩

theorem selectRuntimeRoute_client {authority : EffectiveAuthority} {target : NormalizedTarget} {method : List UInt8}
    {route : RuntimeRoute} {connection after : Connection}
    (ran : selectRuntimeRoute gateway client authority target method connection = .ok route after) :
    after.client = connection.client := by
  obtain ⟨selected,first,chosen,ran⟩ := serving_bind ran
  obtain ⟨-,rfl⟩ := serving_except chosen
  obtain ⟨guarded,second,agreed,ran⟩ := serving_bind ran
  obtain ⟨-,rfl⟩ := consult_ok agreed
  split at ran
  · cases ran
  · cases ran
    rfl

theorem admitRequest_took {connection after : Connection} {admitted : Admitted}
    (ran : admitRequest gateway client around connection = .ok admitted after) :
    ParsedHead gateway.calls admitted.head admitted.request admitted.headers ∧
      gateway.calls.determineBodyFraming admitted.request admitted.headers = .ok admitted.framing ∧
      Stream.bytes connection.client.stream = admitted.head ++ admitted.remainder ++ Stream.bytes after.client.stream := by
  obtain ⟨⟨head,remainder,request,headers⟩,first,parsed,ran⟩ := serving_bind ran
  obtain ⟨parts,taken⟩ := parseHead_took parsed
  obtain ⟨framing,second,framed,ran⟩ := serving_bind ran
  obtain ⟨framedAs,rfl⟩ := consult_ok framed
  obtain ⟨expects,third,expected,ran⟩ := serving_bind ran
  obtain ⟨-,rfl⟩ := serving_except expected
  obtain ⟨target,fourth,normalized,ran⟩ := serving_bind ran
  obtain ⟨-,rfl⟩ := consult_ok normalized
  obtain ⟨authority,fifth,reconciled,ran⟩ := serving_bind ran
  obtain ⟨-,rfl⟩ := consult_ok reconciled
  split at ran
  · cases ran
  · obtain ⟨sanitized,sixth,removed,ran⟩ := serving_bind ran
    obtain ⟨-,rfl⟩ := consult_ok removed
    obtain ⟨upgrade,seventh,decided,ran⟩ := serving_bind ran
    obtain ⟨-,rfl⟩ := consult_ok decided
    split at ran
    · cases ran
    · obtain ⟨route,eighth,selected,ran⟩ := serving_bind ran
      have same := selectRuntimeRoute_client selected
      obtain ⟨_,ninth,limited,ran⟩ := serving_bind ran
      obtain ⟨-,rfl⟩ := serving_except limited
      split at ran
      · cases ran
      · obtain ⟨forwarding,tenth,applied,ran⟩ := serving_bind ran
        obtain ⟨-,rfl⟩ := consult_ok applied
        cases ran
        refine ⟨parts,framedAs,?_⟩
        dsimp only
        rw [same]
        exact taken

/-- With nothing behind the body there is no byte left in the buffer, and the look took none off the stream. -/
theorem hasImmediateExtra_none {tls : Bool} {peek : Peek} {input after : BufferedInput}
    (ran : hasImmediateExtra tls peek input = .ok false after) : after = input ∧ input.pending = Stream.bytes input.stream := by
  unfold hasImmediateExtra at ran
  split at ran
  · cases ran
  · rename_i empty
    have none : input.buffer.drop input.offset = [] := List.drop_of_length_le (Nat.le_of_sub_eq_zero (not_not.mp empty))
    refine ⟨?_,by rw [pending,none,List.nil_append]⟩
    split at ran
    · cases ran
    · cases ran
      rfl
    · cases ran
      rfl
    · cases ran
      rfl
    · cases ran

theorem sendUpstream_client {admitted : Admitted} {head body : List UInt8} {response : UpstreamResponse}
    {connection after : Connection} (ran : sendUpstream gateway around admitted head body connection = .ok response after) :
    after.client = connection.client := by
  unfold sendUpstream at ran
  obtain ⟨_,first,noted,ran⟩ := serving_bind ran
  have same : first.client = connection.client := by
    unfold writeUpstream at noted
    split at noted
    · cases noted
      rfl
    · cases noted
      rfl
  generalize exchanged gateway.runtime _ = answer at ran
  cases answer with
  | ok response last =>
    cases ran
    exact same
  | error fault last => cases ran

theorem forwardRequest_took {admitted : Admitted} {upstream : List UInt8} {replaces hostHeader : Option (List UInt8)}
    {keeps : Bool} {connection after : Connection}
    (ran : forwardRequest gateway client around admitted upstream replaces hostHeader connection = .ok keeps after) :
    ∃ wire body, FramedBody gateway.calls admitted.headers admitted.framing wire body ∧
      admitted.remainder ++ Stream.bytes connection.client.stream = wire ++ Stream.bytes after.client.stream := by
  unfold forwardRequest at ran
  obtain ⟨_,first,continued,ran⟩ := serving_bind ran
  have same : first.client = connection.client := by
    unfold writeContinue at continued
    split at continued
    · rw [reply_ok continued]
    · cases continued
      rfl
  obtain ⟨fields,second,applied,ran⟩ := serving_bind ran
  obtain ⟨-,rfl⟩ := serving_except applied
  split at ran
  · cases ran
  · obtain ⟨_,third,buffered,ran⟩ := serving_bind ran
    cases buffered
    obtain ⟨body,fourth,read,ran⟩ := serving_bind ran
    obtain ⟨wire,taken,framed⟩ := body_took read
    obtain ⟨extra,fifth,looked,ran⟩ := serving_bind ran
    obtain ⟨left,found,rfl⟩ := receive_ok looked
    split at ran
    · cases ran
    · rename_i none
      rw [Bool.not_eq_true] at none
      subst none
      obtain ⟨rfl,ended⟩ := hasImmediateExtra_none found
      split at ran
      · cases ran
      · obtain ⟨target,sixth,rewritten,ran⟩ := serving_bind ran
        obtain ⟨-,rfl⟩ := serving_except rewritten
        obtain ⟨canonical,seventh,agreed,ran⟩ := serving_bind ran
        obtain ⟨-,rfl⟩ := consult_ok agreed
        obtain ⟨response,eighth,sent,ran⟩ := serving_bind ran
        have still := sendUpstream_client sent
        obtain ⟨_,ninth,replied,ran⟩ := serving_bind ran
        cases ran
        refine ⟨wire,body,framed,?_⟩
        rw [reply_ok replied]
        dsimp only
        rw [still]
        dsimp only
        rw [← ended,← taken,same]
        rfl

theorem answerLocally_keeps {admitted : Admitted} {response : Outcome (List UInt8)} {connection after : Connection}
    (ran : answerLocally around admitted response connection = .ok true after) :
    admitted.framing = .none ∧ admitted.remainder = [] ∧ after.client = connection.client := by
  obtain ⟨bytes,first,given,ran⟩ := serving_bind ran
  obtain ⟨-,rfl⟩ := serving_except given
  obtain ⟨_,second,replied,ran⟩ := serving_bind ran
  obtain ⟨kept,rfl⟩ : keepsAlive admitted = true ∧ second = after := by
    cases keeps : keepsAlive admitted with
    | false =>
      rw [keeps] at ran
      cases ran
    | true =>
      rw [keeps] at ran
      cases ran
      exact ⟨rfl,rfl⟩
  unfold keepsAlive at kept
  rw [Bool.and_eq_true,Bool.and_eq_true,beq_iff_eq,List.isEmpty_iff] at kept
  exact ⟨kept.1.2,kept.2,by rw [reply_ok replied]⟩

theorem processRequest_took {connection after : Connection}
    (ran : processRequest gateway client around connection = .ok true after) :
    ∃ wire, RequestWire gateway.calls wire ∧ Stream.bytes connection.client.stream = wire ++ Stream.bytes after.client.stream := by
  obtain ⟨admitted,middle,admits,ran⟩ := serving_bind ran
  obtain ⟨parsed,framed,taken⟩ := admitRequest_took admits
  have answered {response : Outcome (List UInt8)} (ran : answerLocally around admitted response middle = .ok true after) :
      ∃ wire, RequestWire gateway.calls wire ∧
        Stream.bytes connection.client.stream = wire ++ Stream.bytes after.client.stream := by
    obtain ⟨bodiless,nothing,same⟩ := answerLocally_keeps ran
    refine ⟨admitted.head ++ [],⟨_,[],[],_,_,_,rfl,parsed,framed,?_⟩,?_⟩
    · rw [bodiless]
      exact ⟨rfl,rfl⟩
    · rw [taken,nothing,same]
  generalize admitted.route.action = action at ran
  cases action with
  | redirect status location => exact answered ran
  | respond status body contentType => exact answered ran
  | files => exact answered ran
  | proxy upstream replaces hostHeader =>
    obtain ⟨rest,body,wire,left⟩ := forwardRequest_took ran
    refine ⟨admitted.head ++ rest,⟨_,rest,body,_,_,_,rfl,parsed,framed,wire⟩,?_⟩
    rw [taken,List.append_assoc,left,List.append_assoc]

end Requests

section Connections
variable {gateway : Nat → Gateway} {client : Client} {around : Nat → Surroundings}

/-- A request follows another one on the connection that the other one kept open. -/
def Follows (visited next : Visit) : Prop := visited.outcome = .ok true ∧ next.before = visited.after

/-- The wires of requests one behind another, each under the runtime that it found. -/
def RequestWires (gateway : Nat → Gateway) : Nat → List (List UInt8) → Prop
  | _,[] => True
  | completed,wire :: wires => RequestWire (gateway completed).calls wire ∧ RequestWires gateway (completed + 1) wires

/-- Before a request, the stream has given the wires of those processed before it, and no other byte. -/
def Bounded (gateway : Nat → Gateway) (completed requests : Nat) (stream : List Read) (visited : Visit) : Prop :=
  ∃ wires : List (List UInt8), wires.length = requests ∧ RequestWires gateway completed wires ∧
    Stream.bytes stream = wires.flatten ++ Stream.bytes visited.before.client.stream

theorem visit_kept {gateway : Gateway} {around : Surroundings} {connection : Connection}
    (kept : (visit gateway client around connection).outcome = .ok true) :
    ∃ wire, RequestWire gateway.calls wire ∧ Stream.bytes connection.client.stream =
      wire ++ Stream.bytes (visit gateway client around connection).after.client.stream := by
  unfold visit at kept ⊢
  cases ran : processRequest gateway client around connection with
  | error fault after =>
    rw [ran] at kept
    cases kept
  | ok keeps after =>
    rw [ran] at kept
    cases kept
    exact processRequest_took ran

@[simp] theorem visit_before {gateway : Gateway} {around : Surroundings} {connection : Connection} :
    (visit gateway client around connection).before = connection := by
  unfold visit
  split <;> rfl

theorem handleLoop_head (gateway : Nat → Gateway) (client : Client) (around : Nat → Surroundings) (more completed : Nat)
    (connection : Connection) : ∃ rest, handleLoop gateway client around more completed connection =
      visit (gateway completed) client (around completed) connection :: rest := by
  cases more with
  | zero => exact ⟨_,rfl⟩
  | succ more =>
    unfold handleLoop
    dsimp only
    split
    · exact ⟨_,rfl⟩
    · exact ⟨_,rfl⟩

/-- The loop goes on behind a request that kept the connection open, where it left the connection. -/
theorem handleLoop_follows (more completed : Nat) (connection : Connection) :
    (handleLoop gateway client around more completed connection).IsChain Follows := by
  induction more generalizing completed connection with
  | zero => exact .singleton _
  | succ more ih =>
    unfold handleLoop
    dsimp only
    split
    · rename_i kept
      let after := (visit (gateway completed) client (around completed) connection).after
      have later := ih (completed + 1) after
      obtain ⟨rest,begins⟩ := handleLoop_head gateway client around more (completed + 1) after
      rw [begins] at later ⊢
      exact .cons_cons ⟨kept,visit_before⟩ later
    · exact .singleton _

theorem visit_bounded (completed : Nat) (connection : Connection) :
    Bounded gateway completed 0 connection.client.stream (visit (gateway completed) client (around completed) connection) := by
  refine ⟨[],rfl,trivial,?_⟩
  rw [visit_before]
  rfl

theorem handleLoop_bounded (more completed i : Nat) (connection : Connection) (visited : Visit)
    (processed : (handleLoop gateway client around more completed connection)[i]? = some visited) :
    visited = visit (gateway (completed + i)) client (around (completed + i)) visited.before ∧
      Bounded gateway completed i connection.client.stream visited := by
  induction more generalizing completed connection i with
  | zero =>
    cases i with
    | zero =>
      cases processed
      exact ⟨by rw [visit_before]; rfl,visit_bounded completed connection⟩
    | succ i => cases processed
  | succ more ih =>
    obtain ⟨rest,begins⟩ := handleLoop_head gateway client around (more + 1) completed connection
    cases i with
    | zero =>
      rw [begins] at processed
      cases processed
      exact ⟨by rw [visit_before]; rfl,visit_bounded completed connection⟩
    | succ i =>
      unfold handleLoop at processed
      dsimp only at processed
      split at processed
      · rename_i kept
        obtain ⟨same,wires,sized,each,left⟩ := ih (completed + 1) i _ processed
        obtain ⟨wire,request,taken⟩ := visit_kept kept
        refine ⟨?_,wire :: wires,congrArg (· + 1) sized,⟨request,each⟩,?_⟩
        · rw [Nat.add_right_comm completed 1 i] at same
          exact same
        · rw [taken,left,List.flatten_cons,List.append_assoc]
      · cases processed

/-- Every request that a connection processes starts where the wires of those before it end, and there is one behind
it only when it kept the connection open. -/
theorem requests_keep_boundaries (gateway : Nat → Gateway) (client : Client) (around : Nat → Surroundings) (stream : List Read) :
    (handleConnection gateway client around stream).IsChain Follows ∧
      ∀ i : Fin (handleConnection gateway client around stream).length,
        (handleConnection gateway client around stream).get i = visit (gateway i) client (around i)
          ((handleConnection gateway client around stream).get i).before ∧
        Bounded gateway 0 i stream ((handleConnection gateway client around stream).get i) := by
  refine ⟨handleLoop_follows 999 0 _,fun i => ?_⟩
  have processed := List.getElem?_eq_getElem i.isLt
  obtain ⟨same,bounded⟩ := handleLoop_bounded 999 0 i _ _ processed
  rw [Nat.zero_add] at same
  exact ⟨same,bounded⟩

end Connections

end Polyguard.Proxy
