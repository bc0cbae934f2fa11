import Polyguard.Proxy.Boundaries
import Polyguard.Proxy.Chunked
import Polyguard.RequestLine.Agreement
import Polyguard.Header.Agreement

/-! The head of a request and the parsers of its parts.
How a stream is cut into reads decides only how much is read behind a head. The first
blank line of a head is the one where the header section ends, so that the two parsers
leave no byte of it. -/
namespace Polyguard.Proxy
open Ascii Slices BufferedInput

section Sequences

theorem findSequence_append {front needle : List UInt8} {stop : Nat} (found : findSequence front needle = some stop)
    (back : List UInt8) : findSequence (front ++ back) needle = some stop := by
  obtain ⟨inside,here,before⟩ := (findSequence_iff front needle stop).mp found
  have same (start : Nat) (within : start ≤ stop) :
      ((front ++ back).drop start).take needle.length = (front.drop start).take needle.length := by
    rw [List.drop_append_of_le_length (by omega),List.take_append_of_le_length (by rw [List.length_drop]; omega)]
  refine (findSequence_iff _ needle stop).mpr ⟨by rw [List.length_append]; omega,?_,fun start earlier => ?_⟩
  · rw [same stop (Nat.le_refl stop)]
    exact here
  · rw [same start (Nat.le_of_lt earlier)]
    exact before start earlier

theorem findSequence_inside {front back needle : List UInt8} {stop : Nat} (found : findSequence (front ++ back) needle = some stop)
    (within : stop + needle.length ≤ front.length) : findSequence front needle = some stop := by
  have cut := (findSequence_front found).1
  rw [List.take_append_of_le_length within] at cut
  have whole := findSequence_append cut (front.drop (stop + needle.length))
  rwa [List.take_append_drop] at whole

end Sequences

section Reads

def blankLine : List UInt8 := [0x0d,0x0a,0x0d,0x0a]

/-- A stream that gives its bytes in reads and then ends; a read of more than is asked for is cut. -/
def Delivers (stream : List Read) : Prop := ∀ read ∈ stream, ∃ first rest, read = .data first rest

/-- The head of the bytes of a stream, however it is cut into reads, or the fault in its place. -/
def headOf (bytes : List UInt8) (max : Nat) : Outcome (List UInt8) :=
  match findSequence bytes blankLine with
  | some stop => if stop + 4 ≤ max then .ok (bytes.take (stop + 4)) else .error .tooLarge
  | none => .error (if max < bytes.length then .tooLarge else if bytes = [] then .clientClosed else .clientIo)

theorem unread_delivers {bytes : List UInt8} {stream : List Read} (delivers : Delivers stream) : Delivers (Stream.unread bytes stream) := by
  cases bytes with
  | nil => exact delivers
  | cons first rest =>
    intro read member
    rcases List.mem_cons.mp member with rfl | inside
    · exact ⟨first,rest,rfl⟩
    · exact delivers read inside

theorem read_delivers {room : Nat} {stream next : List Read} {answer : Except IoError (List UInt8)} (delivers : Delivers stream)
    (positive : 0 < room) (answered : Stream.read room stream = (answer,next)) :
    (stream = [] ∧ answer = .ok [] ∧ next = []) ∨ ∃ first rest, answer = .ok (first :: rest) ∧ Delivers next := by
  cases stream with
  | nil =>
    cases answered
    exact .inl ⟨rfl,rfl,rfl⟩
  | cons read stream =>
    obtain ⟨first,rest,rfl⟩ := delivers read List.mem_cons_self
    cases answered
    obtain ⟨room,rfl⟩ := Nat.exists_eq_succ_of_ne_zero (Nat.ne_of_gt positive)
    exact .inr ⟨first,rest.take room,rfl,unread_delivers fun other member => delivers other (List.mem_cons_of_mem _ member)⟩

theorem readHeadLoop_headOf {max : Nat} {stream : List Read} {bytes : List UInt8} (delivers : Delivers stream)
    (missing : findSequence bytes blankLine = none) (short : bytes.length ≤ max) :
    (readHeadLoop max stream bytes).1.map Prod.fst = headOf (bytes ++ Stream.bytes stream) max := by
  fun_induction readHeadLoop max stream bytes with
  | case1 stream bytes error next answered =>
    obtain ⟨-,impossible,-⟩ | ⟨_,_,impossible,-⟩ := read_delivers delivers (by decide) answered <;> cases impossible
  | case2 stream bytes next answered =>
    obtain ⟨rfl,-,-⟩ | ⟨_,_,impossible,-⟩ := read_delivers delivers (by decide) answered
    · rw [Stream.bytes,List.append_nil,headOf,missing]
      dsimp only
      rw [if_neg (Nat.not_lt.mpr short)]
      rfl
    · cases impossible
  | case3 stream bytes first rest next answered bytes' stop found long =>
    have whole : findSequence (bytes' ++ Stream.bytes next) blankLine = some stop := findSequence_append found _
    rw [read_took answered,← List.append_assoc,headOf,whole]
    dsimp only
    rw [if_neg (Nat.not_le.mpr long)]
    rfl
  | case4 stream bytes first rest next answered bytes' stop found fits =>
    have sized : stop + 4 ≤ bytes'.length := by
      have inside := ((findSequence_iff _ _ _).mp found).1
      change stop < bytes'.length + 1 - 4 at inside
      omega
    have whole : findSequence (bytes' ++ Stream.bytes next) blankLine = some stop := findSequence_append found _
    rw [read_took answered,← List.append_assoc,headOf,whole]
    dsimp only
    rw [if_pos (Nat.not_lt.mp fits),List.take_append_of_le_length sized]
    rfl
  | case5 stream bytes first rest next answered bytes' absent long =>
    rw [read_took answered,← List.append_assoc]
    change _ = headOf (bytes' ++ Stream.bytes next) max
    unfold headOf
    cases found : findSequence (bytes' ++ Stream.bytes next) blankLine with
    | none =>
      dsimp only
      rw [if_pos (by rw [List.length_append]; omega)]
      rfl
    | some stop =>
      -- A blank line behind the bytes read so far ends behind the maximum as well.
      have behind : ¬ stop + 4 ≤ max := by
        intro fits
        have here := findSequence_inside found (show stop + 4 ≤ bytes'.length by omega)
        rw [blankLine,absent] at here
        cases here
      dsimp only
      rw [if_neg behind]
      rfl
  | case6 stream bytes first rest next answered bytes' absent fits ih =>
    obtain ⟨-,impossible,-⟩ | ⟨_,_,-,later⟩ := read_delivers delivers (by decide) answered
    · cases impossible
    · rw [read_took answered,← List.append_assoc]
      exact ih later absent (Nat.not_lt.mp fits)

theorem readHead_headOf {stream : List Read} (delivers : Delivers stream) (max : Nat) :
    (readHead stream max).1.map Prod.fst = headOf (Stream.bytes stream) max :=
  @readHeadLoop_headOf max stream [] delivers (by decide) (Nat.zero_le max)

end Reads

section Boundaries
open HeaderFraming

theorem wire_ends (lines : List (List UInt8)) : wire lines = [] ∨ ∃ front, wire lines = front ++ [0x0d,0x0a] := by
  induction lines with
  | nil => exact .inl rfl
  | cons line lines ih =>
    rw [wire_cons]
    rcases ih with empty | ⟨front,same⟩
    · exact .inr ⟨line,by rw [empty]⟩
    · exact .inr ⟨line ++ 0x0d :: 0x0a :: front,by rw [same]; simp⟩

theorem head_closed {head front rest : List UInt8} (closed : HeadWire head) (same : head = front ++ (blankLine ++ rest)) : rest = [] := by
  obtain ⟨stop,found,sized⟩ := closed
  have first := ((findSequence_iff _ _ _).mp found).2.2
  have early : stop ≤ front.length := by
    by_contra later
    refine first front.length (Nat.lt_of_not_le later) ?_
    rw [same,List.drop_left]
    rfl
  have total := congrArg List.length same
  rw [List.length_append,List.length_append,show blankLine.length = 4 from rfl] at total
  exact List.length_eq_zero_iff.mp (by omega)

theorem line_split {parse : List UInt8 → Result RequestLine} (registered : parse ∈ requestLineImplementations) {head : List UInt8}
    {request : RequestLine} (parsed : parse head = .ok request) :
    ∃ line, head = line ++ ([0x0d,0x0a] ++ head.drop request.bytesConsumed) ∧ request.bytesConsumed = line.length + 2 := by
  obtain ⟨method,target,rest,split,-,-,-,-,-,-,rfl⟩ := RequestLineAgreement.parse_accepted registered parsed
  refine ⟨method ++ 0x20 :: (target ++ 0x20 :: ascii "HTTP/1.1"),?_,rfl⟩
  have whole : head = (method ++ 0x20 :: (target ++ 0x20 :: ascii "HTTP/1.1")) ++ ([0x0d,0x0a] ++ rest) := by
    rw [split]
    simp
  dsimp only
  rw [whole,← List.drop_drop,List.drop_left]
  rfl

theorem parts_meet {parse : List UInt8 → Result RequestLine} (lineParser : parse ∈ requestLineImplementations)
    {parseSection : List UInt8 → Result HeaderBlock} (sectionParser : parseSection ∈ headerImplementations) {head : List UInt8}
    (closed : HeadWire head) {request : RequestLine} (parsed : parse head = .ok request) {headers : HeaderBlock}
    (parsedSection : parseSection (head.drop request.bytesConsumed) = .ok headers) :
    request.bytesConsumed + headers.bytesConsumed = head.length := by
  obtain ⟨line,split,counted⟩ := line_split lineParser parsed
  obtain ⟨lines,behind,fields,-,consumed,-,-⟩ := (HeaderAgreement.accepted_grammar _ headers _ sectionParser).mp parsedSection
  have closing : ∃ front, head = front ++ (blankLine ++ behind) := by
    rcases wire_ends (lines.map HeaderAgreement.FieldLine.bytes) with empty | ⟨front,same⟩
    · refine ⟨line,?_⟩
      rw [empty,List.nil_append] at fields
      rw [split,fields]
      rfl
    · refine ⟨line ++ ([0x0d,0x0a] ++ front),?_⟩
      rw [same] at fields
      rw [split,fields]
      simp [blankLine]
  obtain ⟨front,closing⟩ := closing
  obtain rfl := head_closed closed closing
  have total := congrArg List.length split
  rw [fields] at total
  simp only [List.length_append,List.length_cons,List.length_nil] at total
  omega

end Boundaries

section Unchecked
variable {gateway : Gateway} {around : Surroundings}

theorem call_returned {F T : Type} [DecidableEq T] {agreement : Agreement} {registry : List Registered}
    (unique : (registry.map (·.id)).Nodup) (positive : 1 ≤ agreement.width) {implemented : Registered → Option F} {function : String}
    {apply : F → Result T} {value : T} (returned : agreement.call registry implemented function apply = .ok value) :
    ∃ entry ∈ registry, ∃ f, implemented entry = some f ∧ apply f = .ok value := by
  have distinct : ((registry.map fun entry => (⟨entry.id,fun _ => implemented entry⟩ : Implementation F)).map (·.id)).Nodup := by
    rw [List.map_map]
    exact unique
  unfold Agreement.call at returned
  rcases Agreement.run_cases agreement distinct positive function apply with ⟨-,ran⟩ | ⟨given,some,same,ran⟩ | ⟨-,ran⟩
  · rw [ran] at returned
    cases returned
  · rw [ran] at returned
    obtain ⟨-,rfl⟩ := Agreement.settle_ok returned
    obtain ⟨entry,rest,listed⟩ := List.exists_cons_of_ne_nil some
    have member : entry ∈ agreement.quorum _ function := listed ▸ List.mem_cons_self
    obtain ⟨registered,inside,rfl⟩ := List.mem_map.mp (Agreement.mem_quorum member).1
    obtain ⟨f,held,answered⟩ := Option.map_eq_some_iff.mp (same _ member)
    exact ⟨registered,inside,f,held,answered⟩
  · rw [ran] at returned
    cases returned

variable (gateway around)

/-- The parsing of a head without the check for bytes behind the header section. -/
def parseHeadUnchecked : Serving (List UInt8 × List UInt8 × RequestLine × HeaderBlock) := do
  if !around.configures then throw .clientIo
  else
    let (head,remainder) ← receiveHead (maxRequestLineBytes + maxRequestHeaderBytes)
    let request ← consult "parse_request_line" (gateway.calls.parseRequestLine head)
    if request.bytesConsumed > head.length then throw .internal
    else
      let headers ← consult "parse_header_section" (gateway.calls.parseHeaderSection (head.drop request.bytesConsumed))
      return (head,remainder,request,headers)

variable {gateway around}

theorem parseHead_unchecked {agreement : Agreement} {registry : List Registered} (unique : (registry.map (·.id)).Nodup)
    (positive : 1 ≤ agreement.width)
    (lineParsers : ∀ entry ∈ registry, ∀ f ∈ entry.parseRequestLine, f ∈ requestLineImplementations)
    (sectionParsers : ∀ entry ∈ registry, ∀ f ∈ entry.parseHeaderSection, f ∈ headerImplementations)
    (answered : gateway.calls = agreement.calls registry) : parseHead gateway around = parseHeadUnchecked gateway around := by
  funext connection
  unfold parseHead parseHeadUnchecked
  rw [answered]
  split
  · rfl
  · change EStateM.bind _ _ connection = EStateM.bind _ _ connection
    unfold EStateM.bind
    cases received : receiveHead (maxRequestLineBytes + maxRequestHeaderBytes) connection with
    | error fault after => rfl
    | ok parts after =>
      obtain ⟨head,remainder⟩ := parts
      have closed := (receiveHead_took received).1
      dsimp only
      cases line : (agreement.calls registry).parseRequestLine head with
      | error fault => rfl
      | ok request =>
        obtain ⟨entry,member,parse,held,parsed⟩ := call_returned unique positive line
        have lineParser := lineParsers entry member parse held
        change (if request.bytesConsumed > head.length then _ else _ : Serving _) _ =
          (if request.bytesConsumed > head.length then _ else _ : Serving _) _
        by_cases long : request.bytesConsumed > head.length
        · rw [if_pos long,if_pos long]
        · rw [if_neg long,if_neg long]
          cases fields : (agreement.calls registry).parseHeaderSection (head.drop request.bytesConsumed) with
          | error fault => rfl
          | ok headers =>
            obtain ⟨other,listed,parseSection,implements,parsedSection⟩ := call_returned unique positive fields
            have meet := parts_meet lineParser (sectionParsers other listed parseSection implements) closed parsed parsedSection
            change (if request.bytesConsumed + headers.bytesConsumed ≠ head.length then _ else _ : Serving _) _ = _
            rw [if_neg (not_not.mpr meet)]
            rfl

end Unchecked

section Results

/-- Reading a head depends on the bytes of the stream only and loses none of them, and its parts are all of it. -/
theorem head_reading_exact :
    (∀ stream, Delivers stream → ∀ max, (readHead stream max).1.map Prod.fst = headOf (Stream.bytes stream) max ∧
      ∀ head remainder, (readHead stream max).1 = .ok (head,remainder) →
        Stream.bytes stream = head ++ remainder ++ Stream.bytes (readHead stream max).2) ∧
    (∀ parse ∈ requestLineImplementations, ∀ parseSection ∈ headerImplementations, ∀ stream max head remainder request headers,
      (readHead stream max).1 = .ok (head,remainder) → parse head = .ok request →
        parseSection (head.drop request.bytesConsumed) = .ok headers →
          request.bytesConsumed + headers.bytesConsumed = head.length) ∧
    ∀ (agreement : Agreement) (registry : List Registered), (registry.map (·.id)).Nodup → 1 ≤ agreement.width →
      (∀ entry ∈ registry, ∀ f ∈ entry.parseRequestLine, f ∈ requestLineImplementations) →
      (∀ entry ∈ registry, ∀ f ∈ entry.parseHeaderSection, f ∈ headerImplementations) →
        ∀ (gateway : Gateway) (around : Surroundings), gateway.calls = agreement.calls registry →
          parseHead gateway around = parseHeadUnchecked gateway around := by
  refine ⟨fun stream delivers max => ⟨readHead_headOf delivers max,fun head remainder read => ?_⟩,?_,?_⟩
  · exact (head_took (Prod.ext read rfl)).2
  · intro parse lineParser parseSection sectionParser stream max head remainder request headers read parsed parsedSection
    exact parts_meet lineParser sectionParser (head_took (Prod.ext read rfl)).1 parsed parsedSection
  · intro agreement registry unique positive lineParsers sectionParsers gateway around answered
    exact parseHead_unchecked unique positive lineParsers sectionParsers answered

/-- A blank line that is cut by two reads, with a byte behind it. -/
theorem head_reading_cut :
    (readHead [.data 0x61 [0x0d,0x0a,0x0d],.data 0x0a [0x62]] 5).1.map Prod.fst = .ok [0x61,0x0d,0x0a,0x0d,0x0a] := by
  have delivers : Delivers [.data 0x61 [0x0d,0x0a,0x0d],.data 0x0a [0x62]] := by
    intro read member
    simp only [List.mem_cons,List.not_mem_nil,or_false] at member
    rcases member with rfl | rfl
    · exact ⟨_,_,rfl⟩
    · exact ⟨_,_,rfl⟩
  rw [(head_reading_exact.1 _ delivers 5).1]
  decide

end Results
end Polyguard.Proxy
