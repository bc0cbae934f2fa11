import Mathlib.Data.Set.List
import Polyguard.Header.Fields

/-! Whole header sections.
Each implementation is brought to the complete lines of the section, read in
order, and to how the framing ends. The cursor, the table and the tail splitter
meet line faults first; the phases and the reducer settle the framing first. -/
namespace Polyguard.HeaderAgreement
open Ascii Slices HeaderFraming HeaderFields

/-- The fields of complete lines, read in order by one line reader. -/
def readLines (read : Nat → List UInt8 → Result HeaderField) :
    Nat → List (Nat × List UInt8) → Result (List HeaderField)
  | _,[] => .ok []
  | count,(offset,line) :: lines =>
    if count = headerFields then .error .tooManyHeaders
    else do
      let field ← read offset line
      let fields ← readLines read (count + 1) lines
      .ok (field :: fields)

/-- The lines are read first, then the framing has to have ended. -/
def linesFirst (fields : Result (List HeaderField)) (ending : Result Nat) : Result HeaderBlock := do
  let fields ← fields
  let consumed ← ending
  .ok ⟨fields,consumed⟩

/-- The framing has to have ended before any line is read. -/
def framingFirst (fields : Result (List HeaderField)) (ending : Result Nat) : Result HeaderBlock := do
  let consumed ← ending
  let fields ← fields
  .ok ⟨fields,consumed⟩

private theorem located_next {input suffix line rest : List UInt8} {offset : Nat}
    (located : input.drop offset = suffix) (bound : offset ≤ headerSectionBytes)
    (scanned : frameLine offset offset suffix = .ok (line,rest)) :
    input.drop (offset + line.length + 2) = rest := by
  obtain ⟨same,_,_⟩ := (frameLine_ok _ _ _ _ _ bound).mp scanned
  rw [Nat.add_assoc,← List.drop_drop,located,same,← List.drop_drop,List.drop_left]
  rfl

theorem cursor_lines {input suffix : List UInt8} {offset : Nat} {lines : List (Nat × List UInt8)}
    {ending : Result Nat} (framed : Framed offset suffix lines ending) (bound : offset ≤ headerSectionBytes)
    (located : input.drop offset = suffix) (fuel : Nat) (fields : List HeaderField)
    (enough : headerFields < fuel + fields.length) (room : fields.length ≤ headerFields) :
    HeaderTypedCursor.parseFrom input fuel offset fields =
      linesFirst (readLines parseLine fields.length lines >>= fun later => .ok (fields ++ later)) ending := by
  induction framed generalizing fuel fields with
  | failed scanned =>
    obtain ⟨fuel,rfl⟩ := Nat.exists_eq_add_one.mpr (show 0 < fuel by omega)
    rw [HeaderTypedCursor.parseFrom,cursor_line input _ _ bound located,scanned]
    simp [readLines,linesFirst]
  | ended scanned =>
    obtain ⟨fuel,rfl⟩ := Nat.exists_eq_add_one.mpr (show 0 < fuel by omega)
    rw [HeaderTypedCursor.parseFrom,cursor_line input _ _ bound located,scanned]
    simp [readLines,linesFirst]
  | @line offset suffix line rest lines ending scanned filled framed ih =>
    obtain ⟨fuel,rfl⟩ := Nat.exists_eq_add_one.mpr (show 0 < fuel by omega)
    obtain ⟨_,_,fits⟩ := (frameLine_ok _ _ _ _ _ bound).mp scanned
    rw [HeaderTypedCursor.parseFrom,cursor_line input _ _ bound located,scanned,readLines]
    simp only [bind_ok,filled,if_false]
    by_cases full : fields.length = headerFields
    · simp [full,linesFirst]
    · have next (field : HeaderField) := ih fits (located_next located bound scanned) fuel (fields ++ [field])
        (by simp; omega) (by simp; omega)
      simp only [full,if_false,cursor_name,cursor_value,next]
      unfold parseLine parseSplit
      by_cases folded : line.head?.any isBlank = true
      · simp [folded,linesFirst]
      · simp only [folded]
        cases position (· == 0x3a) line with
        | none => simp [linesFirst]
        | some colon => simp [linesFirst,bind_assoc,List.append_assoc]

private theorem algebraic_field (offset : Nat) (line : List UInt8) :
    HeaderAlgebraicLines.parseField ⟨offset,line⟩ = parseLine offset line := by
  unfold HeaderAlgebraicLines.parseField parseLine parseSplit
  cases position (· == 0x3a) line with
  | none => rfl
  | some colon => simp only [algebraic_name,algebraic_value,bind_assoc,bind_ok]

theorem algebraic_lines {suffix : List UInt8} {offset : Nat} {lines : List (Nat × List UInt8)}
    {ending : Result Nat} (framed : Framed offset suffix lines ending) (bound : offset ≤ headerSectionBytes)
    (fuel : Nat) (fields : List HeaderField)
    (enough : headerFields < fuel + fields.length) (room : fields.length ≤ headerFields) :
    HeaderAlgebraicLines.parseFrom fuel ⟨offset,suffix⟩ fields =
      linesFirst (readLines parseLine fields.length lines >>= fun later => .ok (fields ++ later)) ending := by
  induction framed generalizing fuel fields with
  | failed scanned =>
    obtain ⟨fuel,rfl⟩ := Nat.exists_eq_add_one.mpr (show 0 < fuel by omega)
    rw [HeaderAlgebraicLines.parseFrom,algebraic_line _ _ bound,scanned]
    simp [readLines,linesFirst]
  | ended scanned =>
    obtain ⟨fuel,rfl⟩ := Nat.exists_eq_add_one.mpr (show 0 < fuel by omega)
    rw [HeaderAlgebraicLines.parseFrom,algebraic_line _ _ bound,scanned]
    simp [readLines,linesFirst]
  | @line offset suffix line rest lines ending scanned filled framed ih =>
    obtain ⟨fuel,rfl⟩ := Nat.exists_eq_add_one.mpr (show 0 < fuel by omega)
    obtain ⟨_,_,fits⟩ := (frameLine_ok _ _ _ _ _ bound).mp scanned
    rw [HeaderAlgebraicLines.parseFrom,algebraic_line _ _ bound,scanned,readLines]
    simp only [bind_ok,filled,if_false]
    by_cases full : fields.length = headerFields
    · simp [full,linesFirst]
    · have next (field : HeaderField) := ih fits fuel (fields ++ [field]) (by simp; omega) (by simp; omega)
      simp only [full,if_false,algebraic_field,next]
      simp [linesFirst,bind_assoc,List.append_assoc]

theorem refines_bind {α β : Type} {read : List UInt8 → α → HeaderField} {offset : Nat} {line : List UInt8}
    {parsed : Result α} {field : Result HeaderField} (refined : Refines read offset line parsed field)
    {input tail : List UInt8} (located : input.drop offset = line ++ tail) {next : α → Result β}
    {later : HeaderField → Result β} (same : ∀ plan, next plan = later (read input plan)) :
    (parsed >>= next) = (field >>= later) := by
  obtain ⟨failing,passing⟩ := refined
  cases field with
  | error error => rw [failing error rfl,bind_error,bind_error]
  | ok value =>
    obtain ⟨plan,rfl,recorded⟩ := passing value rfl
    rw [bind_ok,bind_ok,same,recorded input tail located]

theorem table_lines {input suffix : List UInt8} {offset : Nat} {lines : List (Nat × List UInt8)}
    {ending : Result Nat} (framed : Framed offset suffix lines ending) (bound : offset ≤ headerSectionBytes)
    (located : input.drop offset = suffix) (fuel : Nat) (layouts : List HeaderDecisionTable.FieldLayout)
    (enough : headerFields < fuel + layouts.length) (room : layouts.length ≤ headerFields) :
    (HeaderDecisionTable.validateFrom input fuel offset layouts >>= fun found =>
        .ok ⟨found.1.map (HeaderDecisionTable.buildField input),found.2⟩) =
      linesFirst (readLines parseLine layouts.length lines >>= fun later =>
        .ok (layouts.map (HeaderDecisionTable.buildField input) ++ later)) ending := by
  induction framed generalizing fuel layouts with
  | failed scanned =>
    obtain ⟨fuel,rfl⟩ := Nat.exists_eq_add_one.mpr (show 0 < fuel by omega)
    rw [HeaderDecisionTable.validateFrom,table_line input _ _ located,scanned]
    simp [readLines,linesFirst]
  | ended scanned =>
    obtain ⟨fuel,rfl⟩ := Nat.exists_eq_add_one.mpr (show 0 < fuel by omega)
    rw [HeaderDecisionTable.validateFrom,table_line input _ _ located,scanned]
    simp [readLines,linesFirst]
  | @line offset suffix line rest lines ending scanned filled framed ih =>
    obtain ⟨fuel,rfl⟩ := Nat.exists_eq_add_one.mpr (show 0 < fuel by omega)
    obtain ⟨same,_,fits⟩ := (frameLine_ok _ _ _ _ _ bound).mp scanned
    have advanced : ¬ offset + line.length = offset := by
      have := List.length_pos_of_ne_nil filled
      omega
    rw [HeaderDecisionTable.validateFrom,table_line input _ _ located,scanned,readLines]
    simp only [bind_ok,advanced,if_false]
    by_cases full : layouts.length = headerFields
    · simp [full,linesFirst]
    · have next (layout : HeaderDecisionTable.FieldLayout) := ih fits (located_next located bound scanned) fuel
        (layouts ++ [layout]) (by simp; omega) (by simp; omega)
      have refined := table_field input line _ offset (located.trans same)
      simp only [full,if_false]
      have stepped : (decided offset (HeaderDecisionTable.decideLine input offset (offset + line.length)) >>=
          fun layout => linesFirst (readLines parseLine (layouts ++ [layout]).length lines >>= fun later =>
            .ok ((layouts ++ [layout]).map (HeaderDecisionTable.buildField input) ++ later)) ending) =
          linesFirst ((parseLine offset line >>= fun field =>
            readLines parseLine (layouts.length + 1) lines >>= fun fields => .ok (field :: fields)) >>=
              fun later => .ok (layouts.map (HeaderDecisionTable.buildField input) ++ later)) ending := by
        simp only [linesFirst,bind_assoc,bind_ok]
        apply refines_bind refined (located.trans same)
        intro layout
        simp
      rw [← stepped]
      cases HeaderDecisionTable.decideLine input offset (offset + line.length) with
      | accept layout => exact next layout
      | reject reason => rfl
      | nameLimit actual => rfl
      | valueLimit actual => rfl

private theorem located_wire {input line tail : List UInt8} {lines : List (List UInt8)} {offset : Nat}
    (located : input.drop offset = wire (line :: lines) ++ tail) :
    input.drop offset = line ++ (0x0d :: 0x0a :: (wire lines ++ tail)) ∧
      input.drop (offset + line.length + 2) = wire lines ++ tail := by
  have split : input.drop offset = line ++ (0x0d :: 0x0a :: (wire lines ++ tail)) := by
    rw [located,wire_cons]
    simp
  refine ⟨split,?_⟩
  rw [Nat.add_assoc,← List.drop_drop,split,← List.drop_drop,List.drop_left]
  rfl

private theorem split_line (piece line after : List UInt8) (clean : ∀ b ∈ line, Inner b) :
    HeaderTransitionReducer.splitInclusive piece (line ++ 0x0d :: 0x0a :: after) =
      (piece ++ line ++ [0x0d,0x0a]) :: HeaderTransitionReducer.splitInclusive [] after := by
  induction line generalizing piece with
  | nil => simp [HeaderTransitionReducer.splitInclusive]
  | cons byte line ih =>
    have notLf := (clean byte (by simp)).2
    rw [List.cons_append,HeaderTransitionReducer.splitInclusive,if_neg (by simpa using notLf),
      ih _ fun b member => clean b (by simp [member])]
    simp

/-- The reducer cuts the framed bytes into the lines with their CRLFs. -/
private theorem split_wire (lines : List (List UInt8)) (whole : ∀ line ∈ lines, Whole line) :
    HeaderTransitionReducer.splitInclusive [] (wire lines) = lines.map (· ++ [0x0d,0x0a]) := by
  induction lines with
  | nil => rfl
  | cons line lines ih =>
    rw [wire_cons,split_line [] line _ (whole line (by simp)).2,
      ih fun other member => whole other (by simp [member])]
    simp

theorem reducer_lines (input tail : List UInt8) (lines : List (List UInt8)) (offset ordinal : Nat)
    (located : input.drop offset = wire lines ++ tail) :
    (HeaderTransitionReducer.reduceLines ordinal offset (lines.map (· ++ [0x0d,0x0a])) >>= fun plans =>
        .ok (plans.map (HeaderTransitionReducer.materializeField input))) =
      readLines parseLine ordinal (place offset lines) := by
  induction lines generalizing offset ordinal with
  | nil => rfl
  | cons line lines ih =>
    obtain ⟨here,later⟩ := located_wire located
    rw [List.map_cons,HeaderTransitionReducer.reduceLines,place,readLines]
    by_cases full : ordinal = headerFields
    · simp [full]
    · have content : (line ++ [0x0d,0x0a]).take ((line ++ [0x0d,0x0a]).length - 2) = line := by simp
      have width : offset + (line ++ [0x0d,0x0a]).length = offset + line.length + 2 := by simp; omega
      rw [if_neg full,if_neg full,content,width,bind_assoc]
      apply refines_bind (reducer_field offset line) here
      intro plan
      rw [← ih _ _ later]
      simp [bind_assoc]

theorem phase_lines (input tail : List UInt8) (lines : List (List UInt8)) (offset : Nat)
    (plans : List HeaderStatePhases.FieldPlan) (whole : ∀ line ∈ lines, Whole line)
    (located : input.drop offset = wire lines ++ tail) :
    (HeaderStatePhases.validateFrom .lineStart offset plans (wire lines) >>= fun plans =>
        .ok (plans.map (HeaderStatePhases.materializeField input))) =
      (readLines phaseLine plans.length (place offset lines) >>= fun later =>
        .ok (plans.map (HeaderStatePhases.materializeField input) ++ later)) := by
  induction lines generalizing offset plans with
  | nil => simp [wire,HeaderStatePhases.validateFrom,place,readLines]
  | cons line lines ih =>
    obtain ⟨here,later⟩ := located_wire located
    rw [place,readLines]
    by_cases full : plans.length = headerFields
    · obtain ⟨first,rest,rfl⟩ := List.exists_cons_of_ne_nil (whole line (by simp)).1
      rw [wire_cons,List.cons_append,HeaderStatePhases.validateFrom]
      simp [full]
    · obtain ⟨parsed,refined,stepped⟩ := phase_field offset line (wire lines) plans (whole line (by simp)) full
      rw [wire_cons,stepped,if_neg full,bind_assoc,bind_assoc]
      apply refines_bind refined here
      intro plan
      rw [ih _ _ (fun other member => whole other (by simp [member])) later]
      simp [bind_assoc]

/-- A field line in its parts; `lead` and `trail` are the optional whitespace around the value. -/
structure FieldLine where
  name : List UInt8
  lead : List UInt8
  value : List UInt8
  trail : List UInt8
  named : name ≠ [] ∧ name.length ≤ headerNameBytes ∧ ∀ b ∈ name, isTchar b
  blank : (∀ b ∈ lead, isBlank b) ∧ ∀ b ∈ trail, isBlank b
  valued : value.length ≤ headerValueBytes ∧ ∀ b ∈ value, isValueByte b
  edged : (∀ b ∈ value.head?, isBlank b = false) ∧ ∀ b ∈ value.getLast?, isBlank b = false

def FieldLine.raw (line : FieldLine) : List UInt8 := line.lead ++ (line.value ++ line.trail)

/-- The line as it stands before its CRLF. -/
def FieldLine.bytes (line : FieldLine) : List UInt8 := line.name ++ 0x3a :: line.raw

def FieldLine.field (line : FieldLine) : HeaderField := ⟨line.name.map toAsciiLowercase,line.value⟩

theorem FieldLine.trim_raw (line : FieldLine) : trim isBlank line.raw = line.value := by
  obtain ⟨leading,trailing⟩ := line.blank
  obtain ⟨front,back⟩ := line.edged
  unfold FieldLine.raw
  rcases line.value.eq_nil_or_concat with empty | ⟨init,last,same⟩
  · rw [empty,List.nil_append]
    apply trim_edge
    intro b member
    rcases List.mem_append.mp member with inside | inside
    · exact leading b inside
    · exact trailing b inside
  · apply trim_core leading trailing
    · obtain ⟨first,rest,start⟩ := List.exists_cons_of_ne_nil (show line.value ≠ [] by simp [same])
      exact ⟨first,rest,start,front first (by simp [start])⟩
    · exact ⟨init,last,by simpa using same,back last (by simp [same])⟩

theorem FieldLine.raw_values (line : FieldLine) : line.raw.all isValueByte := by
  rw [List.all_eq_true]
  intro b member
  unfold FieldLine.raw at member
  rcases List.mem_append.mp member with inside | inside
  · exact (value_classes b).1 (line.blank.1 b inside)
  · rcases List.mem_append.mp inside with inside | inside
    · exact line.valued.2 b inside
    · exact (value_classes b).1 (line.blank.2 b inside)

theorem FieldLine.no_colon (line : FieldLine) : 0x3a ∉ line.name := by
  intro member
  exact absurd (line.named.2.2 0x3a member) (by decide)

theorem parseLine_ok_iff (offset : Nat) (bytes : List UInt8) (field : HeaderField) :
    parseLine offset bytes = .ok field ↔ ∃ line : FieldLine, line.bytes = bytes ∧ line.field = field := by
  constructor
  · intro ok
    rcases colon_split bytes with absent | ⟨name,raw,rfl,absent⟩
    · rw [parseLine_absent offset absent] at ok
      split at ok <;> cases ok
    · rw [parseLine_split offset absent] at ok
      split at ok
      · cases ok
      · rw [parseSplit_eq] at ok
        repeat' split at ok
        all_goals cases ok
        rename_i filled short unblank token values fits
        have values : ∀ b ∈ raw, isValueByte b := by simpa using values
        have named : name ≠ [] ∧ name.length ≤ headerNameBytes ∧ ∀ b ∈ name, isTchar b :=
          ⟨filled,by omega,by simpa using token⟩
        rcases edge_cases isBlank raw with edge | ⟨lead,core,trail,rfl,before,after,starts,ends⟩
        · exact ⟨⟨name,raw,[],[],named,⟨edge,by simp⟩,by simp,by simp⟩,
            by simp [FieldLine.bytes,FieldLine.raw],by simp [FieldLine.field,trim_edge edge]⟩
        · have cut := trim_core before after starts ends
          rw [cut] at fits ⊢
          refine ⟨⟨name,lead,core,trail,named,⟨before,after⟩,⟨by omega,?_⟩,?_,?_⟩,rfl,rfl⟩
          · intro b member
            exact values b (by simp [member])
          · obtain ⟨first,rest,rfl,content⟩ := starts
            simpa using content
          · obtain ⟨init,last,rfl,content⟩ := ends
            simpa using content
  · intro described
    obtain ⟨line,rfl,rfl⟩ := described
    obtain ⟨filled,short,tokens⟩ := line.named
    obtain ⟨first,rest,same⟩ := List.exists_cons_of_ne_nil filled
    have plain : ∀ b ∈ line.name, isBlank b = false := fun b member => ((value_classes b).2 (tokens b member)).2
    have unfolded : line.bytes.head?.any isBlank = false := by
      simp [FieldLine.bytes,same,plain first (by simp [same])]
    have unblank : line.name.any isBlank = false := by simpa using plain
    have token : line.name.all isTchar := by simpa using tokens
    have values := line.raw_values
    have fits : ¬ line.value.length > headerValueBytes := Nat.not_lt.mpr line.valued.1
    have named : ¬ line.name.length > headerNameBytes := Nat.not_lt.mpr short
    rw [FieldLine.bytes] at unfolded ⊢
    rw [parseLine_split offset line.no_colon,unfolded,parseSplit_eq,line.trim_raw]
    simp [filled,named,unblank,token,values,fits,FieldLine.field]

/-- The lines are at most 128 and each is a field line. -/
def Readable (count : Nat) (lines : List (List UInt8)) : Prop :=
  count + lines.length ≤ headerFields ∧ ∀ line ∈ lines, ∃ parsed : FieldLine, parsed.bytes = line

theorem readLines_ok_iff (offset count : Nat) (lines : List (List UInt8)) (fields : List HeaderField)
    (room : count ≤ headerFields) :
    readLines parseLine count (place offset lines) = .ok fields ↔
      ∃ parsed : List FieldLine, parsed.map FieldLine.bytes = lines ∧ parsed.map FieldLine.field = fields ∧
        count + parsed.length ≤ headerFields := by
  induction lines generalizing offset count fields with
  | nil =>
    constructor
    · intro ok
      cases ok
      exact ⟨[],rfl,rfl,room⟩
    · intro described
      obtain ⟨parsed,same,rfl,_⟩ := described
      rw [List.map_eq_nil_iff.mp same]
      rfl
  | cons line lines ih =>
    rw [place,readLines]
    constructor
    · intro ok
      split at ok
      · cases ok
      · obtain ⟨field,first,ok⟩ := bind_success ok
        obtain ⟨rest,later,same⟩ := bind_success ok
        cases same
        obtain ⟨parsed,bytes,rfl⟩ := (parseLine_ok_iff _ _ _).mp first
        obtain ⟨others,rfl,rfl,within⟩ := (ih _ _ _ (by omega)).mp later
        exact ⟨parsed :: others,by simp [bytes],by simp,by simp only [List.length_cons]; omega⟩
    · intro described
      obtain ⟨parsed,same,rfl,within⟩ := described
      cases parsed with
      | nil => cases same
      | cons parsed others =>
        obtain ⟨rfl,rfl⟩ := List.cons_eq_cons.mp same
        simp only [List.length_cons] at within
        rw [if_neg (by omega),(parseLine_ok_iff offset _ _).mpr ⟨parsed,rfl,rfl⟩,bind_ok,
          (ih _ (count + 1) (others.map FieldLine.field) (by omega)).mpr ⟨others,rfl,rfl,by omega⟩]
        rfl

theorem readLines_readable (offset count : Nat) (lines : List (List UInt8)) (room : count ≤ headerFields) :
    (∃ fields, readLines parseLine count (place offset lines) = .ok fields) ↔ Readable count lines := by
  constructor
  · intro read
    obtain ⟨fields,read⟩ := read
    obtain ⟨parsed,rfl,_,within⟩ := (readLines_ok_iff offset count lines fields room).mp read
    refine ⟨by simpa using within,?_⟩
    intro line member
    obtain ⟨source,_,same⟩ := List.mem_map.mp member
    exact ⟨source,same⟩
  · intro readable
    obtain ⟨within,each⟩ := readable
    obtain ⟨parsed,same⟩ : lines ∈ Set.range (List.map FieldLine.bytes) := by
      rw [Set.range_list_map]
      exact each
    have within : count + parsed.length ≤ headerFields := by simpa [← same] using within
    exact ⟨_,(readLines_ok_iff offset count lines _ room).mpr ⟨parsed,same,rfl,within⟩⟩

/-- A line that opens with a colon, closes a long or blank stretch with another, and is taken by the phases
for a line with a bad name and by the others for a line without one. -/
def ColonName (line : List UInt8) : Prop :=
  ∃ stretch raw, line = 0x3a :: (stretch ++ 0x3a :: raw) ∧ 0x3a ∉ stretch ∧
    (headerNameBytes < stretch.length + 1 ∨ ∃ b ∈ stretch, isBlank b)

private theorem parseLine_colon (offset : Nat) (rest : List UInt8) :
    parseLine offset (0x3a :: rest) = invalidHeader offset "invalid_name" := by
  have split := parseLine_split offset (show 0x3a ∉ [] by simp) rest
  rw [List.nil_append] at split
  rw [split,parseSplit_eq]
  simp [show isBlank 0x3a = false by decide]

private theorem phaseLine_colon (offset : Nat) {stretch : List UInt8} (absent : 0x3a ∉ stretch) (raw : List UInt8) :
    phaseLine offset (0x3a :: (stretch ++ 0x3a :: raw)) =
      if headerNameBytes < stretch.length + 1 then nameLimit (stretch.length + 1)
      else if stretch.any isBlank then invalidHeader offset "whitespace_before_colon"
      else invalidHeader offset "invalid_name" := by
  have blank : isBlank 0x3a = false := by decide
  have token : isTchar 0x3a = false := by decide
  rw [phaseLine,if_pos (by rfl),List.tail_cons,colon_position absent]
  simp only [List.take_succ_cons,take_hit,List.drop_succ_cons,drop_hit]
  rw [parseSplit_eq]
  simp [blank,token]

theorem phaseLine_same (offset : Nat) (line : List UInt8) (plain : ¬ ColonName line) :
    phaseLine offset line = parseLine offset line := by
  by_cases colon : line.head? = some 0x3a
  · obtain ⟨rest,rfl⟩ := List.head?_eq_some_iff.mp colon
    rw [parseLine_colon]
    rcases colon_split rest with absent | ⟨stretch,raw,rfl,absent⟩
    · rw [phaseLine,if_pos colon,List.tail_cons,colon_absent absent]
    · have short : ¬ headerNameBytes < stretch.length + 1 := fun long => plain ⟨stretch,raw,rfl,absent,.inl long⟩
      have unblank : ¬ stretch.any isBlank = true := by
        intro blank
        exact plain ⟨stretch,raw,rfl,absent,.inr (by simpa using blank)⟩
      rw [phaseLine_colon offset absent,if_neg short,if_neg unblank]
  · rw [phaseLine,if_neg colon]

theorem phaseLine_differs (offset : Nat) (line : List UInt8) (colon : ColonName line) :
    ∃ error, phaseLine offset line = .error error ∧ error ≠ .invalidHeader offset "invalid_name" := by
  obtain ⟨stretch,raw,rfl,absent,fault⟩ := colon
  rw [phaseLine_colon offset absent]
  by_cases long : headerNameBytes < stretch.length + 1
  · rw [if_pos long]
    exact ⟨_,rfl,by simp⟩
  · have blank : stretch.any isBlank = true := by
      rcases fault with fault | fault
      · exact absurd fault long
      · simpa using fault
    rw [if_neg long,if_pos blank]
    exact ⟨_,rfl,by simp⟩

section Sections
variable {input : List UInt8} {lines : List (Nat × List UInt8)} {ending : Result Nat}

theorem cursor_section (framed : Framed 0 input lines ending) :
    HeaderTypedCursor.parseHeaderSection input = linesFirst (readLines parseLine 0 lines) ending := by
  have ran := cursor_lines framed (by decide) rfl (headerFields + 1) [] (by simp) (by decide)
  simpa [HeaderTypedCursor.parseHeaderSection] using ran

theorem table_section (framed : Framed 0 input lines ending) :
    HeaderDecisionTable.parseHeaderSection input = linesFirst (readLines parseLine 0 lines) ending := by
  have ran := table_lines framed (by decide) rfl (headerFields + 1) [] (by simp) (by decide)
  simpa [HeaderDecisionTable.parseHeaderSection] using ran

theorem algebraic_section (framed : Framed 0 input lines ending) :
    HeaderAlgebraicLines.parseHeaderSection input = linesFirst (readLines parseLine 0 lines) ending := by
  have ran := algebraic_lines framed (by decide) (headerFields + 1) [] (by simp) (by decide)
  simpa [HeaderAlgebraicLines.parseHeaderSection] using ran

private theorem ended_wire {consumed : Nat} (framed : Framed 0 input lines (.ok consumed)) :
    ∃ tail, input.drop 0 = wire (lines.map Prod.snd) ++ tail ∧
      input.take (consumed - 2) = wire (lines.map Prod.snd) := by
  obtain ⟨rest,same,rfl,_⟩ := framed_ended framed (by decide)
  refine ⟨_,same,?_⟩
  rw [same]
  simp

theorem phases_section (framed : Framed 0 input lines ending) :
    HeaderStatePhases.parseHeaderSection input = framingFirst (readLines phaseLine 0 lines) ending := by
  unfold HeaderStatePhases.parseHeaderSection HeaderStatePhases.proveSectionBoundary framingFirst
  rw [phases_boundary framed]
  cases ending with
  | error error => rfl
  | ok consumed =>
    obtain ⟨whole,placed,_⟩ := framed_lines framed (by decide)
    obtain ⟨tail,located,taken⟩ := ended_wire framed
    have ran := phase_lines input tail (lines.map Prod.snd) 0 [] (List.forall_mem_map.mpr whole) located
    rw [← placed] at ran
    simp only [List.length_nil,List.map_nil,List.nil_append,bind_self] at ran
    simp only [bind_ok,HeaderStatePhases.validateFieldGrammar,taken,← ran,bind_assoc]

theorem reducer_section {consumed : Nat} (framed : Framed 0 input lines (.ok consumed)) :
    HeaderTransitionReducer.parseHeaderSection input =
      framingFirst (readLines parseLine 0 lines) (.ok consumed) := by
  obtain ⟨whole,placed,_⟩ := framed_lines framed (by decide)
  obtain ⟨tail,located,taken⟩ := ended_wire framed
  have ran := reducer_lines input tail (lines.map Prod.snd) 0 0 located
  rw [← placed,← split_wire _ (List.forall_mem_map.mpr whole)] at ran
  unfold HeaderTransitionReducer.parseHeaderSection HeaderTransitionReducer.validateFraming framingFirst
  rw [(reducer_framing framed (by decide) 0).1 consumed rfl]
  simp only [bind_ok,HeaderTransitionReducer.validateFields,taken,← ran,bind_assoc]

theorem reducer_failure {error : PolyguardError} (framed : Framed 0 input lines (.error error)) :
    (CutAtLimit (linesLength lines) (input.drop (linesLength lines)) →
      HeaderTransitionReducer.parseHeaderSection input = sectionLimit (headerSectionBytes + 1)) ∧
    (¬ CutAtLimit (linesLength lines) (input.drop (linesLength lines)) →
      HeaderTransitionReducer.parseHeaderSection input = .error error) := by
  have failed := (reducer_framing framed (by decide) 0).2 error rfl
  rw [Nat.zero_add] at failed
  unfold HeaderTransitionReducer.parseHeaderSection HeaderTransitionReducer.validateFraming
  constructor
  · intro cut
    rw [failed.1 cut]
    rfl
  · intro uncut
    rw [failed.2 uncut]
    rfl

end Sections

theorem linesFirst_ok_iff (fields : Result (List HeaderField)) (ending : Result Nat) (block : HeaderBlock) :
    linesFirst fields ending = .ok block ↔ fields = .ok block.fields ∧ ending = .ok block.bytesConsumed := by
  obtain ⟨parsed,consumed⟩ := block
  cases fields <;> cases ending <;> simp [linesFirst]

theorem framingFirst_ok_iff (fields : Result (List HeaderField)) (ending : Result Nat) (block : HeaderBlock) :
    framingFirst fields ending = .ok block ↔ fields = .ok block.fields ∧ ending = .ok block.bytesConsumed := by
  obtain ⟨parsed,consumed⟩ := block
  cases fields <;> cases ending <;> simp [framingFirst]

private theorem phaseLine_ok (offset : Nat) (line : List UInt8) (field : HeaderField) :
    phaseLine offset line = .ok field ↔ parseLine offset line = .ok field := by
  by_cases colon : ColonName line
  · obtain ⟨error,raised,_⟩ := phaseLine_differs offset line colon
    obtain ⟨stretch,raw,rfl,_,_⟩ := colon
    rw [raised,parseLine_colon]
    simp [invalidHeader]
  · rw [phaseLine_same offset line colon]

private theorem readLines_phase_ok (count : Nat) (lines : List (Nat × List UInt8)) (fields : List HeaderField) :
    readLines phaseLine count lines = .ok fields ↔ readLines parseLine count lines = .ok fields := by
  induction lines generalizing count fields with
  | nil => rfl
  | cons entry lines ih =>
    obtain ⟨offset,line⟩ := entry
    rw [readLines,readLines]
    by_cases full : count = headerFields
    · simp [full]
    · simp only [full,if_false]
      constructor
      · intro ok
        obtain ⟨field,first,ok⟩ := bind_success ok
        obtain ⟨rest,later,same⟩ := bind_success ok
        rw [(phaseLine_ok offset line field).mp first,bind_ok,(ih _ _).mp later]
        exact same
      · intro ok
        obtain ⟨field,first,ok⟩ := bind_success ok
        obtain ⟨rest,later,same⟩ := bind_success ok
        rw [(phaseLine_ok offset line field).mpr first,bind_ok,(ih _ _).mpr later]
        exact same

/-- Every implementation accepts exactly when the framing ends and every line is a field. -/
theorem accepted_iff {input : List UInt8} {lines : List (Nat × List UInt8)} {ending : Result Nat}
    (framed : Framed 0 input lines ending) (block : HeaderBlock) :
    ∀ parse ∈ headerImplementations, parse input = .ok block ↔
      readLines parseLine 0 lines = .ok block.fields ∧ ending = .ok block.bytesConsumed := by
  intro parse member
  simp only [headerImplementations,List.mem_cons,List.not_mem_nil,or_false] at member
  rcases member with rfl | rfl | rfl | rfl | rfl
  · rw [cursor_section framed,linesFirst_ok_iff]
  · rw [phases_section framed,framingFirst_ok_iff,readLines_phase_ok]
  · rw [table_section framed,linesFirst_ok_iff]
  · rw [algebraic_section framed,linesFirst_ok_iff]
  · cases ending with
    | ok consumed => rw [reducer_section framed,framingFirst_ok_iff]
    | error error =>
      obtain ⟨atLimit,otherwise⟩ := reducer_failure framed
      by_cases cut : CutAtLimit (linesLength lines) (input.drop (linesLength lines))
      · simp [atLimit cut,sectionLimit]
      · simp [otherwise cut]

/-- The header section of the protocol policy: field lines with their CRLFs and one empty line. -/
def Accepted (input : List UInt8) (block : HeaderBlock) : Prop :=
  ∃ (lines : List FieldLine) (rest : List UInt8),
    input = wire (lines.map FieldLine.bytes) ++ 0x0d :: 0x0a :: rest ∧ lines.length ≤ headerFields ∧
    block.bytesConsumed = (wire (lines.map FieldLine.bytes)).length + 2 ∧
    block.bytesConsumed ≤ headerSectionBytes ∧ block.fields = lines.map FieldLine.field

private theorem value_inner (byte : UInt8) (valid : isValueByte byte) : Inner byte := by
  constructor
  · rintro rfl
    exact absurd valid (by decide)
  · rintro rfl
    exact absurd valid (by decide)

theorem FieldLine.whole (line : FieldLine) : Whole line.bytes := by
  refine ⟨by simp [FieldLine.bytes],?_⟩
  intro b member
  unfold FieldLine.bytes at member
  rcases List.mem_append.mp member with inside | inside
  · exact value_inner b ((value_classes b).2 (line.named.2.2 b inside)).1
  · rcases List.mem_cons.mp inside with rfl | inside
    · exact value_inner _ (by decide)
    · exact value_inner b (List.all_eq_true.mp line.raw_values b inside)

theorem accepted_grammar (input : List UInt8) (block : HeaderBlock) :
    ∀ parse ∈ headerImplementations, parse input = .ok block ↔ Accepted input block := by
  intro parse member
  have framed := framed_frames input
  rw [accepted_iff framed block parse member]
  constructor
  · intro accepted
    obtain ⟨read,ended⟩ := accepted
    rw [ended] at framed
    obtain ⟨_,placed,_⟩ := framed_lines framed (by decide)
    obtain ⟨rest,same,consumed,limit⟩ := framed_ended framed (by decide)
    rw [placed] at read
    obtain ⟨parsed,bytes,fields,within⟩ := (readLines_ok_iff 0 0 _ _ (by decide)).mp read
    rw [← bytes] at same consumed
    exact ⟨parsed,rest,same,by simpa using within,by simpa using consumed,limit,fields.symm⟩
  · intro accepted
    obtain ⟨parsed,rest,same,within,consumed,limit,fields⟩ := accepted
    have whole : ∀ line ∈ parsed.map FieldLine.bytes, Whole line := by
      intro line inside
      obtain ⟨source,_,rfl⟩ := List.mem_map.mp inside
      exact source.whole
    have ended := framed_of_wire 0 _ rest whole (by omega)
    rw [← same] at ended
    obtain ⟨lines,ending⟩ := framed_unique framed ended
    rw [lines,ending,consumed]
    refine ⟨(readLines_ok_iff 0 0 _ _ (by decide)).mpr ⟨parsed,rfl,fields.symm,by simpa using within⟩,by simp⟩

/-- Accepted blocks are described by the grammar, whatever follows them. -/
theorem header_grammar_exact (input : List UInt8) (block : HeaderBlock) :
    (∀ parse ∈ headerImplementations, parse input = .ok block ↔ Accepted input block) ∧
    ∀ parse ∈ headerImplementations, parse input = .ok block →
      ∀ more, parse (input.take block.bytesConsumed ++ more) = .ok block := by
  refine ⟨accepted_grammar input block,?_⟩
  intro parse member accepted more
  obtain ⟨lines,rest,same,within,consumed,limit,fields⟩ := (accepted_grammar input block parse member).mp accepted
  apply (accepted_grammar _ block parse member).mpr
  refine ⟨lines,more,?_,within,consumed,limit,fields⟩
  rw [same,consumed,List.take_length_add_append]
  simp

/-- The first fault of the lines is a colon line that the phases read differently. -/
def ColonFirst (count : Nat) (lines : List (List UInt8)) : Prop :=
  ∃ before line after, lines = before ++ line :: after ∧ Readable (count + 1) before ∧ ColonName line

theorem readLines_phase_iff (offset count : Nat) (lines : List (List UInt8)) (room : count ≤ headerFields) :
    readLines phaseLine count (place offset lines) = readLines parseLine count (place offset lines) ↔
      ¬ ColonFirst count lines := by
  induction lines generalizing offset count with
  | nil => simp [place,readLines,ColonFirst]
  | cons line lines ih =>
    rw [place,readLines,readLines]
    by_cases full : count = headerFields
    · have none : ¬ ColonFirst count (line :: lines) := by
        intro first
        obtain ⟨before,_,_,_,readable,_⟩ := first
        have := readable.1
        omega
      simp [full] at none ⊢
      exact none
    · rw [if_neg full,if_neg full]
      by_cases colon : ColonName line
      · obtain ⟨error,raised,differs⟩ := phaseLine_differs offset line colon
        have first : ColonFirst count (line :: lines) :=
          ⟨[],line,lines,rfl,⟨by simp; omega,by simp⟩,colon⟩
        obtain ⟨stretch,raw,rfl,_,_⟩ := colon
        rw [raised,parseLine_colon]
        simpa [first,invalidHeader] using differs
      · rw [phaseLine_same offset line colon]
        cases read : parseLine offset line with
        | error error =>
          have none : ¬ ColonFirst count (line :: lines) := by
            intro first
            obtain ⟨before,other,after,same,readable,found⟩ := first
            cases before with
            | nil =>
              obtain ⟨rfl,rfl⟩ := List.cons_eq_cons.mp same
              exact colon found
            | cons head before =>
              obtain ⟨rfl,rfl⟩ := List.cons_eq_cons.mp same
              obtain ⟨parsed,bytes⟩ := readable.2 line (by simp)
              rw [(parseLine_ok_iff offset line _).mpr ⟨parsed,bytes,rfl⟩] at read
              cases read
          simp [none]
        | ok field =>
          obtain ⟨parsed,bytes,_⟩ := (parseLine_ok_iff offset line field).mp read
          have shifted : ColonFirst count (line :: lines) ↔ ColonFirst (count + 1) lines := by
            constructor
            · intro first
              obtain ⟨before,other,after,same,readable,found⟩ := first
              cases before with
              | nil =>
                obtain ⟨rfl,rfl⟩ := List.cons_eq_cons.mp same
                exact absurd found colon
              | cons head before =>
                obtain ⟨rfl,rfl⟩ := List.cons_eq_cons.mp same
                refine ⟨before,other,after,rfl,⟨?_,fun line member => readable.2 line (by simp [member])⟩,found⟩
                have := readable.1
                simp only [List.length_cons] at this
                omega
            · intro first
              obtain ⟨before,other,after,rfl,readable,found⟩ := first
              refine ⟨line :: before,other,after,rfl,⟨?_,?_⟩,found⟩
              · have := readable.1
                simp only [List.length_cons]
                omega
              · intro entry member
                rcases List.mem_cons.mp member with rfl | inside
                · exact ⟨parsed,bytes⟩
                · exact readable.2 entry inside
          rw [shifted,← ih (offset + line.length + 2) (count + 1) (by omega)]
          constructor
          · intro same
            cases left : readLines phaseLine (count + 1) (place (offset + line.length + 2) lines) <;>
              cases right : readLines parseLine (count + 1) (place (offset + line.length + 2) lines) <;>
              simp [left,right] at same ⊢
            all_goals exact same
          · intro same
            rw [same]

/-- The errors that framing reports. -/
def isFraming : PolyguardError → Bool
  | .incomplete => true
  | .limitExceeded limit _ _ => limit == "header_section_bytes"
  | .invalidHeader _ reason => reason == "bare_line_ending"
  | _ => false

theorem frameLine_framing (start position : Nat) (suffix : List UInt8) (error : PolyguardError)
    (failed : frameLine start position suffix = .error error) : isFraming error := by
  induction suffix generalizing position with
  | nil =>
    cases failed
    rfl
  | cons byte bytes ih =>
    unfold frameLine at failed
    repeat' split at failed
    · cases failed
      rfl
    · cases failed
      rfl
    · cases scanned : frameLine start (position + 1) bytes with
      | error raised =>
        rw [scanned] at failed
        cases failed
        exact ih _ scanned
      | ok parts =>
        rw [scanned] at failed
        cases failed
    · cases failed
      rfl
    · cases failed
      rfl
    · cases failed

theorem framed_framing {offset : Nat} {suffix : List UInt8} {lines : List (Nat × List UInt8)}
    {error : PolyguardError} (framed : Framed offset suffix lines (.error error)) : isFraming error := by
  generalize same : (Except.error error : Result Nat) = ending at framed
  induction framed with
  | failed scanned =>
    cases same
    exact frameLine_framing _ _ _ _ scanned
  | ended scanned => cases same
  | line scanned filled framed ih => exact ih same

theorem parseLine_unframing (offset : Nat) (line : List UInt8) (error : PolyguardError)
    (failed : parseLine offset line = .error error) : isFraming error = false := by
  rcases colon_split line with absent | ⟨name,raw,rfl,absent⟩
  · rw [parseLine_absent offset absent] at failed
    split at failed
    all_goals
      cases failed
      rfl
  · rw [parseLine_split offset absent,parseSplit_eq] at failed
    repeat' split at failed
    all_goals
      cases failed
      try rfl

theorem readLines_unframing (count : Nat) (lines : List (Nat × List UInt8)) (error : PolyguardError)
    (failed : readLines parseLine count lines = .error error) : isFraming error = false := by
  induction lines generalizing count with
  | nil => cases failed
  | cons entry lines ih =>
    obtain ⟨offset,line⟩ := entry
    rw [readLines] at failed
    split at failed
    · cases failed
      rfl
    · cases read : parseLine offset line with
      | error raised =>
        rw [read] at failed
        cases failed
        exact parseLine_unframing offset line _ read
      | ok field =>
        cases later : readLines parseLine (count + 1) lines with
        | error raised =>
          rw [read,later] at failed
          cases failed
          exact ih _ later
        | ok fields =>
          rw [read,later] at failed
          cases failed

/-- The inputs on which the order of the checks shows: an unfinished section with a faulty complete line, a
bare CR at the last admitted offset, and a finished section whose first fault is a colon line. -/
inductive Contested (input : List UInt8) : Prop where
  | masked {lines : List (Nat × List UInt8)} {error : PolyguardError} :
      Framed 0 input lines (.error error) → ¬ Readable 0 (lines.map Prod.snd) → Contested input
  | cut {lines : List (Nat × List UInt8)} {error : PolyguardError} :
      Framed 0 input lines (.error error) →
      CutAtLimit (linesLength lines) (input.drop (linesLength lines)) → Contested input
  | colon {lines : List (Nat × List UInt8)} {consumed : Nat} :
      Framed 0 input lines (.ok consumed) → ColonFirst 0 (lines.map Prod.snd) → Contested input

/-- The phases and the reducer decide agreement; the other three share one reading. -/
private theorem agree_iff {input : List UInt8} {lines : List (Nat × List UInt8)} {ending : Result Nat}
    (framed : Framed 0 input lines ending) :
    Agree headerImplementations input ↔
      HeaderStatePhases.parseHeaderSection input = linesFirst (readLines parseLine 0 lines) ending ∧
      HeaderTransitionReducer.parseHeaderSection input = linesFirst (readLines parseLine 0 lines) ending := by
  constructor
  · intro agree
    rw [← cursor_section framed]
    constructor
    · exact agree _ (by simp [headerImplementations]) _ (by simp [headerImplementations])
    · exact agree _ (by simp [headerImplementations]) _ (by simp [headerImplementations])
  · intro same
    apply agree_of_reference (linesFirst (readLines parseLine 0 lines) ending)
    intro parse member
    simp only [headerImplementations,List.mem_cons,List.not_mem_nil,or_false] at member
    rcases member with rfl | rfl | rfl | rfl | rfl
    · exact cursor_section framed
    · exact same.1
    · exact table_section framed
    · exact algebraic_section framed
    · exact same.2

private theorem ended_agree {input : List UInt8} {lines : List (Nat × List UInt8)} {consumed : Nat}
    (framed : Framed 0 input lines (.ok consumed)) :
    Agree headerImplementations input ↔ ¬ ColonFirst 0 (lines.map Prod.snd) := by
  obtain ⟨_,placed,_⟩ := framed_lines framed (by decide)
  have compared := readLines_phase_iff 0 0 (lines.map Prod.snd) (by decide)
  rw [← placed] at compared
  rw [agree_iff framed,phases_section framed,reducer_section framed,← compared]
  cases readLines phaseLine 0 lines <;> cases readLines parseLine 0 lines <;>
    simp [linesFirst,framingFirst]

private theorem failed_agree {input : List UInt8} {lines : List (Nat × List UInt8)} {error : PolyguardError}
    (framed : Framed 0 input lines (.error error)) :
    Agree headerImplementations input ↔ Readable 0 (lines.map Prod.snd) ∧
      ¬ CutAtLimit (linesLength lines) (input.drop (linesLength lines)) := by
  obtain ⟨_,placed,_⟩ := framed_lines framed (by decide)
  have readable := readLines_readable 0 0 (lines.map Prod.snd) (by decide)
  rw [← placed] at readable
  obtain ⟨atLimit,otherwise⟩ := reducer_failure framed
  rw [agree_iff framed,phases_section framed,← readable]
  cases read : readLines parseLine 0 lines with
  | error raised =>
    have line := readLines_unframing 0 lines raised read
    have differs : error ≠ raised := by
      intro same
      rw [← same,framed_framing framed] at line
      cases line
    simp [linesFirst,framingFirst,differs]
  | ok fields =>
    by_cases cut : CutAtLimit (linesLength lines) (input.drop (linesLength lines))
    · have bare : error = .invalidHeader (0 + linesLength lines) "bare_line_ending" :=
        cut_error framed (by decide) (by rwa [Nat.zero_add])
      simp [linesFirst,framingFirst,cut,atLimit cut,bare,sectionLimit]
    · simp [linesFirst,framingFirst,cut,otherwise cut]

/-- The implementations agree on exactly the inputs that are not contested. -/
theorem header_agreement_iff (input : List UInt8) : Agree headerImplementations input ↔ ¬ Contested input := by
  have framed := framed_frames input
  generalize (frames input).1 = lines at framed
  cases ended : (frames input).2 with
  | ok consumed =>
    rw [ended] at framed
    rw [ended_agree framed,not_iff_not]
    constructor
    · exact .colon framed
    · intro contested
      cases contested with
      | masked failed => cases (framed_unique framed failed).2
      | cut failed => cases (framed_unique framed failed).2
      | colon other first =>
        obtain ⟨rfl,_⟩ := framed_unique framed other
        exact first
  | error error =>
    rw [ended] at framed
    rw [failed_agree framed]
    constructor
    · intro agreeing contested
      obtain ⟨readable,uncut⟩ := agreeing
      cases contested with
      | masked other unreadable =>
        obtain ⟨rfl,_⟩ := framed_unique framed other
        exact unreadable readable
      | cut other cut =>
        obtain ⟨rfl,_⟩ := framed_unique framed other
        exact uncut cut
      | colon other first => cases (framed_unique framed other).2
    · intro settled
      constructor
      · by_contra unreadable
        exact settled (.masked framed unreadable)
      · intro cut
        exact settled (.cut framed cut)

/-- A line without a colon and nothing after it: the cursor rejects the line, the phases wait for more. -/
theorem header_disagreement : ¬ Agree headerImplementations (ascii "a\r\n") := by
  decide +kernel

end Polyguard.HeaderAgreement
