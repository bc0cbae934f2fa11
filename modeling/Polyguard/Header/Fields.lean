import Polyguard.Header.Framing

/-! One field line.
`parseLine` is the field grammar on a complete line with its errors in order.
The folds of the table and of the reducer and the lexer of the phases are run
over the name and the value of the line; the spans they record are read back as
the name and the trimmed value. The phases take a leading colon for a name byte,
and `phaseLine` says what follows from that. -/
namespace Polyguard.HeaderFields
open Ascii Slices HeaderFraming

def checkedName (offset : Nat) (name : List UInt8) : Result Unit :=
  if name = [] then invalidHeader offset "invalid_name"
  else if name.length > headerNameBytes then nameLimit name.length
  else if name.any isBlank then invalidHeader offset "whitespace_before_colon"
  else if !name.all isTchar then invalidHeader offset "invalid_name"
  else .ok ()

def checkedValue (offset : Nat) (raw : List UInt8) : Result (List UInt8) :=
  if !raw.all isValueByte then invalidHeader offset "invalid_value_byte"
  else if (trim isBlank raw).length > headerValueBytes then valueLimit (trim isBlank raw).length
  else .ok (trim isBlank raw)

/-- A field line split at its first colon. -/
def parseSplit (offset : Nat) (name raw : List UInt8) : Result HeaderField := do
  checkedName offset name
  let value ← checkedValue offset raw
  .ok ⟨name.map toAsciiLowercase,value⟩

/-- A complete line as a field. -/
def parseLine (offset : Nat) (line : List UInt8) : Result HeaderField :=
  if line.head?.any isBlank then invalidHeader offset "obs_fold"
  else match position (· == 0x3a) line with
    | none => invalidHeader offset "invalid_name"
    | some colon => parseSplit offset (line.take colon) (line.drop (colon + 1))

/-- A line that starts with a colon, as the phases read it: the colon opens the name. -/
def phaseLine (offset : Nat) (line : List UInt8) : Result HeaderField :=
  if line.head? = some 0x3a then
    match position (· == 0x3a) line.tail with
    | none => invalidHeader offset "invalid_name"
    | some colon => parseSplit offset (line.take (colon + 1)) (line.drop (colon + 2))
  else parseLine offset line

theorem parseSplit_eq (offset : Nat) (name raw : List UInt8) :
    parseSplit offset name raw =
      if name = [] then invalidHeader offset "invalid_name"
      else if name.length > headerNameBytes then nameLimit name.length
      else if name.any isBlank then invalidHeader offset "whitespace_before_colon"
      else if !name.all isTchar then invalidHeader offset "invalid_name"
      else if !raw.all isValueByte then invalidHeader offset "invalid_value_byte"
      else if (trim isBlank raw).length > headerValueBytes then valueLimit (trim isBlank raw).length
      else .ok ⟨name.map toAsciiLowercase,trim isBlank raw⟩ := by
  unfold parseSplit checkedName checkedValue
  grind

theorem cursor_name (name : List UInt8) (offset : Nat) :
    HeaderTypedCursor.canonicalName name offset =
      (checkedName offset name >>= fun _ => .ok (name.map toAsciiLowercase)) := by
  have negated : (name.any fun byte => !isTchar byte) = !name.all isTchar := by
    rw [List.all_eq_not_any_not,Bool.not_not]
  unfold HeaderTypedCursor.canonicalName checkedName
  rw [negated]
  cases name with
  | nil => rfl
  | cons byte bytes =>
    by_cases tokens : (byte :: bytes).all isTchar = true
    · rw [name_chars tokens]
      grind
    · simp only [Bool.not_eq_true] at tokens
      simp only [tokens]
      grind

theorem algebraic_name (name : List UInt8) (offset : Nat) :
    HeaderAlgebraicLines.lowercaseName name offset =
      (checkedName offset name >>= fun _ => .ok (name.map toAsciiLowercase)) := by
  unfold HeaderAlgebraicLines.lowercaseName checkedName
  cases name with
  | nil => rfl
  | cons byte bytes =>
    by_cases tokens : (byte :: bytes).all isTchar = true
    · rw [name_chars tokens]
      grind
    · simp only [Bool.not_eq_true] at tokens
      simp only [tokens]
      grind

theorem cursor_value (raw : List UInt8) (offset : Nat) :
    HeaderTypedCursor.trimmedValue raw offset = checkedValue offset raw := by
  have negated : (raw.any fun byte => !isValueByte byte) = !raw.all isValueByte := by
    rw [List.all_eq_not_any_not,Bool.not_not]
  obtain ⟨cut,width⟩ := trim_saturating isBlank raw
  simp only [width] at cut
  unfold HeaderTypedCursor.trimmedValue checkedValue
  simp only [negated,width,cut]

private theorem algebraic_trimmed (raw : List UInt8) : HeaderAlgebraicLines.trimmed raw = trim isBlank raw := by
  unfold HeaderAlgebraicLines.trimmed
  cases found : position (fun byte => !isBlank byte) raw with
  | none =>
    have edge : ∀ b ∈ raw, isBlank b := by simpa using position_eq_none.mp found
    rw [trim_edge edge]
    simp
  | some start =>
    have cut := trim_positions isBlank raw
    cases last : rposition (fun byte => !isBlank byte) raw with
    | none =>
      have miss := position_none (rposition_eq_none.mp last)
      rw [found] at miss
      cases miss
    | some stop =>
      rw [found,last] at cut
      simpa using cut

theorem algebraic_value (raw : List UInt8) (offset : Nat) :
    HeaderAlgebraicLines.trimmedValue raw offset = checkedValue offset raw := by
  unfold HeaderAlgebraicLines.trimmedValue checkedValue
  rw [algebraic_trimmed]

theorem colon_split (line : List UInt8) :
    0x3a ∉ line ∨ ∃ name raw, line = name ++ 0x3a :: raw ∧ 0x3a ∉ name := by
  by_cases member : 0x3a ∈ line
  · rcases first_hit (· == (0x3a : UInt8)) line with miss | ⟨name,hit,raw,rfl,miss,found⟩
    · simpa using miss 0x3a member
    · obtain rfl : hit = 0x3a := by simpa using found
      exact .inr ⟨name,raw,rfl,fun inside => by simpa using miss 0x3a inside⟩
  · exact .inl member

theorem colon_position {name : List UInt8} (absent : 0x3a ∉ name) (raw : List UInt8) :
    position (· == 0x3a) (name ++ 0x3a :: raw) = some name.length := by
  apply position_append
  · intro b member
    rw [beq_eq_false_iff_ne]
    rintro rfl
    exact absent member
  · rfl

theorem colon_absent {line : List UInt8} (absent : 0x3a ∉ line) : position (· == 0x3a) line = none := by
  apply position_none
  intro b member
  rw [beq_eq_false_iff_ne]
  rintro rfl
  exact absent member

theorem parseLine_absent (offset : Nat) {line : List UInt8} (absent : 0x3a ∉ line) :
    parseLine offset line =
      if line.head?.any isBlank then invalidHeader offset "obs_fold"
      else invalidHeader offset "invalid_name" := by
  rw [parseLine,colon_absent absent]

theorem parseLine_split (offset : Nat) {name : List UInt8} (absent : 0x3a ∉ name) (raw : List UInt8) :
    parseLine offset (name ++ 0x3a :: raw) =
      if (name ++ 0x3a :: raw).head?.any isBlank then invalidHeader offset "obs_fold"
      else parseSplit offset name raw := by
  rw [parseLine,colon_position absent]
  simp only [take_hit,drop_hit]

/-- What the reducer has recorded after a stretch of the name. -/
private theorem reducer_name (name : List UInt8) (absent : 0x3a ∉ name) (index : Nat)
    (facts : HeaderTransitionReducer.NameFacts) :
    (name.zipIdx index).foldl HeaderTransitionReducer.fieldStep (.name facts) =
      .name ⟨facts.length + name.length,facts.hasWhitespace || name.any isBlank,
        facts.hasInvalid || !name.all isTchar⟩ := by
  induction name generalizing index facts with
  | nil => simp
  | cons byte name ih =>
    have notColon : byte ≠ 0x3a := by
      rintro rfl
      exact absent (by simp)
    have step : HeaderTransitionReducer.fieldStep (.name facts) (byte,index) =
        .name ⟨facts.length + 1,facts.hasWhitespace || isBlank byte,facts.hasInvalid || !isTchar byte⟩ := by
      simp [HeaderTransitionReducer.fieldStep,notColon]
    rw [List.zipIdx_cons,List.foldl_cons,step,ih fun member => absent (by simp [member])]
    simp [Nat.add_assoc,Nat.add_comm 1,Bool.or_assoc,Bool.not_and]

/-- What the reducer has recorded after a stretch of the value. -/
private theorem reducer_value (raw : List UInt8) (index : Nat) (facts : HeaderTransitionReducer.ValueFacts) :
    (raw.zipIdx index).foldl HeaderTransitionReducer.fieldStep (.value facts) =
      .value { facts with
        firstContent := ((raw.zipIdx index).foldl (spanStep isBlank) (facts.firstContent,facts.contentEnd)).1
        contentEnd := ((raw.zipIdx index).foldl (spanStep isBlank) (facts.firstContent,facts.contentEnd)).2
        hasInvalid := facts.hasInvalid || !raw.all isValueByte } := by
  induction raw generalizing index facts with
  | nil => simp
  | cons byte raw ih =>
    rw [List.zipIdx_cons,List.foldl_cons,List.foldl_cons]
    simp only [HeaderTransitionReducer.fieldStep]
    rw [ih]
    cases blank : isBlank byte <;> simp [spanStep,blank,Bool.or_assoc,Bool.not_and]

theorem span_field {input tail name raw : List UInt8} {offset start width : Nat}
    (located : input.drop offset = (name ++ 0x3a :: raw) ++ tail) (inside : start + width ≤ raw.length) :
    slice input offset (offset + name.length) = name ∧
    slice input (offset + (name.length + 1 + start)) (offset + (name.length + 1 + (start + width))) =
      slice raw start (start + width) := by
  constructor
  · have cut := slice_within located 0 name.length (by simp)
    rw [Nat.add_zero] at cut
    rw [cut,slice_zero,take_hit]
  · have after : (name ++ 0x3a :: raw).drop (name.length + 1) = raw ++ [] := by rw [drop_hit,List.append_nil]
    rw [slice_within located _ _ (by simp; omega),slice_within after _ _ inside]

/-- A line parser that records spans refines `parseLine` when its spans read back as the field. -/
def Refines {α : Type} (read : List UInt8 → α → HeaderField) (offset : Nat) (line : List UInt8)
    (parsed : Result α) (field : Result HeaderField) : Prop :=
  (∀ error, field = .error error → parsed = .error error) ∧
  ∀ value, field = .ok value → ∃ plan, parsed = .ok plan ∧
    ∀ input tail, input.drop offset = line ++ tail → read input plan = value

theorem refines_error {α : Type} {read : List UInt8 → α → HeaderField} {offset : Nat} {line : List UInt8}
    {parsed : Result α} {field : Result HeaderField} (error : PolyguardError)
    (raised : field = .error error) (same : parsed = .error error) : Refines read offset line parsed field := by
  subst raised
  refine ⟨?_,by simp⟩
  intro other equal
  cases equal
  exact same

theorem refines_guard {α : Type} {read : List UInt8 → α → HeaderField} {offset : Nat} {line : List UInt8}
    {parsed : Result α} {field : Result HeaderField} {left right : Prop} [Decidable left] [Decidable right]
    (error : PolyguardError) (same : left ↔ right)
    (later : ¬ right → Refines read offset line parsed field) :
    Refines read offset line (if left then .error error else parsed) (if right then .error error else field) := by
  by_cases raised : right
  · rw [if_pos (same.mpr raised),if_pos raised]
    exact refines_error error rfl rfl
  · rw [if_neg fun held => raised (same.mp held),if_neg raised]
    exact later raised

theorem reducer_field (offset : Nat) (line : List UInt8) :
    Refines HeaderTransitionReducer.materializeField offset line
      (HeaderTransitionReducer.reduceField line offset) (parseLine offset line) := by
  unfold HeaderTransitionReducer.reduceField
  rcases colon_split line with absent | ⟨name,raw,rfl,absent⟩
  · rw [parseLine_absent offset absent,reducer_name line absent]
    by_cases folded : line.head?.any isBlank = true
    · rw [if_pos folded,if_pos folded]
      exact refines_error _ rfl rfl
    · rw [if_neg folded,if_neg folded]
      exact refines_error _ rfl rfl
  · rw [parseLine_split offset absent]
    by_cases folded : (name ++ 0x3a :: raw).head?.any isBlank = true
    · rw [if_pos folded,if_pos folded]
      exact refines_error _ rfl rfl
    · rw [if_neg folded,if_neg folded,List.zipIdx_append,List.foldl_append,reducer_name name absent,
        List.zipIdx_cons,List.foldl_cons]
      have step : HeaderTransitionReducer.fieldStep (.name ⟨0 + name.length,false || name.any isBlank,
          false || !name.all isTchar⟩) (0x3a,0 + name.length) =
          .value ⟨⟨name.length,name.any isBlank,!name.all isTchar⟩,name.length,none,name.length + 1,false⟩ := by
        simp [HeaderTransitionReducer.fieldStep]
      rw [step,reducer_value,Nat.zero_add]
      obtain ⟨start,front,back,cut,inside⟩ := span_bounds isBlank raw (name.length + 1) (name.length + 1)
      have stop : (name ++ 0x3a :: raw).length = name.length + 1 + raw.length := by simp; omega
      unfold HeaderTransitionReducer.decideField
      rw [parseSplit_eq]
      simp only [stop,front,back,Bool.false_or,show name.length + 1 + (start + (trim isBlank raw).length) -
        (name.length + 1 + start) = (trim isBlank raw).length by omega]
      refine refines_guard _ List.length_eq_zero_iff fun _ => ?_
      refine refines_guard _ Iff.rfl fun _ => ?_
      refine refines_guard _ Iff.rfl fun _ => ?_
      refine refines_guard _ Iff.rfl fun invalid => ?_
      refine refines_guard _ Iff.rfl fun _ => ?_
      refine refines_guard _ Iff.rfl fun _ => ?_
      have tokens : name.all isTchar := by simpa using invalid
      refine ⟨by simp,?_⟩
      intro value ok
      cases ok
      refine ⟨_,rfl,?_⟩
      intro input tail located
      obtain ⟨named,valued⟩ := span_field located inside
      simp only [HeaderTransitionReducer.materializeField,named,valued,cut,name_chars tokens]

/-- The five wire classes by the byte predicates of the other implementations. -/
private theorem classify_eq (byte : UInt8) :
    HeaderDecisionTable.classify byte =
      if byte == 0x3a then .colon else if isBlank byte then .ows else if isTchar byte then .token
      else if isValueByte byte then .valueOnly else .forbidden :=
  forall_byte (p := fun b => HeaderDecisionTable.classify b =
      if b == 0x3a then .colon else if isBlank b then .ows else if isTchar b then .token
      else if isValueByte b then .valueOnly else .forbidden) (by decide) byte

theorem value_classes (byte : UInt8) :
    (isBlank byte → isValueByte byte) ∧ (isTchar byte → isValueByte byte ∧ isBlank byte = false) :=
  forall_byte (p := fun b => (isBlank b → isValueByte b) ∧ (isTchar b → isValueByte b ∧ isBlank b = false))
    (by decide) byte

/-- The bytes of a value that the table does not take for content. -/
private def quiet (byte : UInt8) : Bool := isBlank byte || !isValueByte byte

private theorem table_name (name : List UInt8) (absent : 0x3a ∉ name) (index : Nat)
    (facts : HeaderDecisionTable.LineFacts) :
    (name.zipIdx index).foldl HeaderDecisionTable.lineStep (.name,facts) =
      (.name,{ facts with
        nameHasWhitespace := facts.nameHasWhitespace || name.any isBlank
        nameHasInvalidByte := facts.nameHasInvalidByte || name.any fun b => !isBlank b && !isTchar b }) := by
  induction name generalizing index facts with
  | nil => simp
  | cons byte name ih =>
    have notColon : (byte == 0x3a) = false := by
      rw [beq_eq_false_iff_ne]
      rintro rfl
      exact absent (by simp)
    have step : HeaderDecisionTable.lineStep (.name,facts) (byte,index) =
        (.name,{ facts with
          nameHasWhitespace := facts.nameHasWhitespace || isBlank byte
          nameHasInvalidByte := facts.nameHasInvalidByte || (!isBlank byte && !isTchar byte) }) := by
      simp only [HeaderDecisionTable.lineStep,classify_eq,notColon]
      cases isBlank byte <;> cases isTchar byte <;> cases isValueByte byte <;>
        simp [HeaderDecisionTable.observeByte]
    rw [List.zipIdx_cons,List.foldl_cons,step,ih fun member => absent (by simp [member])]
    simp [Bool.or_assoc]

private theorem table_value (raw : List UInt8) (index : Nat) (facts : HeaderDecisionTable.LineFacts) :
    (raw.zipIdx index).foldl HeaderDecisionTable.lineStep (.value,facts) =
      (.value,{ facts with
        valueHasInvalidByte := facts.valueHasInvalidByte || !raw.all isValueByte
        firstValueContent :=
          ((raw.zipIdx index).foldl (spanStep quiet) (facts.firstValueContent,facts.lastValueContent)).1
        lastValueContent :=
          ((raw.zipIdx index).foldl (spanStep quiet) (facts.firstValueContent,facts.lastValueContent)).2 }) := by
  induction raw generalizing index facts with
  | nil => simp
  | cons byte raw ih =>
    obtain ⟨blankValue,tokenValue⟩ := value_classes byte
    have step : HeaderDecisionTable.lineStep (.value,facts) (byte,index) =
        (.value,{ facts with
          valueHasInvalidByte := facts.valueHasInvalidByte || !isValueByte byte
          firstValueContent := (spanStep quiet (facts.firstValueContent,facts.lastValueContent) (byte,index)).1
          lastValueContent :=
            (spanStep quiet (facts.firstValueContent,facts.lastValueContent) (byte,index)).2 }) := by
      simp only [HeaderDecisionTable.lineStep,classify_eq,spanStep,quiet]
      by_cases colon : byte = 0x3a
      · have value : isValueByte 0x3a = true := by decide
        have content : isBlank 0x3a = false := by decide
        simp [colon,value,content,HeaderDecisionTable.observeByte]
      · by_cases blank : isBlank byte = true
        · simp [colon,blank,blankValue blank,HeaderDecisionTable.observeByte]
        · by_cases token : isTchar byte = true
          · simp [colon,blank,token,tokenValue token,HeaderDecisionTable.observeByte]
          · by_cases value : isValueByte byte = true <;>
              simp [colon,blank,token,value,HeaderDecisionTable.observeByte]
    rw [List.zipIdx_cons,List.foldl_cons,step,ih,List.foldl_cons]
    simp [Bool.or_assoc,Bool.not_and]

/-- The result that a line decision stands for. -/
def decided (offset : Nat) : HeaderDecisionTable.LineDecision → Result HeaderDecisionTable.FieldLayout
  | .accept layout => .ok layout
  | .reject reason => invalidHeader offset reason
  | .nameLimit actual => nameLimit actual
  | .valueLimit actual => valueLimit actual

theorem table_field (input line tail : List UInt8) (offset : Nat) (located : input.drop offset = line ++ tail) :
    Refines HeaderDecisionTable.buildField offset line
      (decided offset (HeaderDecisionTable.decideLine input offset (offset + line.length)))
      (parseLine offset line) := by
  have content : slice input offset (offset + line.length) = line := by
    have cut := slice_within located 0 line.length (Nat.le_refl _)
    rw [Nat.add_zero] at cut
    rw [cut,slice_zero,List.take_length]
  unfold HeaderDecisionTable.decideLine
  simp only [content]
  rcases colon_split line with absent | ⟨name,raw,rfl,absent⟩
  · rw [parseLine_absent offset absent,table_name line absent]
    by_cases folded : line.head?.any isBlank = true
    · rw [if_pos folded,if_pos folded]
      exact refines_error _ rfl rfl
    · rw [if_neg folded,if_neg folded]
      exact refines_error _ rfl rfl
  · rw [parseLine_split offset absent]
    by_cases folded : (name ++ 0x3a :: raw).head?.any isBlank = true
    · rw [if_pos folded,if_pos folded]
      exact refines_error _ rfl rfl
    · rw [if_neg folded,if_neg folded,List.zipIdx_append,List.foldl_append,table_name name absent,
        List.zipIdx_cons,List.foldl_cons]
      have step (facts : HeaderDecisionTable.LineFacts) :
          HeaderDecisionTable.lineStep (.name,facts) (0x3a,offset + name.length) =
            (.value,{ facts with colon := some (offset + name.length) }) := rfl
      rw [step,table_value,parseSplit_eq]
      simp only [Option.map_some,Option.getD_some,Nat.add_sub_cancel_left,Bool.false_or,
        apply_ite (decided offset)]
      simp only [decided]
      refine refines_guard _ List.length_eq_zero_iff fun _ => ?_
      refine refines_guard _ Iff.rfl fun _ => ?_
      refine refines_guard _ Iff.rfl fun unblank => ?_
      refine refines_guard _ ?_ fun invalid => ?_
      · have content : ∀ b ∈ name, isBlank b = false := by simpa using unblank
        have same : (name.any fun b => !isBlank b && !isTchar b) = !name.all isTchar := by
          rw [Bool.eq_iff_iff]
          simp only [List.any_eq_true,Bool.and_eq_true,Bool.not_eq_true',List.all_eq_false]
          grind
        rw [same]
      refine refines_guard _ Iff.rfl fun bad => ?_
      have values : ∀ b ∈ raw, isValueByte b := by simpa using bad
      have tokens : name.all isTchar := by simpa using invalid
      have same : ∀ b ∈ raw, quiet b = isBlank b := fun b member => by simp [quiet,values b member]
      obtain ⟨start,front,back,cut,inside⟩ := span_bounds isBlank raw (offset + name.length + 1) offset
      have stop : offset + (name ++ 0x3a :: raw).length = offset + name.length + 1 + raw.length := by
        simp; omega
      rw [span_congr same,stop,front,back]
      have width : offset + name.length + 1 + (start + (trim isBlank raw).length) -
          (offset + name.length + 1 + start) = (trim isBlank raw).length := by omega
      rw [width]
      refine refines_guard _ Iff.rfl fun _ => ?_
      refine ⟨by simp,?_⟩
      intro value ok
      cases ok
      refine ⟨_,rfl,?_⟩
      intro input tail located
      obtain ⟨named,valued⟩ := span_field located inside
      rw [cut] at valued
      simp only [Nat.add_assoc] at valued
      simp only [HeaderDecisionTable.buildField,named,name_chars tokens,Nat.add_assoc,valued]

/-- The class of a name read byte by byte. -/
private theorem phase_class (name : List UInt8) (nameClass : HeaderStatePhases.NameClass) :
    name.foldl HeaderStatePhases.advanceNameClass nameClass =
      if nameClass = .containsWhitespace ∨ name.any isBlank = true then .containsWhitespace
      else if nameClass = .invalid ∨ name.all isTchar = false then .invalid else .token := by
  induction name generalizing nameClass with
  | nil => cases nameClass <;> simp
  | cons byte name ih =>
    have tokenValue := (value_classes byte).2
    rw [List.foldl_cons,ih]
    by_cases token : isTchar byte = true
    · have plain := (tokenValue token).2
      have kind : HeaderStatePhases.classifyNameByte byte = .token := by
        rw [HeaderStatePhases.classifyNameByte,if_pos token]
      have step : HeaderStatePhases.advanceNameClass nameClass byte = nameClass := by
        unfold HeaderStatePhases.advanceNameClass
        rw [kind]
        cases nameClass <;> rfl
      simp only [step,List.any_cons,plain,Bool.false_or,List.all_cons,token,Bool.true_and]
    · have bad := Bool.eq_false_iff.mpr token
      by_cases blank : isBlank byte = true
      · have kind : HeaderStatePhases.classifyNameByte byte = .containsWhitespace := by
          rw [HeaderStatePhases.classifyNameByte,if_neg token,if_pos blank]
        have step : HeaderStatePhases.advanceNameClass nameClass byte = .containsWhitespace := by
          unfold HeaderStatePhases.advanceNameClass
          rw [kind]
          cases nameClass <;> rfl
        simp only [step,List.any_cons,blank,Bool.true_or,true_or,or_true,if_true]
      · have kind : HeaderStatePhases.classifyNameByte byte = .invalid := by
          rw [HeaderStatePhases.classifyNameByte,if_neg token,if_neg blank]
        simp only [List.any_cons,Bool.eq_false_iff.mpr blank,Bool.false_or,List.all_cons,bad,Bool.false_and,
          or_true,if_true]
        unfold HeaderStatePhases.advanceNameClass
        rw [kind]
        cases nameClass <;> simp

/-- The lexer over a stretch of the name. -/
private theorem phase_name (name after : List UInt8) (absent : 0x3a ∉ name) (clean : ∀ b ∈ name, Inner b)
    (lineStart nameStart cursor : Nat) (nameClass : HeaderStatePhases.NameClass)
    (plans : List HeaderStatePhases.FieldPlan) :
    HeaderStatePhases.validateFrom (.name lineStart nameStart nameClass) cursor plans (name ++ after) =
      HeaderStatePhases.validateFrom
        (.name lineStart nameStart (name.foldl HeaderStatePhases.advanceNameClass nameClass))
        (cursor + name.length) plans after := by
  induction name generalizing cursor nameClass with
  | nil => rfl
  | cons byte name ih =>
    have notColon : byte ≠ 0x3a := by
      rintro rfl
      exact absent (by simp)
    have notCr := (clean byte (by simp)).1
    rw [List.cons_append]
    conv_lhs => unfold HeaderStatePhases.validateFrom
    simp only [beq_iff_eq,notColon,notCr,if_false]
    rw [ih (fun member => absent (by simp [member])) (fun b member => clean b (by simp [member])),
      List.foldl_cons,List.length_cons,Nat.add_right_comm,Nat.add_assoc cursor]

/-- The lexer over a stretch of the value. -/
private theorem phase_value (raw after : List UInt8) (clean : ∀ b ∈ raw, Inner b)
    (lineStart nameStart nameEnd cursor stop : Nat) (first : Option Nat)
    (plans : List HeaderStatePhases.FieldPlan) :
    HeaderStatePhases.validateFrom (.value lineStart nameStart nameEnd first stop) cursor plans (raw ++ after) =
      if !raw.all isValueByte then invalidHeader lineStart "invalid_value_byte"
      else HeaderStatePhases.validateFrom (.value lineStart nameStart nameEnd
        ((raw.zipIdx cursor).foldl (spanStep isBlank) (first,stop)).1
        ((raw.zipIdx cursor).foldl (spanStep isBlank) (first,stop)).2)
        (cursor + raw.length) plans after := by
  induction raw generalizing cursor first stop with
  | nil => rfl
  | cons byte raw ih =>
    have notCr := (clean byte (by simp)).1
    rw [List.cons_append]
    conv_lhs => unfold HeaderStatePhases.validateFrom
    by_cases valid : isValueByte byte = true
    · simp only [beq_iff_eq,notCr,if_false,valid,Bool.not_true,Bool.false_eq_true]
      rw [ih fun b member => clean b (by simp [member]),List.zipIdx_cons,List.foldl_cons,List.length_cons,
        show cursor + 1 + raw.length = cursor + (raw.length + 1) by omega]
      cases blank : isBlank byte <;> simp [valid,spanStep,blank]
    · simp [notCr,valid]

private theorem phase_name_check (offset : Nat) (first : UInt8) (name : List UInt8) (content : isBlank first = false) :
    HeaderStatePhases.validateName offset (offset + 1 + name.length)
        (name.foldl HeaderStatePhases.advanceNameClass (HeaderStatePhases.classifyNameByte first)) offset =
      if (first :: name).length > headerNameBytes then nameLimit (first :: name).length
      else if (first :: name).any isBlank then invalidHeader offset "whitespace_before_colon"
      else if !(first :: name).all isTchar then invalidHeader offset "invalid_name"
      else .ok () := by
  have length : offset + 1 + name.length - offset = (first :: name).length := by simp; omega
  unfold HeaderStatePhases.validateName
  simp only [length]
  rw [phase_class]
  by_cases long : (first :: name).length > headerNameBytes
  · rw [if_pos long,if_pos long]
  · rw [if_neg long,if_neg long]
    by_cases token : isTchar first = true
    · have kind : HeaderStatePhases.classifyNameByte first = .token := by
        rw [HeaderStatePhases.classifyNameByte,if_pos token]
      simp only [kind,List.any_cons,content,Bool.false_or,List.all_cons,token,Bool.true_and]
      cases name.any isBlank <;> cases name.all isTchar <;> rfl
    · have kind : HeaderStatePhases.classifyNameByte first = .invalid := by
        rw [HeaderStatePhases.classifyNameByte,if_neg token,if_neg (by simp [content])]
      simp only [kind,List.any_cons,content,Bool.false_or,List.all_cons,Bool.eq_false_iff.mpr token,
        Bool.false_and]
      cases name.any isBlank <;> rfl

private theorem phase_colon (lineStart nameStart cursor : Nat) (nameClass : HeaderStatePhases.NameClass)
    (plans : List HeaderStatePhases.FieldPlan) (bytes : List UInt8) :
    HeaderStatePhases.validateFrom (.name lineStart nameStart nameClass) cursor plans (0x3a :: bytes) =
      (HeaderStatePhases.validateName nameStart cursor nameClass lineStart >>= fun _ =>
        HeaderStatePhases.validateFrom (.value lineStart nameStart cursor none (cursor + 1)) (cursor + 1)
          plans bytes) := by
  conv_lhs => unfold HeaderStatePhases.validateFrom
  simp

private theorem phase_end (lineStart nameStart nameEnd cursor start stop last : Nat) (first : Option Nat)
    (plans : List HeaderStatePhases.FieldPlan) (rest : List UInt8) (front : first.getD cursor = start)
    (back : (first.map fun _ => last).getD cursor = stop) :
    HeaderStatePhases.validateFrom (.value lineStart nameStart nameEnd first last) cursor plans
        (0x0d :: 0x0a :: rest) =
      if stop - start > headerValueBytes then valueLimit (stop - start)
      else HeaderStatePhases.validateFrom .lineStart (cursor + 2)
        (plans ++ [⟨nameStart,nameEnd,start,stop⟩]) rest := by
  conv_lhs => unfold HeaderStatePhases.validateFrom
  simp only [front,back,beq_self_eq_true,if_true]

/-- One line through the lexer: a plan that reads back as the field, or the fault of `phaseLine`. -/
theorem phase_field (offset : Nat) (line rest : List UInt8) (plans : List HeaderStatePhases.FieldPlan)
    (whole : Whole line) (room : plans.length ≠ headerFields) :
    ∃ parsed, Refines HeaderStatePhases.materializeField offset line parsed (phaseLine offset line) ∧
      HeaderStatePhases.validateFrom .lineStart offset plans (line ++ 0x0d :: 0x0a :: rest) =
        (parsed >>= fun plan => HeaderStatePhases.validateFrom .lineStart (offset + line.length + 2)
          (plans ++ [plan]) rest) := by
  obtain ⟨filled,clean⟩ := whole
  obtain ⟨first,line,rfl⟩ := List.exists_cons_of_ne_nil filled
  have lineClean : ∀ b ∈ line, Inner b := fun b member => clean b (by simp [member])
  rw [List.cons_append]
  conv => enter [1,parsed,2,1]; unfold HeaderStatePhases.validateFrom
  simp only [room,if_false]
  by_cases blank : isBlank first = true
  · have notColon : first ≠ 0x3a := by
      rintro rfl
      revert blank
      decide
    refine ⟨invalidHeader offset "obs_fold",refines_error _ ?_ rfl,?_⟩
    · simp [phaseLine,notColon,parseLine,blank]
      rfl
    · simp [blank]
  · simp only [blank,Bool.false_eq_true,if_false]
    have content := Bool.eq_false_iff.mpr blank
    rcases colon_split line with absent | ⟨name,raw,rfl,absent⟩
    · refine ⟨invalidHeader offset "invalid_name",refines_error _ ?_ rfl,?_⟩
      · by_cases colon : first = 0x3a
        · simp [phaseLine,colon,colon_absent absent]
          rfl
        · have missing : 0x3a ∉ first :: line := by simp [absent,Ne.symm colon]
          rw [phaseLine,if_neg (by simp [colon]),parseLine_absent offset missing]
          simp [content]
          rfl
      · rw [phase_name line _ absent lineClean]
        conv_lhs => unfold HeaderStatePhases.validateFrom
        simp
    · have nameClean : ∀ b ∈ name, Inner b := fun b member => lineClean b (by simp [member])
      have rawClean : ∀ b ∈ raw, Inner b := fun b member => lineClean b (by simp [member])
      have split : phaseLine offset (first :: (name ++ 0x3a :: raw)) = parseSplit offset (first :: name) raw := by
        by_cases colon : first = 0x3a
        · rw [phaseLine,if_pos (by simp [colon]),List.tail_cons,colon_position absent]
          simp [drop_hit]
        · have missing : 0x3a ∉ first :: name := by simp [absent,Ne.symm colon]
          rw [phaseLine,if_neg (by simp [colon]),← List.cons_append,parseLine_split offset missing]
          simp [content]
      obtain ⟨start,front,back,cut,inside⟩ := span_bounds isBlank raw (offset + 1 + name.length + 1)
        (offset + 1 + name.length + 1)
      refine ⟨if (first :: name).length > headerNameBytes then nameLimit (first :: name).length
        else if (first :: name).any isBlank then invalidHeader offset "whitespace_before_colon"
        else if !(first :: name).all isTchar then invalidHeader offset "invalid_name"
        else if !raw.all isValueByte then invalidHeader offset "invalid_value_byte"
        else if (trim isBlank raw).length > headerValueBytes then valueLimit (trim isBlank raw).length
        else .ok ⟨offset,offset + 1 + name.length,offset + 1 + name.length + 1 + start,
          offset + 1 + name.length + 1 + (start + (trim isBlank raw).length)⟩,?_,?_⟩
      · rw [split,parseSplit_eq,if_neg (show ¬ first :: name = [] by simp)]
        refine refines_guard _ Iff.rfl fun _ => ?_
        refine refines_guard _ Iff.rfl fun _ => ?_
        refine refines_guard _ Iff.rfl fun invalid => ?_
        refine refines_guard _ Iff.rfl fun _ => ?_
        refine refines_guard _ Iff.rfl fun _ => ?_
        have tokens : (first :: name).all isTchar := by simpa using invalid
        refine ⟨by simp,?_⟩
        intro value ok
        cases ok
        refine ⟨_,rfl,?_⟩
        intro input tail located
        rw [← List.cons_append] at located
        obtain ⟨named,valued⟩ := span_field located inside
        rw [cut] at valued
        simp only [List.length_cons,Nat.add_assoc,Nat.add_comm 1] at named valued
        simp only [HeaderStatePhases.materializeField,Nat.add_assoc,Nat.add_comm 1,named,valued,name_chars tokens]
      · rw [List.append_assoc,phase_name name _ absent nameClean,List.cons_append]
        have width : offset + 1 + name.length + 1 + (start + (trim isBlank raw).length) -
            (offset + 1 + name.length + 1 + start) = (trim isBlank raw).length := by omega
        have next : offset + (first :: (name ++ 0x3a :: raw)).length + 2 =
            offset + 1 + name.length + 1 + raw.length + 2 := by
          simp only [List.length_cons,List.length_append]
          omega
        rw [phase_colon,phase_name_check offset first name content,phase_value raw _ rawClean,
          phase_end _ _ _ _ _ _ _ _ _ _ front back,width,next]
        grind

end Polyguard.HeaderFields
