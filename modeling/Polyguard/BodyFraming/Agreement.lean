import Polyguard.BodyFraming.Implementations

/-! Agreement and exactness of the body-framing functions.
All of them fold one acceptance step over the comma members of the selected
fields, in field order; the stream machine keeps folding after a fault, and its
state is read back as the result the stopping loops would have returned. -/
namespace Polyguard.BodyFramingAgreement
open Ascii Slices

/-- The fields of one name, in order. -/
def named (name : List UInt8) (fields : List HeaderField) : List HeaderField :=
  fields.filter (·.name == name)

/-- The comma members of the fields of one name, in field order, as they stand in the values. -/
def rawMembers (name : List UInt8) (fields : List HeaderField) : List (List UInt8) :=
  (named name fields).flatMap (·.value.splitOn 0x2c)

/-- One content-length member against the length agreed so far. -/
def acceptMember (agreed : Option Nat) (raw : List UInt8) : Result (Option Nat) := do
  let value ← boundedDecimal (trim isOws raw)
  if agreed.any (· ≠ value) then .error .conflictingContentLength else .ok (some value)

def rejectsCoding (count : Nat) (raw : List UInt8) : Bool :=
  count + 1 ≠ 1 || !eqIgnoreAsciiCase (trim isOws raw) (ascii "chunked")

/-- One transfer-encoding member against the number of members already seen. -/
def acceptCoding (count : Nat) (raw : List UInt8) : Result Nat :=
  if rejectsCoding count raw then .error .invalidTransferEncoding else .ok (count + 1)

def framingOfLength (length : Nat) : BodyFraming := if length = 0 then .none else .contentLength length

def lengthFraming (fields : List HeaderField) : Result BodyFraming := do
  let agreed ← (rawMembers contentLengthName fields).foldlM acceptMember none
  .ok (framingOfLength (agreed.getD 0))

def codingFraming (fields : List HeaderField) : Result BodyFraming := do
  let count ← (rawMembers transferEncodingName fields).foldlM acceptCoding 0
  if count = 1 then .ok .chunked else .error .invalidTransferEncoding

def present (name : List UInt8) (fields : List HeaderField) : Bool := !(named name fields).isEmpty

/-- What every body-framing function computes. -/
def reference (headers : HeaderBlock) : Result BodyFraming :=
  match present contentLengthName headers.fields,present transferEncodingName headers.fields with
  | true,true => .error .ambiguousFraming
  | true,false => lengthFraming headers.fields
  | false,true => codingFraming headers.fields
  | false,false => .ok .none

theorem rawMembers_cons (name : List UInt8) (field : HeaderField) (fields : List HeaderField) :
    rawMembers name (field :: fields) =
      if field.name == name then field.value.splitOn 0x2c ++ rawMembers name fields
      else rawMembers name fields := by
  unfold rawMembers named
  by_cases same : field.name == name <;> simp [same]

theorem rawMembers_eq_nil (name : List UInt8) (fields : List HeaderField) :
    rawMembers name fields = [] ↔ named name fields = [] := by
  unfold rawMembers
  rw [List.flatMap_eq_nil_iff]
  constructor
  · intro empty
    rw [List.eq_nil_iff_forall_not_mem]
    intro field member
    exact List.splitOn_ne_nil _ _ (empty field member)
  · intro empty
    simp [empty]

theorem names_differ : (transferEncodingName == contentLengthName) = false := by decide

theorem transition_trim (bytes : List UInt8) : BodyFramingTransition.trimOws bytes = trim isOws bytes :=
  trim_positions isOws bytes

theorem bounded_trim (bytes : List UInt8) : BodyFramingBoundedDomain.trimOws bytes = trim isOws bytes :=
  trim_positions isOws bytes

theorem machine_trim (bytes : List UInt8) : BodyFramingStreamMachine.trimOws bytes = trim isOws bytes :=
  trim_width isOws bytes

theorem matrix_trim (bytes : List UInt8) : BodyFramingRuleMatrix.trimOws bytes = trim isOws bytes :=
  trim_counts isOws bytes

private theorem fold_digits (digits : List UInt8) (value : Nat) (valid : digits.all isAsciiDigit) :
    digits.foldlM BodyFramingTransition.appendDigit value = decimalFrom value digits := by
  induction digits generalizing value with
  | nil => rfl
  | cons digit digits ih =>
    obtain ⟨head,tail⟩ : isAsciiDigit digit ∧ digits.all isAsciiDigit := by simpa using valid
    rw [List.foldlM_cons]
    unfold decimalFrom
    cases pushed : pushDigit value digit with
    | none => simp [BodyFramingTransition.appendDigit,pushed]
    | some next =>
      have step : BodyFramingTransition.appendDigit value digit = .ok next := by
        simp [BodyFramingTransition.appendDigit,pushed]
      simp [step,head,ih next tail]

private theorem decimalFrom_bad (digits : List UInt8) (value : Nat) (bad : digits.all isAsciiDigit = false) :
    decimalFrom value digits = .error .invalidContentLength := by
  induction digits generalizing value with
  | nil => simp at bad
  | cons digit digits ih =>
    unfold decimalFrom
    cases head : isAsciiDigit digit with
    | false => simp
    | true =>
      have tail : digits.all isAsciiDigit = false := by simpa [head] using bad
      cases pushed : pushDigit value digit with
      | none => simp
      | some next => simp [ih next tail]

private theorem transition_accept (agreed : Option Nat) (raw : List UInt8) :
    BodyFramingTransition.acceptContentLength agreed raw = acceptMember agreed raw := by
  unfold BodyFramingTransition.acceptContentLength acceptMember boundedDecimal
  rw [transition_trim]
  dsimp only
  generalize trim isOws raw = member
  by_cases valid : member.all isAsciiDigit = true
  · rw [fold_digits member 0 valid]
    cases member.isEmpty with
    | true => rfl
    | false =>
      simp only [valid]
      cases decimalFrom 0 member with
      | error error => rfl
      | ok value => by_cases large : value > contentLengthLimit <;> simp [large]
  · have bad := Bool.eq_false_iff.mpr valid
    rw [decimalFrom_bad member 0 bad]
    cases member.isEmpty with
    | true => rfl
    | false => simp [bad]

private theorem machine_digits (digits : List UInt8) (value : Nat) :
    digits.foldlM BodyFramingStreamMachine.appendDigit value = (decimalFrom value digits).toOption := by
  induction digits generalizing value with
  | nil => rfl
  | cons digit digits ih =>
    rw [List.foldlM_cons]
    unfold decimalFrom
    have step : BodyFramingStreamMachine.appendDigit value digit =
      if !isAsciiDigit digit then none else pushDigit value digit := rfl
    rw [step]
    cases head : isAsciiDigit digit with
    | false => rfl
    | true =>
      cases pushed : pushDigit value digit with
      | none => simp [Except.toOption]
      | some next => simp [ih next]

private theorem transition_coding (count : Nat) (raw : List UInt8) :
    BodyFramingTransition.acceptCoding count raw = acceptCoding count raw := by
  unfold BodyFramingTransition.acceptCoding acceptCoding rejectsCoding
  rw [transition_trim]
  dsimp only
  cases eqIgnoreAsciiCase (trim isOws raw) (ascii "chunked") <;> cases count <;> simp

private theorem comma_members (fuel : Nat) (value : List UInt8) (enough : value.length < fuel) :
    BodyFramingBoundedDomain.commaMembers fuel value = value.splitOn 0x2c := by
  induction fuel generalizing value with
  | zero => omega
  | succ fuel ih =>
    unfold BodyFramingBoundedDomain.commaMembers
    rw [splitOn_position]
    cases found : position (· == 0x2c) value with
    | none => rfl
    | some comma =>
      have inside : comma < value.length := (List.findIdx?_eq_some_iff_findIdx_eq.mp found).1
      simp only
      rw [ih _ (by rw [List.length_drop]; omega)]

private theorem bounded_members (agreed : Option Nat) (members : List (List UInt8)) :
    BodyFramingBoundedDomain.acceptMembers agreed members = members.foldlM acceptMember agreed := by
  induction members generalizing agreed with
  | nil => rfl
  | cons member members ih =>
    unfold BodyFramingBoundedDomain.acceptMembers
    rw [List.foldlM_cons]
    simp only [BodyFramingBoundedDomain.parse,bounded_trim,BodyFramingBoundedDomain.accept,acceptMember,ih,
      bind_assoc]

private theorem bounded_fields (agreed : Option Nat) (fields : List HeaderField) :
    BodyFramingBoundedDomain.acceptFields agreed fields =
      (rawMembers contentLengthName fields).foldlM acceptMember agreed := by
  induction fields generalizing agreed with
  | nil => rfl
  | cons field fields ih =>
    unfold BodyFramingBoundedDomain.acceptFields
    rw [rawMembers_cons,comma_members _ _ (by omega)]
    by_cases same : field.name == contentLengthName
    · simp [bne,same,bounded_members,ih]
    · simp [bne,same,ih]

private theorem direct_parse (raw : List UInt8) :
    BodyFramingDirect.parseDecimalLength raw = boundedDecimal (trim isOws raw) := rfl

private theorem direct_members (agreed : Option Nat) (fuel : Nat) (value : List UInt8)
    (enough : value.length < fuel) :
    BodyFramingDirect.validateMembers agreed fuel value = (value.splitOn 0x2c).foldlM acceptMember agreed := by
  induction fuel generalizing agreed value with
  | zero => omega
  | succ fuel ih =>
    unfold BodyFramingDirect.validateMembers
    rw [splitOn_position]
    cases found : position (· == 0x2c) value with
    | none =>
      simp only [Option.getD_none,List.take_length,direct_parse,if_true,List.foldlM_cons,List.foldlM_nil,
        acceptMember,bind_assoc]
      cases boundedDecimal (trim isOws value) with
      | error error => rfl
      | ok parsed => by_cases conflict : agreed.any (· ≠ parsed) <;> simp only [bind_ok,conflict] <;> rfl
    | some comma =>
      have inside : comma < value.length := (List.findIdx?_eq_some_iff_findIdx_eq.mp found).1
      have shorter : (value.drop (comma + 1)).length < fuel := by rw [List.length_drop]; omega
      have notEnd : comma ≠ value.length := by omega
      simp only [Option.getD_some,notEnd,if_false,ih _ _ shorter,List.foldlM_cons,acceptMember,
        direct_parse,bind_assoc]
      cases boundedDecimal (trim isOws (value.take comma)) with
      | error error => rfl
      | ok parsed => by_cases conflict : agreed.any (· ≠ parsed) <;> simp only [bind_ok,conflict] <;> rfl

private theorem direct_fields (agreed : Option Nat) (fields : List HeaderField) :
    BodyFramingDirect.validateFields agreed fields =
      (rawMembers contentLengthName fields).foldlM acceptMember agreed := by
  induction fields generalizing agreed with
  | nil => rfl
  | cons field fields ih =>
    unfold BodyFramingDirect.validateFields
    rw [rawMembers_cons,direct_members _ _ _ (by omega)]
    by_cases same : field.name == contentLengthName
    · simp [bne,same,ih]
    · simp [bne,same,ih]

private theorem direct_coding (raw : List UInt8) (count : Nat) :
    (decide (count + 1 ≠ 1) ||
      !eqIgnoreAsciiCase (BodyFramingDirect.withoutOws raw) (ascii "chunked")) = rejectsCoding count raw := rfl

private theorem direct_codings (count : Nat) (fuel : Nat) (value : List UInt8)
    (enough : value.length < fuel) :
    BodyFramingDirect.countMembers count fuel value = (value.splitOn 0x2c).foldlM acceptCoding count := by
  induction fuel generalizing count value with
  | zero => omega
  | succ fuel ih =>
    unfold BodyFramingDirect.countMembers
    rw [splitOn_position]
    cases found : position (· == 0x2c) value with
    | none =>
      simp only [Option.getD_none,List.take_length,if_true,List.foldlM_cons,List.foldlM_nil,acceptCoding,
        direct_coding value]
      cases rejectsCoding count value <;> rfl
    | some comma =>
      have inside : comma < value.length := (List.findIdx?_eq_some_iff_findIdx_eq.mp found).1
      have shorter : (value.drop (comma + 1)).length < fuel := by rw [List.length_drop]; omega
      have notEnd : comma ≠ value.length := by omega
      simp only [Option.getD_some,notEnd,if_false,ih _ _ shorter,List.foldlM_cons,acceptCoding,
        direct_coding (value.take comma)]
      cases rejectsCoding count (value.take comma) <;> rfl

private theorem direct_count (count : Nat) (fields : List HeaderField) :
    BodyFramingDirect.countFields count fields =
      (rawMembers transferEncodingName fields).foldlM acceptCoding count := by
  induction fields generalizing count with
  | nil => rfl
  | cons field fields ih =>
    unfold BodyFramingDirect.countFields
    rw [rawMembers_cons,direct_codings _ _ _ (by omega)]
    by_cases same : field.name == transferEncodingName
    · simp [bne,same,ih]
    · simp [bne,same,ih]

private theorem accept_some (agreed : Option Nat) (members : List (List UInt8)) (result : Option Nat)
    (ok : members.foldlM acceptMember agreed = .ok result) (filled : members ≠ [] ∨ agreed.isSome) :
    result.isSome := by
  induction members generalizing agreed with
  | nil =>
    cases ok
    simpa using filled
  | cons member members ih =>
    rw [List.foldlM_cons] at ok
    obtain ⟨next,accepted,rest⟩ := bind_success ok
    obtain ⟨value,_,stored⟩ := bind_success accepted
    split at stored
    · cases stored
    · cases stored
      exact ih (some value) rest (.inr rfl)

private theorem matrix_boundaries (agreed : Option Nat) (member bytes : List UInt8)
    (plain : 0x2c ∉ member) :
    BodyFramingRuleMatrix.validateBoundaries agreed member bytes =
      ((member ++ bytes).splitOn 0x2c).foldlM acceptMember agreed := by
  induction bytes generalizing agreed member with
  | nil =>
    unfold BodyFramingRuleMatrix.validateBoundaries
    rw [List.append_nil,List.splitOn_eq_singleton plain,List.foldlM_cons]
    simp only [BodyFramingRuleMatrix.parseDecimalMember,matrix_trim,List.foldlM_nil,acceptMember,bind_assoc]
    cases boundedDecimal (trim isOws member) with
    | error error => rfl
    | ok parsed => by_cases conflict : agreed.any (· ≠ parsed) <;> simp only [bind_ok,conflict] <;> rfl
  | cons byte bytes ih =>
    unfold BodyFramingRuleMatrix.validateBoundaries
    by_cases comma : byte = 0x2c
    · subst comma
      rw [List.splitOn_append_cons_self_of_not_mem plain,List.foldlM_cons]
      simp only [BodyFramingRuleMatrix.parseDecimalMember,matrix_trim,acceptMember,bind_assoc,
        ih _ [] (by simp),List.nil_append]
      cases boundedDecimal (trim isOws member) with
      | error error => rfl
      | ok parsed => by_cases conflict : agreed.any (· ≠ parsed) <;> simp only [bind_ok,conflict] <;> rfl
    · have kept : 0x2c ∉ member ++ [byte] := by simpa [plain] using fun h => comma h.symm
      rw [if_pos (by simpa using comma),ih _ _ kept,List.append_assoc,List.singleton_append]

private theorem matrix_fields (agreed : Option Nat) (fields : List HeaderField) :
    BodyFramingRuleMatrix.validateFields agreed fields =
      (rawMembers contentLengthName fields).foldlM acceptMember agreed := by
  induction fields generalizing agreed with
  | nil => rfl
  | cons field fields ih =>
    unfold BodyFramingRuleMatrix.validateFields BodyFramingRuleMatrix.validateContentLengthField
    rw [rawMembers_cons,matrix_boundaries _ [] _ (by simp),List.nil_append]
    by_cases same : field.name == contentLengthName
    · simp only [bne,same,Bool.not_true,Bool.false_eq_true,if_false,if_true,List.foldlM_append,ih]
      cases folded : (field.value.splitOn 0x2c).foldlM acceptMember agreed with
      | error error => rfl
      | ok result =>
        obtain ⟨length,rfl⟩ := Option.isSome_iff_exists.mp
          (accept_some agreed _ result folded (.inl (List.splitOn_ne_nil _ _)))
        rfl
    · simp [bne,same,ih]

theorem decimalFrom_error (digits : List UInt8) (value : Nat) (error : PolyguardError)
    (failed : decimalFrom value digits = .error error) : error = .invalidContentLength := by
  induction digits generalizing value with
  | nil => cases failed
  | cons digit digits ih =>
    unfold decimalFrom at failed
    split at failed
    · cases failed; rfl
    · split at failed
      · cases failed; rfl
      · exact ih _ failed

theorem present_cons (name : List UInt8) (field : HeaderField) (fields : List HeaderField) :
    present name (field :: fields) = (field.name == name || present name fields) := by
  unfold present named
  by_cases same : field.name == name <;> simp [same]

private theorem classify_from (contentLength transferEncoding : Bool) (fields : List HeaderField)
    (undecided : (contentLength && transferEncoding) = false) :
    BodyFramingDirect.classifyFrom contentLength transferEncoding fields =
      match contentLength || present contentLengthName fields,
        transferEncoding || present transferEncodingName fields with
      | true,true => .ambiguous
      | true,false => .contentLength
      | false,true => .transferEncoding
      | false,false => .absent := by
  induction fields generalizing contentLength transferEncoding with
  | nil =>
    cases contentLength <;> cases transferEncoding <;>
      simp_all [BodyFramingDirect.classifyFrom,present,named]
  | cons field fields ih =>
    have swapped := names_differ
    unfold BodyFramingDirect.classifyFrom
    rw [present_cons,present_cons]
    by_cases length : field.name = contentLengthName
    · cases transferEncoding with
      | true => simp [length]
      | false =>
        have other : (contentLengthName == transferEncodingName) = false := by decide
        simp [length,other,ih true false rfl]
    · by_cases coding : field.name = transferEncodingName
      · cases contentLength with
        | true => simp [coding,swapped]
        | false => simp [coding,swapped,ih false true rfl]
      · simp [beq_eq_false_iff_ne.mpr length,beq_eq_false_iff_ne.mpr coding,undecided,
          ih contentLength transferEncoding undecided]

/-- A present content-length field leaves a fault or an agreed length. -/
private theorem length_outcome (fields : List HeaderField) (found : present contentLengthName fields) :
    (∃ error, (rawMembers contentLengthName fields).foldlM acceptMember none = .error error) ∨
      ∃ length, (rawMembers contentLengthName fields).foldlM acceptMember none = .ok (some length) := by
  cases folded : (rawMembers contentLengthName fields).foldlM acceptMember none with
  | error error => exact .inl ⟨error,rfl⟩
  | ok result =>
    have filled : rawMembers contentLengthName fields ≠ [] := by
      rw [Ne,rawMembers_eq_nil]
      simpa [present] using found
    obtain ⟨length,rfl⟩ := Option.isSome_iff_exists.mp (accept_some none _ result folded (.inl filled))
    exact .inr ⟨length,rfl⟩

private theorem direct_reference (headers : HeaderBlock) :
    BodyFramingDirect.determineBodyFraming headers = reference headers := by
  unfold BodyFramingDirect.determineBodyFraming BodyFramingDirect.classifyMetadata reference
  rw [classify_from false false headers.fields rfl,Bool.false_or,Bool.false_or]
  cases length : present contentLengthName headers.fields with
  | false =>
    cases present transferEncodingName headers.fields with
    | false => rfl
    | true =>
      simp only [BodyFramingDirect.validateChunked,direct_count,codingFraming,bind_assoc]
      cases (rawMembers transferEncodingName headers.fields).foldlM acceptCoding 0 with
      | error error => rfl
      | ok count => by_cases one : count = 1 <;> simp [one]
  | true =>
    cases present transferEncodingName headers.fields with
    | true => rfl
    | false =>
      simp only [BodyFramingDirect.validateConsistent,direct_fields,lengthFraming,bind_assoc]
      rcases length_outcome headers.fields length with ⟨error,failed⟩ | ⟨agreed,folded⟩
      · simp [failed]
      · by_cases zero : agreed = 0 <;> simp [folded,framingOfLength,zero]

private theorem matrix_inventory (fields : List HeaderField) (counts : Nat × Nat) :
    fields.foldl BodyFramingRuleMatrix.countField counts =
      (counts.1 + (named contentLengthName fields).length,
        counts.2 + (named transferEncodingName fields).length) := by
  induction fields generalizing counts with
  | nil => rfl
  | cons field fields ih =>
    have swapped := names_differ
    rw [List.foldl_cons,ih]
    unfold BodyFramingRuleMatrix.countField named
    by_cases length : field.name = contentLengthName
    · have other : (contentLengthName == transferEncodingName) = false := by decide
      simp [length,other]
      omega
    · by_cases coding : field.name = transferEncodingName
      · simp [coding,swapped]
        omega
      · simp [length,coding]

private theorem two_codings (first second : List UInt8) (rest : List (List UInt8)) :
    (first :: second :: rest).foldlM acceptCoding 0 = .error .invalidTransferEncoding := by
  have next : acceptCoding 1 second = .error .invalidTransferEncoding := by
    simp [acceptCoding,rejectsCoding]
  have start : acceptCoding 0 first = .error .invalidTransferEncoding ∨ acceptCoding 0 first = .ok 1 := by
    unfold acceptCoding
    split
    · exact .inl rfl
    · exact .inr rfl
  rw [List.foldlM_cons]
  rcases start with rejected | accepted
  · rw [rejected,bind_error]
  · rw [accepted,bind_ok,List.foldlM_cons,next,bind_error]

private theorem comma_not_chunked {value : List UInt8} (comma : 0x2c ∈ value) :
    eqIgnoreAsciiCase (trim isOws value) (ascii "chunked") = false := by
  rw [Bool.eq_false_iff,Ne,eqIgnoreAsciiCase_iff]
  intro same
  obtain ⟨before,after,rfl⟩ := List.append_of_mem comma
  have kept : (0x2c : UInt8) ∈ trim isOws (before ++ 0x2c :: after) :=
    mem_trim_of_inside (by decide)
  have folded : (0x2c : UInt8) ∈ (trim isOws (before ++ 0x2c :: after)).map toAsciiLowercase :=
    List.mem_map.mpr ⟨0x2c,kept,by decide⟩
  rw [same] at folded
  revert folded
  decide

/-- One bare member is one field whose whole trimmed value is that member. -/
private theorem coding_outcome (fields : List HeaderField) :
    codingFraming fields =
      match named transferEncodingName fields with
      | [field] =>
        if eqIgnoreAsciiCase (trim isOws field.value) (ascii "chunked") then .ok .chunked
        else .error .invalidTransferEncoding
      | _ => .error .invalidTransferEncoding := by
  unfold codingFraming rawMembers
  match named transferEncodingName fields with
  | [] => rfl
  | [field] =>
    rw [List.flatMap_singleton]
    by_cases comma : 0x2c ∈ field.value
    · obtain ⟨first,second,rest,same⟩ := splitOn_of_mem comma
      rw [same,two_codings]
      simp [comma_not_chunked comma]
    · rw [List.splitOn_eq_singleton comma,List.foldlM_cons]
      cases chunked : eqIgnoreAsciiCase (trim isOws field.value) (ascii "chunked") with
      | true => simp [acceptCoding,rejectsCoding,chunked]
      | false => simp [acceptCoding,rejectsCoding,chunked]
  | first :: second :: rest =>
    obtain ⟨left,lefts,firstSplit⟩ := List.exists_cons_of_ne_nil (List.splitOn_ne_nil 0x2c first.value)
    obtain ⟨right,rights,secondSplit⟩ := List.exists_cons_of_ne_nil (List.splitOn_ne_nil 0x2c second.value)
    simp only [List.flatMap_cons,firstSplit,secondSplit,List.cons_append]
    cases lefts with
    | nil => rw [List.nil_append,two_codings,bind_error]
    | cons other lefts => rw [List.cons_append,two_codings,bind_error]

private theorem find_named (name : List UInt8) (fields : List HeaderField) :
    fields.find? (·.name == name) = (named name fields).head? := by
  rw [named,List.head?_filter]

private theorem matrix_rule (length coding : Bool) :
    BodyFramingRuleMatrix.lookupRule ⟨length,coding⟩ =
      match length,coding with
      | true,true => .ambiguous
      | true,false => .contentLength
      | false,true => .transferEncoding
      | false,false => .noMetadata := by
  cases length <;> cases coding <;> rfl

private theorem filled_present (name : List UInt8) (fields : List HeaderField) :
    decide ((named name fields).length ≠ 0) = present name fields := by
  unfold present
  cases named name fields <;> simp

private theorem matrix_reference (headers : HeaderBlock) :
    BodyFramingRuleMatrix.determineBodyFraming headers = reference headers := by
  unfold BodyFramingRuleMatrix.determineBodyFraming BodyFramingRuleMatrix.inventory reference
  simp only [matrix_inventory,Nat.zero_add,filled_present,matrix_rule]
  cases length : present contentLengthName headers.fields with
  | false =>
    cases coding : present transferEncodingName headers.fields with
    | false => rfl
    | true =>
      simp only [BodyFramingRuleMatrix.validateRule,BodyFramingRuleMatrix.validateTransferEncoding,find_named,
        coding_outcome,matrix_trim]
      match named transferEncodingName headers.fields with
      | [] => simp
      | [field] => by_cases chunked : eqIgnoreAsciiCase (trim isOws field.value) (ascii "chunked") <;>
          simp [chunked,BodyFramingRuleMatrix.render]
      | first :: second :: rest => simp
  | true =>
    cases coding : present transferEncodingName headers.fields with
    | true => rfl
    | false =>
      simp only [BodyFramingRuleMatrix.validateRule,BodyFramingRuleMatrix.validateContentLengths,matrix_fields,
        lengthFraming,bind_assoc]
      rcases length_outcome headers.fields length with ⟨error,failed⟩ | ⟨agreed,folded⟩
      · simp [failed]
      · by_cases zero : agreed = 0 <;> simp [folded,framingOfLength,zero,BodyFramingRuleMatrix.render]

private theorem bounded_reference (headers : HeaderBlock) :
    BodyFramingBoundedDomain.determineBodyFraming headers = reference headers := by
  unfold BodyFramingBoundedDomain.determineBodyFraming BodyFramingBoundedDomain.validateBoundary reference
  have counted (name : List UInt8) : headers.fields.countP (·.name == name) =
      (named name headers.fields).length := List.countP_eq_length_filter
  simp only [counted,filled_present]
  cases length : present contentLengthName headers.fields with
  | false =>
    have none : named contentLengthName headers.fields = [] := by simpa [present] using length
    cases coding : present transferEncodingName headers.fields with
    | false =>
      have free : named transferEncodingName headers.fields = [] := by simpa [present] using coding
      simp [none,free]
    | true =>
      simp only [BodyFramingBoundedDomain.validateChunked,find_named,coding_outcome,bounded_trim]
      match found : named transferEncodingName headers.fields with
      | [] => simp [present,found] at coding
      | [field] => by_cases chunked : eqIgnoreAsciiCase (trim isOws field.value) (ascii "chunked") <;>
          simp [chunked]
      | first :: second :: rest => simp
  | true =>
    have some : named contentLengthName headers.fields ≠ [] := by simpa [present] using length
    cases coding : present transferEncodingName headers.fields with
    | true => rfl
    | false =>
      have free : named transferEncodingName headers.fields = [] := by simpa [present] using coding
      simp only [BodyFramingBoundedDomain.validateContentLengths,bounded_fields,lengthFraming]
      rcases length_outcome headers.fields length with ⟨error,failed⟩ | ⟨agreed,folded⟩
      · simp [failed,some,free]
      · by_cases zero : agreed = 0 <;> simp [folded,framingOfLength,zero,some,free]

def bits (length coding : Bool) : UInt8 := (if length then 1 else 0) ||| (if coding then 2 else 0)

private theorem transition_bits (fields : List HeaderField) (length coding : Bool) :
    fields.foldl BodyFramingTransition.observeField (bits length coding) =
      bits (length || present contentLengthName fields) (coding || present transferEncodingName fields) := by
  induction fields generalizing length coding with
  | nil => simp [present,named]
  | cons field fields ih =>
    have step : BodyFramingTransition.observeField (bits length coding) field =
        bits (length || field.name == contentLengthName) (coding || field.name == transferEncodingName) := by
      unfold BodyFramingTransition.observeField
      by_cases isLength : field.name = contentLengthName
      · rw [isLength]
        revert length coding
        decide
      · by_cases isCoding : field.name = transferEncodingName
        · rw [isCoding]
          revert length coding
          decide
        · rw [beq_eq_false_iff_ne.mpr isLength,beq_eq_false_iff_ne.mpr isCoding]
          simp
    rw [List.foldl_cons,step,ih,present_cons,present_cons,Bool.or_assoc,Bool.or_assoc]

private theorem transition_reference (headers : HeaderBlock) :
    BodyFramingTransition.determineBodyFraming headers = reference headers := by
  have state : BodyFramingTransition.metadataState headers =
      bits (present contentLengthName headers.fields) (present transferEncodingName headers.fields) := by
    simpa [bits,BodyFramingTransition.metadataState] using transition_bits headers.fields false false
  have accepts : BodyFramingTransition.acceptContentLength = acceptMember :=
    funext fun agreed => funext (transition_accept agreed)
  have codes : BodyFramingTransition.acceptCoding = acceptCoding :=
    funext fun count => funext (transition_coding count)
  unfold BodyFramingTransition.determineBodyFraming reference
  simp only [state,accepts]
  cases length : present contentLengthName headers.fields with
  | false =>
    cases coding : present transferEncodingName headers.fields with
    | false => rfl
    | true =>
      rw [if_neg (by decide),if_pos (by decide)]
      unfold BodyFramingTransition.validateTransferEncoding codingFraming
      rw [codes]
      change ((rawMembers transferEncodingName headers.fields).foldlM acceptCoding 0 >>= _) >>= _ = _
      cases (rawMembers transferEncodingName headers.fields).foldlM acceptCoding 0 with
      | error error => rfl
      | ok count => by_cases one : count = 1 <;> simp [one]
  | true =>
    cases coding : present transferEncodingName headers.fields with
    | true => rfl
    | false =>
      rw [if_neg (by decide),if_neg (by decide),if_pos (by decide)]
      unfold lengthFraming
      rw [show BodyFramingTransition.contentLengthMembers headers =
        rawMembers contentLengthName headers.fields from rfl]
      rcases length_outcome headers.fields length with ⟨error,failed⟩ | ⟨agreed,folded⟩
      · simp [failed]
      · by_cases zero : agreed = 0 <;> simp [folded,framingOfLength,zero]

/-- The result that a state of the stream machine stands for, with the value it reads when there is no fault. -/
def machineState {α : Type} (read : BodyFramingStreamMachine.FramingMachine → α)
    (machine : BodyFramingStreamMachine.FramingMachine) : Result α :=
  match machine.fault with
  | .noFault => .ok (read machine)
  | .badContentLength => .error .invalidContentLength
  | .conflictingLength => .error .conflictingContentLength
  | .excessiveLength => .error (excessiveLength machine.faultActual)
  | .badTransferEncoding => .error .invalidTransferEncoding

def lengthState : BodyFramingStreamMachine.FramingMachine → Result (Option Nat) :=
  machineState fun machine => if machine.hasAgreedLength then some machine.agreedLength else none

def codingState : BodyFramingStreamMachine.FramingMachine → Result Nat := machineState (·.transferMembers)

private theorem observe_length (machine : BodyFramingStreamMachine.FramingMachine) (raw : List UInt8) :
    lengthState (BodyFramingStreamMachine.observeLength machine raw) =
      (lengthState machine >>= fun agreed => acceptMember agreed raw) := by
  unfold BodyFramingStreamMachine.observeLength BodyFramingStreamMachine.decimalValue acceptMember boundedDecimal
  rw [machine_trim,machine_digits]
  generalize trim isOws raw = member
  obtain ⟨presence,agreed,has,transfers,fault,actual⟩ := machine
  cases member.isEmpty with
  | true => cases fault <;> rfl
  | false =>
    cases parsed : decimalFrom 0 member with
    | error error =>
      obtain rfl := decimalFrom_error member 0 error parsed
      cases fault <;> rfl
    | ok value =>
      by_cases large : value > contentLengthLimit
      · cases fault <;> simp [Except.toOption,large,BodyFramingStreamMachine.rememberFault,
          lengthState,machineState]
      · cases has with
        | false => cases fault <;> simp [Except.toOption,large,lengthState,machineState]
        | true =>
          by_cases same : agreed = value <;>
            cases fault <;> simp [Except.toOption,large,same,BodyFramingStreamMachine.rememberFault,
          lengthState,machineState]

private theorem observe_coding (machine : BodyFramingStreamMachine.FramingMachine) (raw : List UInt8) :
    codingState (BodyFramingStreamMachine.observeCoding machine raw) =
      (codingState machine >>= fun count => acceptCoding count raw) := by
  obtain ⟨presence,agreed,has,transfers,fault,actual⟩ := machine
  unfold BodyFramingStreamMachine.observeCoding acceptCoding rejectsCoding
  rw [machine_trim]
  cases eqIgnoreAsciiCase (trim isOws raw) (ascii "chunked") <;> cases transfers <;> cases fault <;>
    simp [codingState,machineState,BodyFramingStreamMachine.rememberFault]

private theorem remember_presence (machine : BodyFramingStreamMachine.FramingMachine)
    (fault : BodyFramingStreamMachine.Fault) (actual : Nat) :
    (BodyFramingStreamMachine.rememberFault machine fault actual).presence = machine.presence := by
  unfold BodyFramingStreamMachine.rememberFault
  split <;> rfl

private theorem length_presence (machine : BodyFramingStreamMachine.FramingMachine) (raw : List UInt8) :
    (BodyFramingStreamMachine.observeLength machine raw).presence = machine.presence := by
  unfold BodyFramingStreamMachine.observeLength
  split
  · split
    · exact remember_presence ..
    · split
      · exact remember_presence ..
      · rfl
  · exact remember_presence ..

private theorem coding_presence (machine : BodyFramingStreamMachine.FramingMachine) (raw : List UInt8) :
    (BodyFramingStreamMachine.observeCoding machine raw).presence = machine.presence := by
  simp only [BodyFramingStreamMachine.observeCoding]
  split
  · exact remember_presence ..
  · rfl

private theorem fold_lengths (members : List (List UInt8))
    (machine : BodyFramingStreamMachine.FramingMachine) :
    lengthState (members.foldl BodyFramingStreamMachine.observeLength machine) =
      (lengthState machine >>= fun agreed => members.foldlM acceptMember agreed) ∧
    (members.foldl BodyFramingStreamMachine.observeLength machine).presence = machine.presence := by
  induction members generalizing machine with
  | nil =>
    refine ⟨?_,rfl⟩
    simp only [List.foldl_nil,List.foldlM_nil]
    cases lengthState machine <;> rfl
  | cons member members ih =>
    obtain ⟨state,presence⟩ := ih (BodyFramingStreamMachine.observeLength machine member)
    rw [List.foldl_cons,state,presence,observe_length,length_presence,bind_assoc]
    exact ⟨rfl,rfl⟩

private theorem fold_codings (members : List (List UInt8))
    (machine : BodyFramingStreamMachine.FramingMachine) :
    codingState (members.foldl BodyFramingStreamMachine.observeCoding machine) =
      (codingState machine >>= fun count => members.foldlM acceptCoding count) ∧
    (members.foldl BodyFramingStreamMachine.observeCoding machine).presence = machine.presence := by
  induction members generalizing machine with
  | nil =>
    refine ⟨?_,rfl⟩
    simp only [List.foldl_nil,List.foldlM_nil]
    cases codingState machine <;> rfl
  | cons member members ih =>
    obtain ⟨state,presence⟩ := ih (BodyFramingStreamMachine.observeCoding machine member)
    rw [List.foldl_cons,state,presence,observe_coding,coding_presence,bind_assoc]
    exact ⟨rfl,rfl⟩

private theorem machine_bits (fields : List HeaderField) (machine : BodyFramingStreamMachine.FramingMachine)
    (length coding : Bool) (start : machine.presence = bits length coding) :
    (fields.foldl BodyFramingStreamMachine.transitionField machine).presence =
      bits (length || present contentLengthName fields) (coding || present transferEncodingName fields) := by
  induction fields generalizing machine length coding with
  | nil => simp [present,named,start]
  | cons field fields ih =>
    have step : (BodyFramingStreamMachine.transitionField machine field).presence =
        bits (length || field.name == contentLengthName) (coding || field.name == transferEncodingName) := by
      unfold BodyFramingStreamMachine.transitionField
      by_cases isLength : field.name = contentLengthName
      · rw [isLength,if_pos (by simp),(fold_lengths _ _).2,start]
        change bits length coding ||| BodyFramingStreamMachine.sawContentLength = _
        clear start
        revert length coding
        decide
      · by_cases isCoding : field.name = transferEncodingName
        · rw [isCoding,if_neg (by decide),if_pos (by simp),(fold_codings _ _).2,start]
          change bits length coding ||| BodyFramingStreamMachine.sawTransferEncoding = _
          clear start
          revert length coding
          decide
        · rw [beq_eq_false_iff_ne.mpr isLength,beq_eq_false_iff_ne.mpr isCoding]
          simpa using start
    rw [List.foldl_cons,ih _ _ _ step,present_cons,present_cons,Bool.or_assoc,Bool.or_assoc]

private theorem machine_lengths (fields : List HeaderField)
    (machine : BodyFramingStreamMachine.FramingMachine)
    (free : present transferEncodingName fields = false) :
    lengthState (fields.foldl BodyFramingStreamMachine.transitionField machine) =
      (lengthState machine >>= fun agreed =>
        (rawMembers contentLengthName fields).foldlM acceptMember agreed) := by
  induction fields generalizing machine with
  | nil =>
    simp only [List.foldl_nil,rawMembers,named,List.filter_nil,List.flatMap_nil,List.foldlM_nil]
    cases lengthState machine <;> rfl
  | cons field fields ih =>
    rw [present_cons,Bool.or_eq_false_iff] at free
    obtain ⟨notCoding,rest⟩ := free
    rw [List.foldl_cons,ih _ rest,rawMembers_cons]
    unfold BodyFramingStreamMachine.transitionField
    cases isLength : field.name == contentLengthName with
    | true =>
      rw [if_pos rfl,if_pos rfl,(fold_lengths _ _).1,bind_assoc]
      simp only [List.foldlM_append]
      rfl
    | false => rw [if_neg (by simp),notCoding,if_neg (by simp),if_neg (by simp)]

private theorem machine_codings (fields : List HeaderField)
    (machine : BodyFramingStreamMachine.FramingMachine)
    (free : present contentLengthName fields = false) :
    codingState (fields.foldl BodyFramingStreamMachine.transitionField machine) =
      (codingState machine >>= fun count =>
        (rawMembers transferEncodingName fields).foldlM acceptCoding count) := by
  induction fields generalizing machine with
  | nil =>
    simp only [List.foldl_nil,rawMembers,named,List.filter_nil,List.flatMap_nil,List.foldlM_nil]
    cases codingState machine <;> rfl
  | cons field fields ih =>
    rw [present_cons,Bool.or_eq_false_iff] at free
    obtain ⟨notLength,rest⟩ := free
    rw [List.foldl_cons,ih _ rest,rawMembers_cons]
    unfold BodyFramingStreamMachine.transitionField
    rw [notLength,if_neg (by simp)]
    cases isCoding : field.name == transferEncodingName with
    | true =>
      rw [if_pos rfl,if_pos rfl,(fold_codings _ _).1,bind_assoc]
      simp only [List.foldlM_append]
      rfl
    | false => rw [if_neg (by simp),if_neg (by simp)]

private theorem accept_coding_error (members : List (List UInt8)) (count : Nat) (error : PolyguardError)
    (failed : members.foldlM acceptCoding count = .error error) : error = .invalidTransferEncoding := by
  induction members generalizing count with
  | nil => cases failed
  | cons member members ih =>
    rw [List.foldlM_cons] at failed
    unfold acceptCoding at failed
    split at failed
    · cases failed; rfl
    · exact ih _ failed

private theorem machine_reference (headers : HeaderBlock) :
    BodyFramingStreamMachine.determineBodyFraming headers = reference headers := by
  have presence := machine_bits headers.fields ⟨0,0,false,0,.noFault,0⟩ false false rfl
  have lengths := machine_lengths headers.fields ⟨0,0,false,0,.noFault,0⟩
  have codings := machine_codings headers.fields ⟨0,0,false,0,.noFault,0⟩
  rw [show lengthState ⟨0,0,false,0,.noFault,0⟩ = .ok none from rfl,bind_ok] at lengths
  rw [show codingState ⟨0,0,false,0,.noFault,0⟩ = .ok 0 from rfl,bind_ok] at codings
  unfold BodyFramingStreamMachine.determineBodyFraming reference
  generalize headers.fields.foldl BodyFramingStreamMachine.transitionField ⟨0,0,false,0,.noFault,0⟩ = machine
    at presence lengths codings
  obtain ⟨bit,agreed,has,transfers,fault,actual⟩ := machine
  simp only [Bool.false_or] at presence
  subst presence
  cases length : present contentLengthName headers.fields with
  | false =>
    cases coding : present transferEncodingName headers.fields with
    | false =>
      have empty : rawMembers contentLengthName headers.fields = [] :=
        (rawMembers_eq_nil _ _).mpr (by simpa [present] using length)
      have state := lengths coding
      rw [empty] at state
      cases fault with
      | noFault => rfl
      | badTransferEncoding => cases state
      | badContentLength => cases state
      | conflictingLength => cases state
      | excessiveLength => cases state
    | true =>
      have state : codingState ⟨bits false true,agreed,has,transfers,fault,actual⟩ =
          (rawMembers transferEncodingName headers.fields).foldlM acceptCoding 0 := by
        simpa [length,coding] using codings length
      unfold codingFraming
      rw [← state]
      cases fault with
      | noFault => rfl
      | badTransferEncoding => rfl
      | badContentLength => cases accept_coding_error _ _ _ state.symm
      | conflictingLength => cases accept_coding_error _ _ _ state.symm
      | excessiveLength => cases accept_coding_error _ _ _ state.symm
  | true =>
    cases coding : present transferEncodingName headers.fields with
    | true => rfl
    | false =>
      have state : lengthState ⟨bits true false,agreed,has,transfers,fault,actual⟩ =
          (rawMembers contentLengthName headers.fields).foldlM acceptMember none := by
        simpa [length,coding] using lengths coding
      unfold lengthFraming
      rw [← state]
      cases fault with
      | noFault =>
        cases has with
        | false => rfl
        | true =>
          by_cases zero : agreed = 0
          · subst zero; rfl
          · have fixed : BodyFramingStreamMachine.finish
                ⟨bits true false,agreed,true,transfers,.noFault,actual⟩ =
                if (true && true && decide (agreed ≠ 0)) = true then .ok (.contentLength agreed)
                else .ok .none := rfl
            rw [fixed]
            simp [lengthState,machineState,framingOfLength,zero]
      | badTransferEncoding => rfl
      | badContentLength => rfl
      | conflictingLength => rfl
      | excessiveLength => rfl

theorem refines_reference (determine : HeaderBlock → Result BodyFraming)
    (registered : determine ∈ bodyFramingImplementations) (headers : HeaderBlock) :
    determine headers = reference headers := by
  simp only [bodyFramingImplementations,List.mem_cons,List.not_mem_nil,or_false] at registered
  rcases registered with rfl | rfl | rfl | rfl | rfl
  · exact transition_reference headers
  · exact direct_reference headers
  · exact matrix_reference headers
  · exact machine_reference headers
  · exact bounded_reference headers

/-- The value of a digit string, without a bound. -/
def decimal (value : Nat) (digits : List UInt8) : Nat :=
  digits.foldl (fun value digit => value * 10 + (digit - 0x30).toNat) value

/-- A member that is a non-empty digit string of this numeric value. -/
def Denotes (member : List UInt8) (value : Nat) : Prop :=
  member ≠ [] ∧ (∀ b ∈ member, isAsciiDigit b) ∧ decimal 0 member = value

private theorem decimal_ge (digits : List UInt8) (value : Nat) : value ≤ decimal value digits := by
  induction digits generalizing value with
  | nil => exact Nat.le_refl _
  | cons digit digits ih =>
    have later := ih (value * 10 + (digit - 0x30).toNat)
    unfold decimal at later ⊢
    rw [List.foldl_cons]
    omega

private theorem pushDigit_eq (value : Nat) (digit : UInt8) :
    pushDigit value digit =
      if value * 10 + (digit - 0x30).toNat ≤ u64Max then some (value * 10 + (digit - 0x30).toNat) else none := by
  unfold pushDigit checkedMul checkedAdd
  by_cases fits : value * 10 + (digit - 0x30).toNat ≤ u64Max
  · have small : value * 10 ≤ u64Max := by omega
    simp [fits,small]
  · by_cases small : value * 10 ≤ u64Max <;> simp [fits,small]

private theorem decimalFrom_iff (digits : List UInt8) (value result : Nat) (bound : value ≤ u64Max) :
    decimalFrom value digits = .ok result ↔
      (∀ b ∈ digits, isAsciiDigit b) ∧ decimal value digits = result ∧ result ≤ u64Max := by
  induction digits generalizing value with
  | nil =>
    constructor
    · rintro ⟨⟩
      exact ⟨by simp,rfl,bound⟩
    · rintro ⟨_,rfl,_⟩
      rfl
  | cons digit digits ih =>
    have unfolded : decimal value (digit :: digits) =
        decimal (value * 10 + (digit - 0x30).toNat) digits := rfl
    unfold decimalFrom
    rw [unfolded,pushDigit_eq]
    cases head : isAsciiDigit digit with
    | false => simp [head]
    | true =>
      by_cases fits : value * 10 + (digit - 0x30).toNat ≤ u64Max
      · simpa [fits,head] using ih _ fits
      · have larger := decimal_ge digits (value * 10 + (digit - 0x30).toNat)
        simp only [fits,if_false,Bool.not_true,Bool.false_eq_true]
        constructor
        · rintro ⟨⟩
        · rintro ⟨_,same,small⟩
          omega

theorem boundedDecimal_iff (member : List UInt8) (value : Nat) :
    boundedDecimal member = .ok value ↔ Denotes member value ∧ value ≤ contentLengthLimit := by
  have limits : contentLengthLimit ≤ u64Max := by decide
  unfold boundedDecimal Denotes
  cases member with
  | nil => simp
  | cons digit digits =>
    simp only [List.isEmpty_cons,Bool.false_eq_true,if_false]
    constructor
    · intro ok
      obtain ⟨parsed,decoded,checked⟩ := bind_success ok
      obtain ⟨valid,same,_⟩ := (decimalFrom_iff _ 0 parsed (by decide)).mp decoded
      split at checked
      · cases checked
      · cases checked
        exact ⟨⟨by simp,valid,same⟩,by omega⟩
    · rintro ⟨⟨_,valid,same⟩,small⟩
      have decoded := (decimalFrom_iff (digit :: digits) 0 value (by decide)).mpr ⟨valid,same,by omega⟩
      rw [decoded,bind_ok,if_neg (by omega)]

/-- Why a member is refused when the members before it agreed on `agreed`. -/
inductive Offends (agreed : Option Nat) (member : List UInt8) : PolyguardError → Prop where
  | invalid : (∀ value, Denotes member value → u64Max < value) →
      Offends agreed member .invalidContentLength
  | excessive {value : Nat} : Denotes member value → contentLengthLimit < value → value ≤ u64Max →
      Offends agreed member (excessiveLength value)
  | conflicting {value other : Nat} : Denotes member value → value ≤ contentLengthLimit →
      agreed = some other → other ≠ value → Offends agreed member .conflictingContentLength

theorem acceptMember_ok (agreed : Option Nat) (raw : List UInt8) (result : Option Nat) :
    acceptMember agreed raw = .ok result ↔
      ∃ value, result = some value ∧ Denotes (trim isOws raw) value ∧ value ≤ contentLengthLimit ∧
        ∀ other, agreed = some other → other = value := by
  unfold acceptMember
  constructor
  · intro ok
    obtain ⟨value,decoded,checked⟩ := bind_success ok
    obtain ⟨denotes,small⟩ := (boundedDecimal_iff _ _).mp decoded
    split at checked
    · cases checked
    · rename_i agree
      cases checked
      refine ⟨value,rfl,denotes,small,?_⟩
      rintro other rfl
      simpa using agree
  · rintro ⟨value,rfl,denotes,small,agree⟩
    rw [(boundedDecimal_iff _ _).mpr ⟨denotes,small⟩,bind_ok,if_neg]
    cases agreed with
    | none => simp
    | some other => simpa using agree other rfl

theorem acceptMember_error (agreed : Option Nat) (raw : List UInt8) (error : PolyguardError) :
    acceptMember agreed raw = .error error ↔ Offends agreed (trim isOws raw) error := by
  have limits : contentLengthLimit ≤ u64Max := by decide
  unfold acceptMember
  generalize trim isOws raw = member
  constructor
  · intro failed
    cases decoded : boundedDecimal member with
    | ok value =>
      obtain ⟨denotes,small⟩ := (boundedDecimal_iff _ _).mp decoded
      rw [decoded,bind_ok] at failed
      split at failed
      · rename_i conflict
        cases failed
        cases agreed with
        | none => simp at conflict
        | some other => exact .conflicting denotes small rfl (by simpa using conflict)
      · cases failed
    | error raised =>
      rw [decoded,bind_error] at failed
      cases failed
      unfold boundedDecimal at decoded
      split at decoded
      · rename_i empty
        cases decoded
        exact .invalid fun value denotes => absurd (List.isEmpty_iff.mp empty) denotes.1
      · rename_i filled
        cases parsed : decimalFrom 0 member with
        | error raised =>
          rw [parsed,bind_error] at decoded
          cases decoded
          obtain rfl := decimalFrom_error member 0 _ parsed
          refine .invalid fun value denotes => Nat.lt_of_not_le fun small => ?_
          have ok := (decimalFrom_iff member 0 value (by decide)).mpr ⟨denotes.2.1,denotes.2.2,small⟩
          rw [parsed] at ok
          cases ok
        | ok value =>
          rw [parsed,bind_ok] at decoded
          obtain ⟨valid,same,small⟩ := (decimalFrom_iff member 0 value (by decide)).mp parsed
          split at decoded
          · cases decoded
            exact .excessive ⟨by simpa using filled,valid,same⟩ (by omega) small
          · cases decoded
  · intro offends
    cases offends with
    | invalid unbounded =>
      unfold boundedDecimal
      split
      · rfl
      · rename_i filled
        cases parsed : decimalFrom 0 member with
        | error raised =>
          obtain rfl := decimalFrom_error member 0 raised parsed
          rfl
        | ok value =>
          obtain ⟨valid,same,small⟩ := (decimalFrom_iff member 0 value (by decide)).mp parsed
          have large := unbounded value ⟨by simpa using filled,valid,same⟩
          omega
    | @excessive value denotes large small =>
      unfold boundedDecimal
      rw [if_neg (by simpa using denotes.1),
        (decimalFrom_iff member 0 value (by decide)).mpr ⟨denotes.2.1,denotes.2.2,small⟩,bind_ok,if_pos large]
      rfl
    | @conflicting value other denotes small same different =>
      rw [(boundedDecimal_iff _ _).mpr ⟨denotes,small⟩,bind_ok,same,if_pos (by simpa using different)]

theorem lengths_ok (members : List (List UInt8)) (agreed : Option Nat) (value : Nat) :
    members.foldlM acceptMember agreed = .ok (some value) ↔
      (members = [] ∧ agreed = some value) ∨
      (members ≠ [] ∧ value ≤ contentLengthLimit ∧ (∀ raw ∈ members, Denotes (trim isOws raw) value) ∧
        ∀ other, agreed = some other → other = value) := by
  induction members generalizing agreed with
  | nil =>
    rw [List.foldlM_nil,pure_result]
    simp
  | cons raw members ih =>
    rw [List.foldlM_cons]
    constructor
    · intro ok
      obtain ⟨next,accepted,rest⟩ := bind_success ok
      obtain ⟨first,rfl,denotes,small,agree⟩ := (acceptMember_ok _ _ _).mp accepted
      rcases (ih (some first)).mp rest with ⟨rfl,same⟩ | ⟨_,_,later,same⟩
      · cases same
        exact .inr ⟨by simp,small,by simpa using denotes,agree⟩
      · obtain rfl := same first rfl
        exact .inr ⟨by simp,small,by simpa using ⟨denotes,later⟩,agree⟩
    · rintro (⟨empty,_⟩ | ⟨_,small,denotes,agree⟩)
      · cases empty
      · have accepted : acceptMember agreed raw = .ok (some value) :=
          (acceptMember_ok _ _ _).mpr ⟨value,rfl,denotes raw (by simp),small,agree⟩
        rw [accepted,bind_ok,ih]
        cases members with
        | nil => exact .inl ⟨rfl,rfl⟩
        | cons next members =>
          exact .inr ⟨by simp,small,fun other member => denotes other (by simp [member]),by simp⟩

/-- The members before the offending one denote one admissible length, kept in `agreed`. -/
def AgreedOn (before : List (List UInt8)) (agreed : Option Nat) : Prop :=
  (before = [] ∧ agreed = none) ∨
    ∃ value, before ≠ [] ∧ agreed = some value ∧ value ≤ contentLengthLimit ∧
      ∀ raw ∈ before, Denotes (trim isOws raw) value

theorem lengths_reached (before : List (List UInt8)) (agreed : Option Nat) :
    before.foldlM acceptMember none = .ok agreed ↔ AgreedOn before agreed := by
  unfold AgreedOn
  cases agreed with
  | none =>
    constructor
    · intro ok
      refine .inl ⟨?_,rfl⟩
      by_contra filled
      simpa using accept_some none before none ok (.inl filled)
    · rintro (⟨rfl,_⟩ | ⟨value,_,absurd_,_⟩)
      · rfl
      · cases absurd_
  | some value =>
    rw [lengths_ok]
    constructor
    · rintro (⟨_,absurd_⟩ | ⟨filled,small,denotes,_⟩)
      · cases absurd_
      · exact .inr ⟨value,filled,rfl,small,denotes⟩
    · rintro (⟨_,absurd_⟩ | ⟨other,filled,same,small,denotes⟩)
      · cases absurd_
      · cases same
        exact .inr ⟨filled,small,denotes,by simp⟩

theorem lengths_error (members : List (List UInt8)) (error : PolyguardError) :
    members.foldlM acceptMember none = .error error ↔
      ∃ before raw after agreed, members = before ++ raw :: after ∧ AgreedOn before agreed ∧
        Offends agreed (trim isOws raw) error := by
  simp only [foldlM_error_iff,lengths_reached,acceptMember_error]

private theorem all_members (name : List UInt8) (fields : List HeaderField) (p : List UInt8 → Prop) :
    (∀ raw ∈ rawMembers name fields, p raw) ↔
      ∀ field ∈ named name fields, ∀ raw ∈ field.value.splitOn 0x2c, p raw := by
  simp only [rawMembers,List.mem_flatMap]
  constructor
  · intro all field member raw inside
    exact all raw ⟨field,member,inside⟩
  · rintro all raw ⟨field,member,inside⟩
    exact all field member raw inside

private theorem framing_length (length value : Nat) :
    framingOfLength length = .contentLength value ↔ length = value ∧ 0 < value := by
  unfold framingOfLength
  split <;> simp <;> omega

private theorem length_framing_ok (fields : List HeaderField) (filled : named contentLengthName fields ≠ [])
    (framing : BodyFraming) :
    lengthFraming fields = .ok framing ↔
      ∃ value, framing = framingOfLength value ∧ value ≤ contentLengthLimit ∧
        ∀ field ∈ named contentLengthName fields, ∀ raw ∈ field.value.splitOn 0x2c,
          Denotes (trim isOws raw) value := by
  have members : rawMembers contentLengthName fields ≠ [] := by rwa [Ne,rawMembers_eq_nil]
  unfold lengthFraming
  simp only [← all_members contentLengthName fields]
  constructor
  · intro ok
    obtain ⟨agreed,folded,rendered⟩ := bind_success ok
    obtain ⟨value,rfl⟩ := Option.isSome_iff_exists.mp (accept_some none _ agreed folded (.inl members))
    rcases (lengths_ok _ _ _).mp folded with ⟨empty,_⟩ | ⟨_,small,denotes,_⟩
    · exact absurd empty members
    · cases rendered
      exact ⟨value,rfl,small,denotes⟩
  · rintro ⟨value,rfl,small,denotes⟩
    have folded := (lengths_ok (rawMembers contentLengthName fields) none value).mpr
      (.inr ⟨members,small,denotes,by simp⟩)
    rw [folded]
    rfl

private theorem length_framing_error (fields : List HeaderField) (error : PolyguardError) :
    lengthFraming fields = .error error ↔
      ∃ before raw after agreed, rawMembers contentLengthName fields = before ++ raw :: after ∧
        AgreedOn before agreed ∧ Offends agreed (trim isOws raw) error := by
  rw [← lengths_error]
  unfold lengthFraming
  cases (rawMembers contentLengthName fields).foldlM acceptMember none <;> simp

/-- Exactly one transfer-encoding field, and it reads `chunked`. -/
def OnlyChunked (codings : List HeaderField) : Prop :=
  ∃ field, codings = [field] ∧ eqIgnoreAsciiCase (trim isOws field.value) (ascii "chunked")

private theorem coding_framing (fields : List HeaderField) :
    (OnlyChunked (named transferEncodingName fields) → codingFraming fields = .ok .chunked) ∧
    (¬ OnlyChunked (named transferEncodingName fields) →
      codingFraming fields = .error .invalidTransferEncoding) := by
  rw [coding_outcome]
  unfold OnlyChunked
  constructor
  · rintro ⟨field,only,chunked⟩
    simp [only,chunked]
  · intro other
    split
    · rename_i field only
      rw [if_neg fun chunked => other ⟨field,only,chunked⟩]
    · rfl

/-- The registered functions return one result, and that result is the one the header fields call for. -/
theorem body_framing_agreement (headers : HeaderBlock) :
    Agree bodyFramingImplementations headers ∧
    ∀ determine ∈ bodyFramingImplementations,
      let lengths := named contentLengthName headers.fields
      let codings := named transferEncodingName headers.fields
      (determine headers = .error .ambiguousFraming ↔ lengths ≠ [] ∧ codings ≠ []) ∧
      (determine headers = .ok .chunked ↔ lengths = [] ∧ OnlyChunked codings) ∧
      (∀ n, determine headers = .ok (.contentLength n) ↔
        codings = [] ∧ lengths ≠ [] ∧ 0 < n ∧ n ≤ 16777216 ∧
          ∀ field ∈ lengths, ∀ raw ∈ field.value.splitOn 0x2c, Denotes (trim isOws raw) n) ∧
      (determine headers = .ok .none ↔
        (lengths = [] ∧ codings = []) ∨ (codings = [] ∧ lengths ≠ [] ∧
          ∀ field ∈ lengths, ∀ raw ∈ field.value.splitOn 0x2c, Denotes (trim isOws raw) 0)) ∧
      (lengths = [] → ∀ error, determine headers = .error error ↔
        error = .invalidTransferEncoding ∧ codings ≠ [] ∧ ¬ OnlyChunked codings) ∧
      (codings = [] → ∀ error, determine headers = .error error ↔
        ∃ before raw after agreed, rawMembers contentLengthName headers.fields = before ++ raw :: after ∧
          AgreedOn before agreed ∧ Offends agreed (trim isOws raw) error) := by
  refine ⟨agree_of_reference (reference headers) fun determine registered =>
    refines_reference determine registered headers,fun determine registered => ?_⟩
  rw [refines_reference determine registered headers]
  have limited : contentLengthLimit = 16777216 := rfl
  by_cases noLength : named contentLengthName headers.fields = []
  · have noMember := (rawMembers_eq_nil contentLengthName headers.fields).mpr noLength
    by_cases noCoding : named transferEncodingName headers.fields = []
    · have none : reference headers = .ok .none := by simp [reference,present,noLength,noCoding]
      simp [none,noLength,noCoding,noMember,OnlyChunked]
    · have coded : reference headers = codingFraming headers.fields := by
        simp [reference,present,noLength,List.isEmpty_eq_false_iff.mpr noCoding]
      obtain ⟨accepts,refuses⟩ := coding_framing headers.fields
      by_cases chunked : OnlyChunked (named transferEncodingName headers.fields)
      · simp [coded,accepts chunked,noLength,noCoding,chunked]
      · simp [coded,refuses chunked,noLength,noCoding,chunked,eq_comm]
  · by_cases noCoding : named transferEncodingName headers.fields = []
    · have lengths : reference headers = lengthFraming headers.fields := by
        simp [reference,present,List.isEmpty_eq_false_iff.mpr noLength,noCoding]
      have okIff := length_framing_ok headers.fields noLength
      rw [lengths]
      refine ⟨?_,?_,?_,?_,fun empty => absurd empty noLength,fun _ => length_framing_error headers.fields⟩
      · rw [length_framing_error]
        constructor
        · rintro ⟨_,_,_,_,_,_,offends⟩
          cases offends
        · rintro ⟨_,coded⟩
          exact absurd noCoding coded
      · rw [okIff]
        constructor
        · rintro ⟨value,same,_⟩
          unfold framingOfLength at same
          split at same <;> cases same
        · rintro ⟨empty,_⟩
          exact absurd empty noLength
      · intro n
        rw [okIff]
        constructor
        · rintro ⟨value,same,small,denotes⟩
          obtain ⟨rfl,positive⟩ := (framing_length value n).mp same.symm
          exact ⟨noCoding,noLength,positive,by omega,denotes⟩
        · rintro ⟨_,_,positive,small,denotes⟩
          exact ⟨n,((framing_length n n).mpr ⟨rfl,positive⟩).symm,by omega,denotes⟩
      · rw [okIff]
        constructor
        · rintro ⟨value,same,_,denotes⟩
          unfold framingOfLength at same
          split at same
          · rename_i zero
            subst zero
            exact .inr ⟨noCoding,noLength,denotes⟩
          · cases same
        · rintro (⟨empty,_⟩ | ⟨_,_,denotes⟩)
          · exact absurd empty noLength
          · exact ⟨0,rfl,by omega,denotes⟩
    · have ambiguous : reference headers = .error .ambiguousFraming := by
        simp [reference,present,List.isEmpty_eq_false_iff.mpr noLength,List.isEmpty_eq_false_iff.mpr noCoding]
      simp [ambiguous,noLength,noCoding]

end Polyguard.BodyFramingAgreement
